import TiLdap.Ios.Steps
import TiLdap.Session.SlotRules

namespace TiLdap.Ios

open OpenLdap

namespace World

def slot (w : World) : Slot :=
  ⟨w.connection.ld,w.connection.bound,w.nextHandle,w.ledger⟩

/-- Whether TLS is in force after a connect that installs a session. -/
def secure (w : World) (o : ConnectOptions) (lib : ConnectLib) : Bool :=
  lib.ldaps (o.uri.getD defaultUri) || (w.connection.useTLS.getD false && lib.tlsInPlace)

/-- What a call means for the session of the connection. -/
def slotOp (w : World) (op : Op) : SlotOp :=
  if w.aborted then .idle
  else match op with
    | .connect o _ lib => match lib.rejects (o.uri.getD defaultUri) with
        | none => .install (w.connection.useTLS.getD false) (w.secure o lib)
        | some _ => .idle
    | .simpleBind o _ lib => .bind o.password.get? lib.refused.isNone
    | .saslBind o _ lib => .bind o.password.get? lib.refused.isNone
    | .disconnect => .disconnect
    | .destroy => .disconnect
    | _ => .idle

@[simp] theorem note_slot (w : World) (q : Request) : (w.note q).slot=w.slot := by
  rw [note]
  split_ifs <;> rfl

theorem handle_slot (w : World) (r : RequestId) (q : Request) (v : Verdict) :
    (w.handle r q v).slot=
      if q.method.isBind=true ∧ v=.succeeded then { w.slot with bound := true }
      else w.slot := by
  rw [handle]
  split_ifs <;> rfl

theorem waitForResult_slot (w : World) (r : RequestId) {q : Request}
    (hq : q.method.isBind=false) (wait : Wait) : (w.waitForResult r q wait).slot=w.slot := by
  simp only [waitForResult]
  cases waitVerdict (ldapResult w.session.errno wait) with
  | error f => rfl
  | ok x =>
    simp only [handle_slot,hq,Bool.false_eq_true,false_and,if_false]
    rfl

/-- A request that is not a bind leaves the session as `execute:async:` left it. -/
theorem settle_slot_of_not_bind (r : RequestId) (async : Bool) (wait : Wait) {x : Executed}
    (h : x.request.method.isBind=false) : (settle r async wait x).slot=x.world.slot := by
  rw [settle]
  cases x.result with
  | error f => rfl
  | ok code =>
    dsimp only
    split_ifs
    · exact waitForResult_slot x.world r h wait
    · rw [handle_slot,if_neg (by simp [h])]
      rfl

theorem connect_slot (w : World) (q : Request) (o : ConnectOptions) (cb : Callbacks)
    (lib : ConnectLib) (hw : w.aborted=false) : (Connect.execute w q o lib).world.slot=
      w.slot.step .ios (w.slotOp (.connect o cb lib)) := by
  simp only [Connect.execute,slotOp,hw]
  cases lib.rejects (o.uri.getD defaultUri) <;> rfl

theorem returnCode_eq_success (refused : Option ErrorCode) :
    returnCode refused=ldapSuccess ↔ refused=none := by
  cases refused with
  | none => simp [returnCode]
  | some e => simp [returnCode,e.2]

/-- The bind call and the flag that its success sets amount to one bind of the session. -/
theorem bindOn_slot (w : World) {q : Request} (hq : q.method.isBind=true)
    (hid : q.messageId= -1) (r : RequestId) (async : Bool) (wait : Wait)
    (password : Arg String) (lib : BindLib) :
    (settle r async wait (w.bindOn q password lib)).slot=
      w.slot.bind password.get? lib.refused.isNone := by
  cases hld : w.connection.ld with
  | none => simp [settle,bindOn,hld,slot,Slot.bind,fault,enroll]
  | some h =>
    have hs : verdictOf (returnCode lib.refused)=.succeeded ↔ lib.refused=none := by
      rw [verdictOf_eq_succeeded,returnCode_eq_success]
    have hx : (w.bindOn q password lib).result=.ok (returnCode lib.refused) := by
      simp only [bindOn,hld]
    have hrq : (w.bindOn q password lib).request=q := (bindOn_frame w q password lib).2.1
    rw [settle_code r async wait hx (by rw [hrq,hid]),handle_slot,hrq]
    simp only [hq,true_and,hs]
    cases hr : lib.refused <;> simp [bindOn,slot,enroll,store,Slot.bind,hld,hr]

theorem saslBind_slot (w : World) {q : Request} (hq : q.method.isBind=true)
    (hid : q.messageId= -1) (r : RequestId) (async : Bool) (wait : Wait)
    (o : SaslBindOptions) (lib : BindLib) :
    (settle r async wait (SaslBind.execute w q o lib)).slot=
      w.slot.bind o.password.get? lib.refused.isNone := by
  unfold SaslBind.execute
  dsimp only
  split_ifs with h
  · simp [settle,slot,Slot.bind,fault,enroll,h.1]
  · exact bindOn_slot w hq hid r async wait o.password lib

theorem search_slot (w : World) (r : RequestId) (q : Request) (o : SearchOptions)
    (lib : SearchLib) : (Search.execute w r q o lib).world.slot=w.slot ∧
      (Search.execute w r q o lib).request.method=q.method := by
  rcases search_cases w r q o lib with ⟨-,hx⟩|⟨-,-,hx⟩|⟨-,names,h,-,-,hx⟩
  · rw [hx]
    exact ⟨rfl,rfl⟩
  · rw [hx]
    exact ⟨rfl,rfl⟩
  · rw [hx]
    split_ifs <;> exact ⟨rfl,rfl⟩

theorem disconnect_slot (w : World) : w.disconnect.slot=w.slot.disconnect .ios := by
  rw [disconnect,Slot.disconnect]
  cases hld : w.connection.ld with
  | none => simp [slot,hld]
  | some h => cases hb : w.connection.bound <;> simp [slot,hld,hb]

theorem abandon_slot (w : World) (r : RequestId) (ok : Bool) (errno : Int) :
    (w.abandon r ok errno).slot=w.slot := by
  rcases abandon_cases w r ok errno with ⟨-,fs,b,h⟩|⟨q,k,-,-,-,h⟩
  · rw [h]
    rfl
  · rw [h]
    rfl

theorem perform_slot (w : World) (op : Op) (hw : w.aborted=false) :
    (w.perform op).slot=w.slot.step .ios (w.slotOp op) := by
  cases op with
  | connect o cb lib =>
    rw [perform,sendRequest,settle_slot_of_not_bind]
    · have hn : (w.note { method := .connect, callbacks := cb }).aborted=false := by
        rw [note]
        split_ifs <;> exact hw
      rw [connect_slot _ _ o cb lib hn,note_slot]
      simp only [slotOp,hn,hw,secure,note_connection]
    · rw [(connect_frame _ _ o lib).2.1]
      rfl
  | simpleBind o cb lib =>
    rw [perform,sendRequest,bindOn_slot _ rfl rfl,note_slot]
    simp [slotOp,hw,Slot.step]
  | saslBind o cb lib =>
    rw [perform,sendRequest,saslBind_slot _ rfl rfl,note_slot]
    simp [slotOp,hw,Slot.step]
  | search o cb lib =>
    rw [perform,sendRequest,settle_slot_of_not_bind]
    · rw [(search_slot _ _ _ o lib).1,note_slot]
      simp [slotOp,Slot.step]
    · rw [(search_slot _ _ _ o lib).2]
      rfl
  | disconnect => simpa [perform,slotOp,hw,Slot.step] using disconnect_slot w
  | destroy => simpa [perform,slotOp,hw,Slot.step] using disconnect_slot w
  | abandon r ok errno => simpa [perform,slotOp,Slot.step] using abandon_slot w r ok errno
  | resultCall i c =>
    obtain ⟨rs,es,fs,b,h⟩ := resultCall_frame w i c
    rw [perform,h]
    simp [slotOp,Slot.step,slot]
  | entryCall i c errno =>
    obtain ⟨s,es,fs,b,h⟩ := entryCall_frame w i c errno
    rw [perform,h]
    simp [slotOp,Slot.step,slot]
  | _ => simp [perform,slotOp,Slot.step,slot]

/-- Every call of the program is the session operation that `slotOp` names. -/
theorem step_slot (w : World) (op : Op) :
    (step w op).slot=w.slot.step .ios (w.slotOp op) := by
  rw [step]
  cases hw : w.aborted with
  | true => simp [slotOp,hw,Slot.step]
  | false => exact perform_slot w op hw

theorem step_valid (w : World) (op : Op) (h : w.slot.Valid) : (step w op).slot.Valid := by
  rw [step_slot]
  exact Slot.step_valid .ios w.slot (w.slotOp op) h

end World

end TiLdap.Ios
