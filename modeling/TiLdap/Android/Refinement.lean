import TiLdap.Android.Steps
import TiLdap.Session.SlotRules

namespace TiLdap.Android

namespace World

def slot (w : World) : Slot :=
  ⟨w.connection.ld,w.connection.bound,w.nextHandle,w.ledger⟩

/-- The socket factory of a connect that installs a session. -/
def opening (w : World) (o : ConnectOptions) (lib : ConnectLib) : Option (Option TrustManager) :=
  match lib.parse (o.uri.getD defaultUri) with
  | none => none
  | some url => match w.connection.startTLS lib.created with
    | .error _ => none
    | .ok factory => if url.host.isSome ∧ lib.refused=none then some factory else none

/-- What a call means for the session of the connection. -/
def slotOp (w : World) : Op → SlotOp
  | .connect o _ lib => match w.opening o lib with
      | none => .idle
      | some factory => .install w.connection.useTLS factory.isSome
  | .simpleBind o _ refused => .bind o.password.get? refused.isNone
  | .saslBind o _ lib => match lib.malformed with
      | none => .bind o.password.get? lib.refused.isNone
      | some _ => .idle
  | .disconnect => .disconnect
  | .release => .disconnect
  | _ => .idle

@[simp] theorem note_slot (w : World) (q : Request) : (w.note q).slot=w.slot := by
  rw [note]
  split_ifs <;> rfl

@[simp] theorem listen_slot (w : World) (r : RequestId) (q : Request) (ev : ListenerEvent) :
    (w.listen r q ev).1.slot=w.slot := by
  obtain ⟨rs,t,f,hw⟩ := listen_frame w r q ev
  rw [hw]
  rfl

theorem listenAll_slot (w : World) (r : RequestId) (q : Request)
    (evs : List ListenerEvent) : (w.listenAll r q evs).1.slot=w.slot := by
  obtain ⟨rs,t,f,hw⟩ := listenAll_frame w r q evs
  rw [hw]
  rfl

/-- The end of `sendRequest` changes the session only for a successful bind. -/
theorem settle_slot (r : RequestId) (async : Bool) (x : Executed) :
    (settle r async x).slot=
      if x.request.method.isBind=true ∧ verdict async x=.ok .succeeded
      then { x.world.slot with bound := true } else x.world.slot := by
  rw [settle]
  cases verdict async x with
  | error f => simp [slot,enroll,fault]
  | ok v =>
    simp only [handle,Except.ok.injEq]
    split_ifs <;> rfl

theorem settle_slot_of_not_bind (r : RequestId) (async : Bool) {x : Executed}
    (h : x.request.method.isBind=false) : (settle r async x).slot=x.world.slot := by
  rw [settle_slot,if_neg (by simp [h])]

/-- A connect, whatever its outcome, only installs what `slotOp` says. -/
theorem connect_slot (w : World) (q : Request) (o : ConnectOptions) (cb : Callbacks)
    (lib : ConnectLib) : (Connect.execute w q o lib).world.slot=
      w.slot.step .android (w.slotOp (.connect o cb lib)) := by
  simp only [Connect.execute,slotOp,opening]
  cases lib.parse (o.uri.getD defaultUri) with
  | none => rfl
  | some url =>
    cases w.connection.startTLS lib.created with
    | error f => rfl
    | ok factory => cases hh : url.host <;> cases lib.refused <;> simp [hh] <;> rfl

/-- The bind call and the flag that its success sets amount to one bind of the session. -/
theorem bindOn_slot (w : World) {q : Request} (hq : q.method.isBind=true)
    (hid : q.asyncRequestId=none) (r : RequestId) (async : Bool) (password : Arg String)
    (refused : Option LDAPException) :
    (settle r async (w.bindOn q password refused)).slot=
      w.slot.bind password.get? refused.isNone := by
  rw [settle_slot,(bindOn_frame w q password refused).2.1]
  cases hld : w.connection.ld with
  | none => simp [bindOn,hld,verdict,Except.map,slot,Slot.bind]
  | some h =>
    cases refused with
    | none => simp [bindOn,hld,verdict,Except.map,slot,Slot.bind,hq,hid,dispatch,verdictOf]
    | some e =>
      have he : e.toLDAPResult.resultCode≠ldapSuccess := e.resultCode.2
      simp [bindOn,hld,verdict,Except.map,slot,Slot.bind,hid,dispatch,verdictOf,he]

theorem saslBind_slot (w : World) {q : Request} (hq : q.method.isBind=true)
    (hid : q.asyncRequestId=none) (r : RequestId) (async : Bool) (o : SaslBindOptions)
    (cb : Callbacks) (lib : SaslLib) :
    (settle r async (SaslBind.execute w q o lib)).slot=
      w.slot.step .android (w.slotOp (.saslBind o cb lib)) := by
  simp only [SaslBind.execute,slotOp]
  cases lib.malformed with
  | none => exact bindOn_slot w hq hid r async o.password lib.refused
  | some e =>
    have he : e.toLDAPResult.resultCode≠ldapSuccess := e.resultCode.2
    simp [settle_slot,verdict,Except.map,hid,dispatch,verdictOf,he,Slot.step]

theorem search_slot (w : World) (r : RequestId) (q : Request) (o : SearchOptions)
    (lib : SearchLib) : (Search.execute w r q o lib).world.slot=w.slot ∧
      (Search.execute w r q o lib).request.method=q.method := by
  rcases search_cases w r q o lib with
    ⟨-,hx⟩|⟨-,-,hx⟩|⟨-,-,h,s,n,a,res,-,hx,-,-⟩|⟨-,-,-,h,rq,-,hx⟩|⟨-,-,rq,e,hx⟩
  · rw [hx]
    exact ⟨rfl,rfl⟩
  · rw [hx]
    exact ⟨rfl,rfl⟩
  · rw [hx]
    exact ⟨rfl,rfl⟩
  · rw [hx]
    exact ⟨listenAll_slot _ _ _ _,(listenAll_keeps _ _ _ _).1⟩
  · rw [hx]
    exact ⟨listenAll_slot _ _ _ _,(listenAll_keeps _ _ _ _).1⟩

theorem disconnect_slot (w : World) : w.disconnect.slot=w.slot.disconnect .android := by
  unfold disconnect Slot.disconnect
  cases hld : w.connection.ld <;> simp [slot,hld]

theorem abandon_slot (w : World) (r : RequestId) (refused : Bool) :
    (w.abandon r refused).slot=w.slot := by
  rcases abandon_cases w r refused with ⟨-,fs,h⟩|⟨q,id,k,-,-,-,h⟩
  · rw [h]
    rfl
  · rw [h]
    rfl

/-- Every call of the program is the session operation that `slotOp` names. -/
theorem step_slot (w : World) (op : Op) :
    (step w op).slot=w.slot.step .android (w.slotOp op) := by
  cases op with
  | setUseTLS b => rfl
  | setCertFile f => rfl
  | connect o cb lib =>
    rw [step,sendRequest,settle_slot_of_not_bind]
    · rw [connect_slot _ _ o cb lib,note_slot]
      simp only [slotOp,opening,note_connection]
    · rw [(connect_frame _ _ o lib).2.1]
      rfl
  | simpleBind o cb refused =>
    rw [step,sendRequest,bindOn_slot _ rfl rfl,note_slot]
    rfl
  | saslBind o cb lib =>
    rw [step,sendRequest,saslBind_slot _ rfl rfl _ _ o cb lib,note_slot]
    rfl
  | search o cb lib =>
    rw [step,sendRequest,settle_slot_of_not_bind]
    · rw [(search_slot _ _ _ o lib).1,note_slot]
      rfl
    · rw [(search_slot _ _ _ o lib).2]
      rfl
  | disconnect => exact disconnect_slot w
  | release => exact disconnect_slot w
  | abandon r refused => exact abandon_slot w r refused
  | listener r ev =>
    simp only [step,slotOp,Slot.step]
    cases w.requests[r]? with
    | none => rfl
    | some q => exact listen_slot w r q ev
  | resultCall i c =>
    obtain ⟨rs,es,fs,hw⟩ := resultCall_frame w i c
    rw [step,hw]
    rfl
  | entryCall i c =>
    obtain ⟨es,hw⟩ := entryCall_frame w i c
    rw [step,hw]
    rfl

theorem step_valid (w : World) (op : Op) (h : w.slot.Valid) : (step w op).slot.Valid := by
  rw [step_slot]
  exact Slot.step_valid .android w.slot (w.slotOp op) h

end World

end TiLdap.Android
