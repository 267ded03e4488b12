import TiLdap.Ios.Refinement
import TiLdap.Ios.Callbacks
import TiLdap.Interface.Targets

namespace TiLdap.Ios.World

open Framework

/-- A connect succeeds exactly when `ldap_initialize` does. -/
theorem connect_succeeds (w : World) (o : ConnectOptions) (cb : Callbacks) (lib : ConnectLib) :
    (step w (.connect o cb lib)).fired=(w.requests.length,.success .connect none)::w.fired ↔
      w.aborted=false ∧ lib.rejects (o.uri.getD defaultUri)=none ∧ cb.success=true := by
  rw [step]
  cases hw : w.aborted with
  | true => simp
  | false =>
    simp only [Bool.false_eq_true,if_false,true_and]
    rw [perform,sendRequest]
    obtain ⟨os,hn⟩ := note_frame w { method := .connect, callbacks := cb }
    rw [hn]
    obtain ⟨⟨c,s,n,l,hx⟩,hq,code,hr⟩ := connect_frame { w with orphans := os }
      { method := .connect, callbacks := cb } o lib
    have hcode : code=ldapSuccess ↔ lib.rejects (o.uri.getD defaultUri)=none := by
      simp only [Connect.execute] at hr
      cases hj : lib.rejects (o.uri.getD defaultUri) with
      | none => simp [hj] at hr; simp [← hr]
      | some e => simp [hj] at hr; simp [← hr,e.2]
    rw [settle_code _ _ _ hr (by rw [hq]),handle_fired,hq]
    have hf : ((Connect.execute { w with orphans := os } { method := .connect, callbacks := cb }
        o lib).world.enroll ((Connect.execute { w with orphans := os }
        { method := .connect, callbacks := cb } o lib).request.release (verdictOf code))).fired=
        w.fired := by
      rw [enroll,hx]
    have he := cb.emit_eq_success .connect (none : Option SearchResultProxy) (verdictOf code)
    rw [verdictOf_eq_succeeded,hcode] at he
    rw [hq] at hf
    rw [hf,keyed_append_eq_cons]
    exact he

/-- A connect that ends in the success callback has installed a session with TLS in force
whenever TLS was asked for. -/
def Honest (w : World) (o : ConnectOptions) (cb : Callbacks) (lib : ConnectLib) : Prop :=
  let w' := step w (.connect o cb lib)
  w.connection.useTLS.getD false=true →
  w'.fired=(w.requests.length,.success .connect none)::w.fired →
  ∃h l,w'.connection.ld=some h ∧ w'.ledger=.transport h true true::l

/-- StartTLS leaves TLS in place whenever it is asked for on a session that is not ldaps anyway. -/
def tlsGuard (w : World) : Op → Prop
  | .connect o _ lib => w.aborted=false → w.connection.useTLS.getD false=true →
      lib.rejects (o.uri.getD defaultUri)=none →
      lib.ldaps (o.uri.getD defaultUri)=true ∨ lib.tlsInPlace=true
  | _ => True

theorem secure_iff {w : World} (hu : w.connection.useTLS.getD false=true) (o : ConnectOptions)
    (lib : ConnectLib) : w.secure o lib=true ↔
      lib.ldaps (o.uri.getD defaultUri)=true ∨ lib.tlsInPlace=true := by
  simp [secure,hu]

theorem tlsGuard_iff (w : World) (op : Op) : Slot.tlsGuard (w.slotOp op) ↔ w.tlsGuard op := by
  unfold slotOp
  cases hw : w.aborted with
  | true => cases op <;> simp [Slot.tlsGuard,tlsGuard,hw]
  | false =>
    cases op with
    | connect o cb lib =>
      simp only [Bool.false_eq_true,if_false,tlsGuard,hw,true_implies]
      cases hj : lib.rejects (o.uri.getD defaultUri) with
      | some e => simp [Slot.tlsGuard]
      | none =>
        simp only [Slot.tlsGuard,true_implies]
        exact forall_congr' fun hu => secure_iff hu o lib
    | _ => simp [Slot.tlsGuard,tlsGuard]

theorem honest_iff (w : World) (o : ConnectOptions) (cb : Callbacks) (lib : ConnectLib) :
    w.Honest o cb lib ↔ (cb.success=true → w.tlsGuard (.connect o cb lib)) := by
  simp only [Honest,connect_succeeds,tlsGuard]
  have hs := step_slot w (.connect o cb lib)
  cases hw : w.aborted with
  | true => simp
  | false =>
    simp only [slotOp,hw,Bool.false_eq_true,if_false] at hs
    cases hj : lib.rejects (o.uri.getD defaultUri) with
    | some e => simp
    | none =>
      simp only [hj,Slot.step,Slot.install,slot,Slot.mk.injEq] at hs
      obtain ⟨hld,-,-,hl⟩ := hs
      rw [hld,hl]
      constructor
      · intro h hcb _ hu _
        obtain ⟨k,l,hk,hl⟩ := h hu ⟨rfl,rfl,hcb⟩
        have ht := (List.cons.inj hl).1
        rw [← secure_iff hu]
        exact (SessionEvent.transport.inj ht).2.2
      · intro h hu hcb
        refine ⟨w.nextHandle,.opened w.nextHandle::w.ledger,rfl,?_⟩
        rw [(secure_iff hu o lib).mpr (h hcb.2.2 rfl hu rfl),hu]

/-- Where a connect ends: the handle keeps the uri, and so what it names, for all that follows. -/
def reach (named : String → Url) (w : World) (o : ConnectOptions) (lib : ConnectLib) : Reach :=
  let x := Connect.execute w { method := .connect, callbacks := ⟨true,true⟩ } o lib
  let url := named (o.uri.getD defaultUri)
  match x.result,x.world.ledger with
  | .error f,_ => .raised f
  | .ok code,.transport _ _ secure::_ =>
    if code=ldapSuccess then .contact ⟨url.host,url.port,secure⟩ else .failed
  | .ok _,_ => .failed

theorem reach_eq (named : String → Url) (w : World) (o : ConnectOptions) (lib : ConnectLib) :
    w.reach named o lib=match lib.rejects (o.uri.getD defaultUri) with
      | some _ => .failed
      | none => .contact ⟨(named (o.uri.getD defaultUri)).host,
          (named (o.uri.getD defaultUri)).port,w.secure o lib⟩ := by
  simp only [reach,Connect.execute]
  cases lib.rejects (o.uri.getD defaultUri) with
  | none => rfl
  | some e =>
    have he : e.val≠ldapSuccess := e.2
    dsimp only
    cases w.ledger with
    | nil => rfl
    | cons ev l => cases ev <;> simp [he]

end TiLdap.Ios.World
