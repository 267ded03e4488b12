import TiLdap.Android.Refinement
import TiLdap.Android.Callbacks
import TiLdap.Interface.Targets

namespace TiLdap.Android.World

open Framework

/-- There is a socket factory exactly when TLS is asked for and one was created. -/
theorem startTLS_secure {c : ConnectionProxy} {created : Bool} {factory : Option TrustManager}
    (h : c.startTLS created=.ok factory) : factory.isSome=(c.useTLS && created) := by
  rw [ConnectionProxy.startTLS] at h
  cases hu : c.useTLS with
  | false =>
    simp only [hu,Bool.false_eq_true,if_false,Except.ok.injEq] at h
    rw [← h]
    rfl
  | true =>
    cases hc : c.certFile with
    | absent =>
      simp only [hu,hc,if_true,Except.ok.injEq] at h
      rw [← h]
      cases created <;> rfl
    | null => simp [hu,hc] at h
    | val f =>
      cases hg : getFilePath f with
      | none => simp [hu,hc,hg] at h
      | some path =>
        simp only [hu,hc,hg,if_true,Except.ok.injEq] at h
        rw [← h]
        cases created <;> rfl

theorem opening_secure {w : World} {o : ConnectOptions} {lib : ConnectLib}
    {factory : Option TrustManager} (hu : w.connection.useTLS=true)
    (h : w.opening o lib=some factory) : factory.isSome=lib.created := by
  rw [opening] at h
  cases hp : lib.parse (o.uri.getD defaultUri) with
  | none => simp [hp] at h
  | some url =>
    cases hs : w.connection.startTLS lib.created with
    | error f => simp [hp,hs] at h
    | ok factory' =>
      have he : factory'=factory := by
        simp only [hp,hs] at h
        split_ifs at h
        exact Option.some.inj h
      rw [← he,startTLS_secure hs,hu,Bool.true_and]

/-- A connect succeeds exactly when it opens a session. -/
theorem connect_verdict (w : World) {q : Request} (hid : q.asyncRequestId=none) (async : Bool)
    (o : ConnectOptions) (lib : ConnectLib) :
    verdict async (Connect.execute w q o lib)=.ok .succeeded ↔
      (w.opening o lib).isSome=true := by
  simp only [Connect.execute,opening]
  cases lib.parse (o.uri.getD defaultUri) with
  | none => simp [verdict,Except.map,hid,dispatch]
  | some url =>
    cases w.connection.startTLS lib.created with
    | error f => simp [verdict,Except.map]
    | ok factory =>
      cases hh : url.host with
      | none => simp [hh,verdict,Except.map]
      | some host =>
        cases lib.refused with
        | none => simp [hh,verdict,Except.map,hid,dispatch,verdictOf]
        | some e =>
          have he : e.toLDAPResult.resultCode≠ldapSuccess := e.resultCode.2
          simp [hh,verdict,Except.map,hid,dispatch,verdictOf,he]

theorem posts_eq_success (async : Bool) (x : Executed) :
    posts async x=[.success x.request.method x.request.resultProxy] ↔
      verdict async x=.ok .succeeded ∧ x.request.callbacks.success=true := by
  unfold posts
  cases verdict async x with
  | error f => simp
  | ok v => simpa [Request.emit] using Callbacks.emit_eq_success _ _ _ v

theorem connect_succeeds (w : World) (o : ConnectOptions) (cb : Callbacks) (lib : ConnectLib) :
    (step w (.connect o cb lib)).fired=(w.requests.length,.success .connect none)::w.fired ↔
      (w.opening o lib).isSome=true ∧ cb.success=true := by
  rw [step,sendRequest,settle_fired]
  obtain ⟨os,hn⟩ := note_frame w { method := .connect, callbacks := cb }
  rw [hn]
  obtain ⟨⟨c,n,l,k,hw⟩,hq,-⟩ := connect_frame { w with orphans := os }
    { method := .connect, callbacks := cb } o lib
  have hp := posts_eq_success (o.async.getD false) (Connect.execute { w with orphans := os }
    { method := .connect, callbacks := cb } o lib)
  rw [connect_verdict { w with orphans := os } (by rfl) (o.async.getD false) o lib,hq] at hp
  rw [hw,keyed_append_eq_cons]
  exact hp

/-- A connect that ends in the success callback has installed a session with TLS in force
whenever TLS was asked for. -/
def Honest (w : World) (o : ConnectOptions) (cb : Callbacks) (lib : ConnectLib) : Prop :=
  let w' := step w (.connect o cb lib)
  w.connection.useTLS=true →
  w'.fired=(w.requests.length,.success .connect none)::w.fired →
  ∃h l,w'.connection.ld=some h ∧ w'.ledger=.transport h true true::l

/-- A socket factory is created whenever TLS is asked for and the connect gets as far as
opening a session. -/
def tlsGuard (w : World) : Op → Prop
  | .connect o _ lib => w.connection.useTLS=true → (w.opening o lib).isSome=true →
      lib.created=true
  | _ => True

theorem tlsGuard_iff (w : World) (op : Op) : Slot.tlsGuard (w.slotOp op) ↔ w.tlsGuard op := by
  cases op with
  | connect o cb lib =>
    simp only [slotOp,tlsGuard]
    cases ho : w.opening o lib with
    | none => simp [Slot.tlsGuard]
    | some factory =>
      simp only [Slot.tlsGuard,Option.isSome_some,true_implies]
      constructor
      · intro h hu
        rw [← opening_secure hu ho]
        exact h hu
      · intro h hu
        rw [opening_secure hu ho]
        exact h hu
  | saslBind o cb lib =>
    simp only [slotOp,tlsGuard]
    cases lib.malformed <;> simp [Slot.tlsGuard]
  | _ => simp [slotOp,tlsGuard,Slot.tlsGuard]

theorem honest_iff (w : World) (o : ConnectOptions) (cb : Callbacks) (lib : ConnectLib) :
    w.Honest o cb lib ↔ (cb.success=true → w.tlsGuard (.connect o cb lib)) := by
  simp only [Honest,connect_succeeds,tlsGuard]
  have hs := step_slot w (.connect o cb lib)
  simp only [slotOp] at hs
  cases ho : w.opening o lib with
  | none => simp
  | some factory =>
    simp only [ho,Slot.step,Slot.install,slot,Slot.mk.injEq] at hs
    obtain ⟨hld,-,-,hl⟩ := hs
    rw [hld,hl]
    constructor
    · intro h hcb hu _
      obtain ⟨k,l,hk,hl⟩ := h hu ⟨rfl,hcb⟩
      have ht := (List.cons.inj hl).1
      rw [← opening_secure hu ho]
      exact (SessionEvent.transport.inj ht).2.2
    · intro h hu hcb
      refine ⟨w.nextHandle,.opened w.nextHandle::w.ledger,rfl,?_⟩
      rw [opening_secure hu ho,h hcb.2 hu rfl,hu]

/-- Where a connect ends. The constructor of `LDAPConnection` protects the transport exactly when
it is given a socket factory. -/
def reach (w : World) (o : ConnectOptions) (lib : ConnectLib) : Reach :=
  let x := Connect.execute w { method := .connect, callbacks := ⟨true,true⟩ } o lib
  match verdict (o.async.getD false) x,x.world.contacts with
  | .error f,_ => .raised f
  | .ok .succeeded,c::_ => .contact ⟨some c.host,c.port,c.socketFactory.isSome⟩
  | .ok _,_ => .failed

theorem reach_eq (w : World) (o : ConnectOptions) (lib : ConnectLib) :
    w.reach o lib=match lib.parse (o.uri.getD defaultUri) with
      | none => .failed
      | some url => match w.connection.startTLS lib.created with
        | .error f => .raised f
        | .ok factory => match url.host with
          | none => .raised .usage
          | some host => match lib.refused with
            | some _ => .failed
            | none => .contact ⟨some host,url.port,factory.isSome⟩ := by
  simp only [reach,Connect.execute]
  cases lib.parse (o.uri.getD defaultUri) with
  | none => simp [verdict,Except.map,dispatch]
  | some url =>
    cases w.connection.startTLS lib.created with
    | error f => simp [verdict,Except.map]
    | ok factory =>
      cases hh : url.host with
      | none => simp [hh,verdict,Except.map]
      | some host =>
        cases lib.refused with
        | none => simp [hh,verdict,Except.map,dispatch,verdictOf]
        | some e =>
          have he : e.toLDAPResult.resultCode≠ldapSuccess := e.resultCode.2
          simp [hh,verdict,Except.map,dispatch,verdictOf,he]

/-- The trust manager can be built: a `certFile` property has a path. -/
def Certified (c : ConnectionProxy) : Prop :=
  match c.certFile with
  | .absent => True
  | .null => False
  | .val f => getFilePath f≠none

theorem startTLS_ok_iff (c : ConnectionProxy) (created : Bool) :
    (∃factory,c.startTLS created=.ok factory) ↔ (c.useTLS=true → Certified c) := by
  rw [ConnectionProxy.startTLS,Certified]
  cases hu : c.useTLS with
  | false => simp
  | true =>
    cases hc : c.certFile with
    | absent => simp
    | null => simp
    | val f => cases hg : getFilePath f <;> simp [hg]

end TiLdap.Android.World
