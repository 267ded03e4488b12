import TiLdap.Session.Slot

namespace TiLdap.Slot

open Framework

/-- A session is installed only while nothing is bound, and a bind is rejected only while
nothing is bound. -/
def bindGuard (s : Slot) : SlotOp → Prop
  | .install _ _ => s.isBound=false
  | .bind _ ok => ok=true ∨ s.isBound=false
  | .disconnect => True
  | .idle => True

/-- TLS is in force on a new session whenever it was asked for. -/
def tlsGuard : SlotOp → Prop
  | .install u t => u=true → t=true
  | _ => True

/-- A session is installed only into an empty slot, and iOS disconnects only bound sessions. -/
def accountGuard (p : Platform) (s : Slot) : SlotOp → Prop
  | .install _ _ => s.ld=none
  | .disconnect => p=.ios → s.ld≠none → s.bound=true
  | _ => True

theorem isBound_false_iff {s : Slot} (hv : Valid s) : s.isBound=false ↔ s.bound=false := by
  cases hld : s.ld with
  | none => simp [isBound,hld,hv.unbound hld]
  | some h => simp [isBound,hld]

theorem install_authentic {s : Slot} (hv : Valid s) (u t : Bool) :
    Authentic (s.install u t) ↔ s.isBound=false := by
  have fresh : lastBind s.next s.ledger=none := lastBind_fresh hv.fresh
  rw [isBound_false_iff hv]
  simp [Authentic,isBound,install,lastBind,fresh]

theorem bind_authentic {s : Slot} (ha : Authentic s) (pw : Option String)
    (ok : Bool) : Authentic (s.bind pw ok) ↔ ok=true ∨ s.isBound=false := by
  cases hld : s.ld with
  | none => simpa [bind,hld,isBound] using ha
  | some h =>
    cases ok <;> simp [Authentic,isBound,bind,hld,lastBind]

theorem disconnect_authentic (p : Platform) {s : Slot} (ha : Authentic s) :
    Authentic (s.disconnect p) := by
  cases hld : s.ld with
  | none => cases p <;> simpa [disconnect,hld] using ha
  | some h =>
    cases p with
    | android => simp [Authentic,disconnect,hld,isBound]
    | ios => cases hb : s.bound <;> simp [Authentic,disconnect,hld,hb,isBound]

/-- A step keeps the bound state authentic exactly when it meets `bindGuard`. -/
theorem step_authentic (p : Platform) {s : Slot} (op : SlotOp) (hv : Valid s)
    (ha : Authentic s) : Authentic (s.step p op) ↔ s.bindGuard op := by
  cases op with
  | install u t => exact install_authentic hv u t
  | bind pw ok => exact bind_authentic ha pw ok
  | disconnect => exact iff_of_true (disconnect_authentic p ha) trivial
  | idle => exact iff_of_true ha trivial

theorem bind_transport (s : Slot) (pw : Option String) (ok : Bool) (h : Handle) (u t : Bool) :
    SessionEvent.transport h u t∈(s.bind pw ok).ledger ↔
      SessionEvent.transport h u t∈s.ledger := by
  cases hld : s.ld <;> simp [bind,hld]

theorem disconnect_transport (p : Platform) (s : Slot) (h : Handle) (u t : Bool) :
    SessionEvent.transport h u t∈(s.disconnect p).ledger ↔
      SessionEvent.transport h u t∈s.ledger := by
  cases hld : s.ld <;> cases p <;> cases hb : s.bound <;> simp [disconnect,hld,hb]

/-- A step keeps the sessions protected exactly when it meets `tlsGuard`. -/
theorem step_protected (p : Platform) {s : Slot} (op : SlotOp) (hp : Protected s) :
    Protected (s.step p op) ↔ tlsGuard op := by
  cases op with
  | install u t =>
    constructor
    · intro h hu
      by_contra ht
      have ht : t=false := by simpa using ht
      exact h s.next (by simp [step,install,hu,ht])
    · intro hg h hm
      simp only [step,install,List.mem_cons,SessionEvent.transport.injEq,reduceCtorEq,
        false_or] at hm
      rcases hm with ⟨-,hu,ht⟩|hm
      · exact absurd (hg hu.symm) (by simp [← ht])
      · exact hp h hm
  | bind pw ok =>
    refine iff_of_true ?_ trivial
    intro h hm
    exact hp h ((bind_transport s pw ok h true false).mp hm)
  | disconnect =>
    refine iff_of_true ?_ trivial
    intro h hm
    exact hp h ((disconnect_transport p s h true false).mp hm)
  | idle => exact iff_of_true hp trivial

/-- On protected sessions every password went to a session that TLS protects or for which
the application did not ask for TLS. -/
theorem protected_passwords {s : Slot} (hv : Valid s) (hp : Protected s) {h : Handle}
    {pw : String} {ok : Bool} (hb : SessionEvent.bound h (some pw) ok∈s.ledger) :
    (∃u t,SessionEvent.transport h u t∈s.ledger) ∧
    ∀u t,SessionEvent.transport h u t∈s.ledger → u=true → t=true := by
  refine ⟨hv.passwords h _ ok hb,?_⟩
  intro u t ht hu
  subst hu
  cases t with
  | true => rfl
  | false => exact absurd ht (hp h)

/-- No session that TLS was asked for is in plaintext, and every password went to a session
that TLS protects or for which it was not asked. -/
def Shielded (s : Slot) : Prop :=
  s.Protected ∧ ∀h pw ok,SessionEvent.bound h (some pw) ok∈s.ledger →
    (∃u t,SessionEvent.transport h u t∈s.ledger) ∧
    ∀u t,SessionEvent.transport h u t∈s.ledger → u=true → t=true

theorem shielded_iff {s : Slot} (hv : Valid s) : s.Shielded ↔ s.Protected := by
  constructor
  · intro h
    exact h.1
  · intro h
    exact ⟨h,fun k pw ok hb => protected_passwords hv h hb⟩

/-- The accounts are balanced and no session was closed twice. -/
def Balanced (s : Slot) : Prop :=
  s.Accounted ∧ (Ledger.released (accounts s.ledger)).Nodup

theorem balanced_iff {s : Slot} (hv : Valid s) : s.Balanced ↔ s.Accounted := by
  constructor
  · intro h
    exact h.1
  · intro h
    exact ⟨h,Ledger.released_nodup hv.sound⟩

theorem install_accounted {s : Slot} (hv : Valid s) (ha : Accounted s) (u t : Bool) :
    Accounted (s.install u t) ↔ s.ld=none := by
  have hl : Ledger.live (accounts (s.install u t).ledger)=insert s.next s.ld.toFinset := by
    rw [← ha]
    simp [install,accounts_cons,movement,Ledger.live]
  rw [Accounted]
  rw [hl]
  cases hld : s.ld with
  | none => simp [install]
  | some h =>
    obtain ⟨u',t',ht⟩ := hv.installed h hld
    have lt : h<s.next := hv.fresh _ ht
    simp only [install,Option.toFinset_some,reduceCtorEq,iff_false]
    intro bad
    have hm : h∈({s.next} : Finset Handle) := bad ▸ by simp
    exact Nat.ne_of_lt lt (Finset.mem_singleton.mp hm)

theorem disconnect_accounted (p : Platform) {s : Slot} (ha : Accounted s) :
    Accounted (s.disconnect p) ↔ (p=.ios → s.ld≠none → s.bound=true) := by
  cases hld : s.ld with
  | none => cases p <;> simpa [disconnect,hld] using ha
  | some h =>
    have hl : Ledger.live (accounts s.ledger)={h} := by
      simpa [Accounted,hld] using ha
    cases p with
    | android => simp [Accounted,disconnect,hld,accounts_cons,movement,Ledger.live,hl]
    | ios =>
      cases hb : s.bound <;>
        simp [Accounted,disconnect,hld,hb,accounts_cons,movement,Ledger.live,hl]

/-- A step keeps the accounts balanced exactly when it meets `accountGuard`. -/
theorem step_accounted (p : Platform) {s : Slot} (op : SlotOp) (hv : Valid s)
    (ha : Accounted s) : Accounted (s.step p op) ↔ s.accountGuard p op := by
  cases op with
  | install u t => exact install_accounted hv ha u t
  | bind pw ok =>
    refine iff_of_true ?_ trivial
    cases hld : s.ld with
    | none => simpa [step,bind,hld] using ha
    | some h => simpa [Accounted,step,bind,hld,accounts_cons,movement] using ha
  | disconnect => exact disconnect_accounted p ha
  | idle => exact iff_of_true ha trivial

end TiLdap.Slot
