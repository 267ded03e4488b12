import TiLdap.Ios.Outcomes

namespace TiLdap

open OpenLdap

namespace OpenLdap

/-- How a response comes in without timeout or connection loss. -/
def delivery (c : Chain) (queued : Bool) : Wait := if queued then .queued c else .read c

theorem delivery_chain (c : Chain) (queued : Bool) : (delivery c queued).chain?=some c := by
  cases queued <;> rfl

end OpenLdap

namespace Ios.World

/-- Both searches report the final result code, with the callback of the one kind or the other,
and a search result enumerates the entries of the response. -/
def Faithful (cb : Callbacks) (c : Chain) (cs : List (Callback SearchResultProxy)) : Prop :=
  cs.map Callback.isSuccess=cb.expects (c.final=some ldapSuccess) ∧
  ∀x∈cs,∀p,x.result?=some p → p.Enumerates (itemEntries c.items)

/-- The search run with `async` false and the search run with `async` true agree. -/
def SearchesAgree (w : World) (o : SearchOptions) (sync async : SearchLib) (c : Chain) : Prop :=
  ∀cb,Faithful cb c (posted w (.search { o with async := .val false } cb sync)) ∧
    Faithful cb c (posted w (.search { o with async := .val true } cb async))

/-- A search on a chain is faithful for every choice of callbacks exactly when its verdict is. -/
theorem faithful_iff (c : Chain) {v : Verdict} (hv : v≠.initiated) :
    (∀cb,Faithful cb c (Request.emit { method := .search, callbacks := cb, ldapMessage := some c }
      v)) ↔ (v=.succeeded ↔ c.final=some ldapSuccess) := by
  have results : ∀cb,∀x∈Request.emit
      { method := .search, callbacks := cb, ldapMessage := some c } v,
      ∀p,x.result?=some p → p.Enumerates (itemEntries c.items) := by
    intro cb x hx p hp
    rcases Callbacks.mem_emit.mp hx with ⟨-,-,rfl⟩|⟨code,m,-,-,rfl⟩
    · have hp : (⟨some c,none⟩ : SearchResultProxy)=p := Option.some.inj hp
      rw [← hp]
      exact SearchResultProxy.enumerates_chain rfl
    · cases hp
  have kinds : ∀cb,(Request.emit { method := .search, callbacks := cb, ldapMessage := some c }
      v).map Callback.isSuccess=cb.expects (v=.succeeded) :=
    fun cb => cb.emit_isSuccess _ _ hv
  rw [← Callbacks.expects_inj (p := v=.succeeded) (q := c.final=some ldapSuccess)]
  constructor
  · intro h cb
    rw [← (h cb).1,kinds]
  · intro h cb
    refine ⟨?_,results cb⟩
    rw [kinds]
    exact h cb

theorem chainVerdict_succeeded (c : Chain) :
    chainVerdict c=.succeeded ↔ c.final=some ldapSuccess := by
  rw [chainVerdict]
  split_ifs with h
  · simp [h]
  · simp [h,errorVerdict]

theorem syncVerdict_delivery (busy queued : Bool) (c : Chain) :
    (syncVerdict busy (delivery c queued)=.succeeded ↔ c.final=some ldapSuccess) ↔
      (queued=true → c.leadsAside=true → (busy=false ↔ c.final=some ldapSuccess)) := by
  cases queued with
  | false => simpa [delivery,syncVerdict] using chainVerdict_succeeded c
  | true =>
    cases hl : c.leadsAside with
    | false => simpa [delivery,syncVerdict,hl] using chainVerdict_succeeded c
    | true =>
      cases busy <;> simp [delivery,syncVerdict,hl,sentErrno,verdictOf,errorVerdict,ldapBusy,
        ldapSuccess]

theorem asyncVerdict_delivery (busy queued : Bool) (c : Chain) :
    (asyncVerdict busy (delivery c queued)=.succeeded ↔ c.final=some ldapSuccess) ↔
      (queued=true → c.leadsAside=true → c.final≠some ldapSuccess) := by
  cases queued with
  | false => simpa [delivery,asyncVerdict] using chainVerdict_succeeded c
  | true =>
    cases hl : c.leadsAside with
    | false => simpa [delivery,asyncVerdict,hl] using chainVerdict_succeeded c
    | true => simp [delivery,asyncVerdict,hl]

theorem verdictOf_ne_initiated (code : Int) : verdictOf code≠.initiated := by
  rw [verdictOf]
  split_ifs <;> simp [errorVerdict]

theorem chainVerdict_ne_initiated (c : Chain) : chainVerdict c≠.initiated := by
  unfold chainVerdict
  split_ifs <;> simp [errorVerdict]

theorem delivery_ne_initiated (busy queued : Bool) (c : Chain) :
    syncVerdict busy (delivery c queued)≠.initiated ∧
    asyncVerdict busy (delivery c queued)≠.initiated := by
  have hc := chainVerdict_ne_initiated c
  have hv := verdictOf_ne_initiated (sentErrno busy)
  cases queued with
  | false => exact ⟨hc,hc⟩
  | true =>
    cases hl : c.leadsAside with
    | false => simp [delivery,syncVerdict,asyncVerdict,hl,hc]
    | true => simp [delivery,syncVerdict,asyncVerdict,hl,hv]

end Ios.World

end TiLdap
