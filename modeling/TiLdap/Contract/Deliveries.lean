import TiLdap.Android.Deliveries

namespace TiLdap

open Framework Android

theorem Android.AsyncSearch.outcome_isSuccess (cb : Callbacks) (arrivals : List Arrival)
    (result : LDAPResult) : (outcome cb arrivals result).map Callback.isSuccess=
      cb.expects (result.resultCode=ldapSuccess) := by
  rw [outcome,verdictOf]
  split_ifs with hc
  · rw [Request.emit,Callbacks.emit_isSuccess _ _ _ (by simp)]
    simp [Callbacks.expects,hc]
  · rw [Request.emit,Callbacks.emit_isSuccess _ _ _ (by simp)]
    simp [Callbacks.expects,hc]

/-- A success carries a search result on the entries that the listener got. -/
theorem Android.AsyncSearch.outcome_result {cb : Callbacks} {arrivals : List Arrival}
    {result : LDAPResult} {c : Callback SearchResultProxy} (hc : c∈outcome cb arrivals result)
    (hs : c.isSuccess=true) :
    ∃p,c.result?=some p ∧ p.Enumerates (arrivals.filterMap Arrival.entry?) := by
  rcases Callbacks.mem_emit.mp hc with ⟨hv,-,rfl⟩|⟨code,m,-,-,rfl⟩
  · have hcode : result.resultCode=ldapSuccess := by
      by_contra hne
      simp [verdictOf,hne] at hv
    let p : SearchResultProxy := ⟨answer arrivals result,none⟩
    have hp : p.searchResult=some ⟨result,(gathered arrivals).entryList,
      (gathered arrivals).referenceList,(gathered arrivals).entryList.length⟩ := if_pos hcode
    exact ⟨p,rfl,SearchResultProxy.enumerates_result hp rfl⟩
  · cases hs

/-- However the steps of the reader and of the caller are interleaved, an asynchronous search
fires nothing until the reader has done its last step and one callback then: of the kind that
the final result code asks for, and on success with a search result that enumerates the entries
in the order of their arrival. -/
theorem async_search_delivers (cb : Callbacks) (id : Nat) (arrivals : List Arrival)
    (result : LDAPResult) (sched : List Thread) :
    ((run (AsyncSearch.step id result) (AsyncSearch.start cb arrivals) sched).fired.map
      Callback.isSuccess=
        if arrivals.length+2≤ sched.count .reader then
          cb.expects (result.resultCode=ldapSuccess) else []) ∧
    ∀c∈(run (AsyncSearch.step id result) (AsyncSearch.start cb arrivals) sched).fired,
      c.isSuccess=true →
      ∃p,c.result?=some p ∧ p.Enumerates (arrivals.filterMap Arrival.entry?) := by
  rw [AsyncSearch.fired_run]
  split_ifs
  · exact ⟨AsyncSearch.outcome_isSuccess cb arrivals result,
      fun c hc => AsyncSearch.outcome_result hc⟩
  · simp

end TiLdap
