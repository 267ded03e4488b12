import TiLdap.Android.Steps

namespace TiLdap.Android

/-- What the SDK makes of a request object: a negative limit is none, and an object that got no
attributes has an empty list of them. -/
def encode (rq : SearchRequest) : SearchMessage where
  base := rq.base
  scope := rq.scope
  filter := rq.filter
  attributes := rq.attrs.getD []
  typesOnly := rq.typesOnly
  sizeLimit := if rq.sizeLimit<0 then 0 else rq.sizeLimit
  timeLimit := if rq.timeLimit<0 then 0 else rq.timeLimit

namespace World

namespace Search

/-- The request object that a search over a bound connection hands to the SDK. A scope that is not
defined ends in an exception before that, and so does a filter that the SDK does not accept. -/
def handed (accepts : String → Bool) (o : SearchOptions) : Option SearchRequest :=
  match definedValueOf (o.scope.getD scopeDefault) with
  | none => none
  | some scope => if accepts (o.filter.getD defaultFilter) then some (request o scope) else none

/-- The message that such a search sends. -/
def message (accepts : String → Bool) (o : SearchOptions) : Option SearchMessage :=
  (handed accepts o).map encode

/-- A search sends a message exactly when its filter is accepted and its scope is defined. -/
theorem message_eq (accepts : String → Bool) (o : SearchOptions) :
    message accepts o=
      if accepts (o.filter.getD defaultFilter)=true ∧ legalScope (o.scope.getD scopeDefault) then
        some
          { base := o.base.getD ""
            scope := o.scope.getD scopeDefault
            filter := o.filter.getD defaultFilter
            attributes := o.names
            typesOnly := o.attrsOnly.getD false
            sizeLimit := if o.sizeLimit.getD 0<0 then 0 else o.sizeLimit.getD 0
            timeLimit := if o.timeLimit.getD 0<0 then 0 else o.timeLimit.getD 0 }
      else none := by
  have hn : ∀scope,((request o scope).attrs.getD [])=o.names := by
    intro scope
    simp only [request,SearchOptions.names]
    cases o.attrs with
    | val a => cases a <;> rfl
    | _ => rfl
  rw [message,handed]
  by_cases hs : legalScope (o.scope.getD scopeDefault)
  · have hd : definedValueOf (o.scope.getD scopeDefault)=some (o.scope.getD scopeDefault) :=
      if_pos hs
    rw [hd]
    cases ha : accepts (o.filter.getD defaultFilter) with
    | false => simp
    | true =>
      simp only [hs,and_self,if_true,Option.map_some,encode,hn]
      rfl
  · have hd : definedValueOf (o.scope.getD scopeDefault)=none := if_neg hs
    rw [hd,if_neg (fun h => hs h.2)]
    rfl

end Search

theorem listenAll_searches (w : World) (r : RequestId) (q : Request)
    (evs : List ListenerEvent) : (w.listenAll r q evs).1.searches=w.searches := by
  obtain ⟨rs,t,f,hw⟩ := listenAll_frame w r q evs
  rw [hw]

theorem settle_searches (r : RequestId) (async : Bool) (x : Executed) :
    (settle r async x).searches=x.world.searches := by
  obtain ⟨c,rs,f,fs,hw⟩ := settle_frame r async x
  rw [hw]

theorem execute_searches {w : World} (hb : w.connection.isBound=true) (r : RequestId)
    (q : Request) {accepts : String → Bool} {o : SearchOptions} {lib : SearchLib}
    (hl : lib.malformed=none ↔ accepts (o.filter.getD defaultFilter)=true) :
    (Search.execute w r q o lib).world.searches=
      (Search.handed accepts o).toList++w.searches := by
  obtain ⟨h,hld⟩ : ∃h,w.connection.ld=some h := by
    rw [ConnectionProxy.isBound] at hb
    exact Option.isSome_iff_exists.mp (Bool.and_eq_true_iff.mp hb).1
  rw [Search.execute,if_pos hb,Search.handed]
  cases hm : lib.malformed with
  | some e =>
    have ha : accepts (o.filter.getD defaultFilter)=false := by
      rw [hm] at hl
      simpa using hl
    cases Search.definedValueOf (o.scope.getD scopeDefault) <;> simp [ha]
  | none =>
    cases Search.definedValueOf (o.scope.getD scopeDefault) with
    | none => rfl
    | some scope =>
      simp only [hl.mp hm,hld,if_true]
      cases o.async.getD false with
      | false =>
        simp only [Bool.false_eq_true,if_false,Search.search]
        cases lib.refused <;> rfl
      | true =>
        simp only [if_true,Search.asyncSearch]
        cases lib.refused with
        | some e => exact listenAll_searches _ _ _ _
        | none => exact listenAll_searches _ _ _ _

/-- A search over a bound connection logs the request that it hands to the SDK, if any. -/
theorem step_searches {w : World} (hb : w.connection.isBound=true) {accepts : String → Bool}
    {o : SearchOptions} (cb : Callbacks) {lib : SearchLib}
    (hl : lib.malformed=none ↔ accepts (o.filter.getD defaultFilter)=true) :
    (step w (.search o cb lib)).searches=(Search.handed accepts o).toList++w.searches := by
  obtain ⟨os,hn⟩ := note_frame w { method := .search, callbacks := cb }
  rw [step,sendRequest,settle_searches,hn]
  exact execute_searches (w := { w with orphans := os }) hb _ _ hl

end World

end TiLdap.Android
