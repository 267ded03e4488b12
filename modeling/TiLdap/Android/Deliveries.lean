import TiLdap.Android.AsyncSearch
import TiLdap.Android.Callbacks

namespace TiLdap.Android.World

open Framework AsyncSearch

theorem listen_receive (w : World) (r : RequestId) (q : Request) (a : Arrival) :
    w.listen r q a.event=(w,q.receive a) := by
  rw [listen,Request.receive]
  cases q.listener with
  | none => rfl
  | some l => cases a <;> rfl

/-- The listener called with a whole response does what the reader's steps do. -/
theorem listenAll_outcome (w : World) (r : RequestId) {q : Request} (seen rest : List Arrival)
    (result : LDAPResult) (hm : q.method=.search) (hl : q.listener=some (gathered seen))
    (ha : q.ldapResult=none) :
    (w.listenAll r q (rest.map Arrival.event++[.searchResultReceived result])).1.fired=
      (outcome q.callbacks (seen++rest) result).map (fun c => (r,c))++w.fired := by
  induction rest generalizing q seen with
  | nil =>
    obtain ⟨ha',hm',hcb,-⟩ := conclude_answer result hl ha
    have hx : w.listen r q (.searchResultReceived result)=
        (({ w with traffic := .delivered r::w.traffic }).fire r (q.conclude result)
          (verdictOf result),q.conclude result) := by
      rw [listen,Request.conclude]
      rw [hl]
    have he : (q.conclude result).emit (verdictOf result)=outcome q.callbacks seen result := by
      unfold outcome Request.emit
      cases verdictOf result <;> simp [hm',hm,hcb,ha',Request.resultProxy]
    rw [List.map_nil,List.nil_append,listenAll,hx,listenAll,List.append_nil,← he]
    rfl
  | cons a rest ih =>
    obtain ⟨hl',ha',hm',hcb,-⟩ := gathered_concat seen a hl
    rw [List.map_cons,List.cons_append,listenAll,listen_receive]
    have h := ih (seen++[a]) (hm'.trans hm) hl' (ha'.trans ha)
    rw [hcb,List.append_assoc] at h
    exact h

/-- The listener does not look at the request id. -/
theorem listen_id (w : World) (r : RequestId) (q : Request) (id : Option Nat)
    (ev : ListenerEvent) : w.listen r { q with asyncRequestId := id } ev=
      ((w.listen r q ev).1,{ (w.listen r q ev).2 with asyncRequestId := id }) := by
  obtain ⟨m,cb,i,a,listener⟩ := q
  cases listener with
  | none => rfl
  | some l =>
    cases ev with
    | searchEntryReturned e => rfl
    | searchReferenceReturned urls => rfl
    | searchResultReceived res =>
      by_cases hc : res.resultCode=ldapSuccess
      · simp only [listen,Request.searchResultReceived,if_pos hc]
        rfl
      · simp only [listen,Request.searchResultReceived,if_neg hc]
        rfl

theorem listenAll_id (w : World) (r : RequestId) (q : Request) (id : Option Nat)
    (evs : List ListenerEvent) :
    w.listenAll r { q with asyncRequestId := id } evs=
      ((w.listenAll r q evs).1,{ (w.listenAll r q evs).2 with asyncRequestId := id }) := by
  induction evs generalizing w q with
  | nil => rfl
  | cons ev evs ih =>
    rw [listenAll,listen_id]
    exact ih _ _

theorem listenAll_append (w : World) (r : RequestId) (q : Request)
    (evs evs' : List ListenerEvent) : w.listenAll r q (evs++evs')=
      (w.listenAll r q evs).1.listenAll r (w.listenAll r q evs).2 evs' := by
  induction evs generalizing w q with
  | nil => rfl
  | cons ev evs ih => exact ih _ _

/-- What a listener fires does not depend on the rest of the state. -/
theorem listen_congr {w w' : World} (h : w'.fired=w.fired) (r : RequestId) (q : Request)
    (ev : ListenerEvent) : (w'.listen r q ev).1.fired=(w.listen r q ev).1.fired ∧
      (w'.listen r q ev).2=(w.listen r q ev).2 := by
  unfold listen
  cases q.listener with
  | none => exact ⟨h,rfl⟩
  | some l =>
    cases ev with
    | searchEntryReturned e => exact ⟨h,rfl⟩
    | searchReferenceReturned urls => exact ⟨h,rfl⟩
    | searchResultReceived res =>
      refine ⟨?_,rfl⟩
      simp only [fire,h]

theorem listenAll_congr {w w' : World} (h : w'.fired=w.fired) (r : RequestId) (q : Request)
    (evs : List ListenerEvent) :
    (w'.listenAll r q evs).1.fired=(w.listenAll r q evs).1.fired := by
  induction evs generalizing w w' q with
  | nil => exact h
  | cons ev evs ih =>
    obtain ⟨hf,hq⟩ := listen_congr h r q ev
    rw [listenAll,listenAll,hq]
    exact ih hf _

/-- Calls of the listener between other calls add up. -/
theorem run_listener {w : World} {r : RequestId} {q : Request} (hq : w.requests[r]?=some q)
    (evs : List ListenerEvent) : (run step w (evs.map (.listener r))).fired=
      (w.listenAll r q evs).1.fired := by
  induction evs generalizing w q with
  | nil => rfl
  | cons ev evs ih =>
    have hlt : r<w.requests.length := (List.getElem?_eq_some_iff.mp hq).1
    have hr := listen_requests w r q ev
    have hx : step w (.listener r ev)={ (w.listen r q ev).1 with
        requests := (w.listen r q ev).1.requests.set r (w.listen r q ev).2 } := by
      simp only [step,hq]
    have hq' : (step w (.listener r ev)).requests[r]?=some (w.listen r q ev).2 := by
      rw [hx,hr]
      exact List.getElem?_set_self hlt
    have hf : (step w (.listener r ev)).fired=(w.listen r q ev).1.fired := by rw [hx]
    rw [List.map_cons,run_cons,ih hq',listenAll]
    exact listenAll_congr hf r _ evs

/-- An asynchronous search that the SDK accepts. -/
structure Accepts (w : World) (o : SearchOptions) (lib : SearchLib) : Prop where
  async : o.async.getD false=true
  bound : w.connection.isBound=true
  scope : (Search.definedValueOf (o.scope.getD scopeDefault)).isSome=true
  built : lib.malformed=none
  sent : lib.refused=none

theorem execute_accepts {w : World} {o : SearchOptions} {lib : SearchLib} (h : Accepts w o lib)
    (r : RequestId) (q : Request) : ∃k rq,Search.execute w r q o lib=⟨(sent w r q k rq lib).1,
      { (sent w r q k rq lib).2 with asyncRequestId := some (w.nextMessage k+lib.skip) },
      .ok ((sent w r q k rq lib).2.ldapResult.map (·.toLDAPResult))⟩ := by
  obtain ⟨scope,hscope⟩ := Option.isSome_iff_exists.mp h.scope
  obtain ⟨k,hld⟩ : ∃k,w.connection.ld=some k := by
    have hb := h.bound
    rw [ConnectionProxy.isBound] at hb
    exact Option.isSome_iff_exists.mp (Bool.and_eq_true_iff.mp hb).1
  refine ⟨k,Search.request o scope,?_⟩
  simp only [Search.execute,h.bound,if_true,hscope,h.built,hld,h.async,Search.asyncSearch,h.sent]
  rfl

/-- The state after an accepted search call: the early part of the response has been handed to
the listener, and nothing else was fired. -/
theorem step_accepts {w : World} {o : SearchOptions} {lib : SearchLib} (h : Accepts w o lib)
    (cb : Callbacks) : ∃(v : World) (id : Option Nat),v.fired=w.fired ∧
      (step w (.search o cb lib)).fired=(v.listenAll w.requests.length
        { method := .search, callbacks := cb, listener := some {} } lib.early).1.fired ∧
      (step w (.search o cb lib)).requests[w.requests.length]?=some
        { (v.listenAll w.requests.length
          { method := .search, callbacks := cb, listener := some {} } lib.early).2 with
          asyncRequestId := id } := by
  obtain ⟨os,hn⟩ := note_frame w { method := .search, callbacks := cb }
  have h' : Accepts { w with orphans := os } o lib := ⟨h.async,h.bound,h.scope,h.built,h.sent⟩
  obtain ⟨k,rq,hx⟩ := execute_accepts h' w.requests.length { method := .search, callbacks := cb }
  have hs : step w (.search o cb lib)=settle w.requests.length true
      (Search.execute { w with orphans := os } w.requests.length
        { method := .search, callbacks := cb } o lib) := by
    rw [step,sendRequest,hn,h.async]
  let v : World := { w with
    orphans := os
    searches := rq::w.searches
    nextMessage := Function.update w.nextMessage k (w.nextMessage k+lib.skip+1)
    traffic := .sent w.requests.length k (w.nextMessage k+lib.skip)::w.traffic }
  let x := v.listenAll w.requests.length
    { method := .search, callbacks := cb, listener := some {} } lib.early
  have hv : x.1.requests=w.requests := listenAll_requests v w.requests.length _ lib.early
  have hr : (step w (.search o cb lib)).requests=
      w.requests++[{ x.2 with asyncRequestId := some (w.nextMessage k+lib.skip) }] := by
    rw [hs,hx,settle_requests]
    exact congrArg (·++[_]) hv
  refine ⟨v,some (w.nextMessage k+lib.skip),rfl,?_,?_⟩
  · rw [hs,hx,settle_fired]
    simp [posts,verdict,Except.map,dispatch,Request.emit,Callbacks.emit]
    rfl
  · rw [hr]
    exact List.getElem?_concat_length

/-- A search of the connection whose whole response comes in, part of it before the search call
returns, fires what every interleaving of the two threads fires. -/
theorem search_outcome {w : World} {o : SearchOptions} {lib : SearchLib} (h : Accepts w o lib)
    (cb : Callbacks) (arrivals : List Arrival) (result : LDAPResult) (late : List ListenerEvent)
    (he : lib.early++late=arrivals.map Arrival.event++[.searchResultReceived result]) :
    (run step (step w (.search o cb lib)) (late.map (.listener w.requests.length))).fired=
      (outcome cb arrivals result).map (fun c => (w.requests.length,c))++w.fired := by
  obtain ⟨v,id,hv,hf,hq⟩ := step_accepts h cb
  have happ := listenAll_append v w.requests.length
    { method := .search, callbacks := cb, listener := some {} } lib.early late
  have hout := listenAll_outcome v w.requests.length
    (q := { method := .search, callbacks := cb, listener := some {} }) [] arrivals result
    rfl rfl rfl
  rw [he] at happ
  rw [happ,hv] at hout
  rw [run_listener hq,listenAll_congr hf,listenAll_id]
  exact hout

end TiLdap.Android.World
