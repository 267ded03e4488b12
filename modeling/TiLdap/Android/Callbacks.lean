import TiLdap.Android.Steps
import TiLdap.Framework.Ledger

namespace TiLdap.Android.World

open Framework

/-- The callbacks that the end of `sendRequest` fires. -/
def posts (async : Bool) (x : Executed) : List (Callback SearchResultProxy) :=
  match verdict async x with
  | .error _ => []
  | .ok v => x.request.emit v

theorem posts_length (async : Bool) (x : Executed) : (posts async x).length≤1 := by
  rw [posts]
  cases verdict async x with
  | error f => simp
  | ok v => exact Callbacks.emit_length _ _ _ v

theorem settle_fired (r : RequestId) (async : Bool) (x : Executed) :
    (settle r async x).fired=(posts async x).map (fun c => (r,c))++x.world.fired := by
  simp only [settle,posts]
  cases verdict async x with
  | error f => rfl
  | ok v =>
    simp only [handle]
    split_ifs <;> rfl

theorem settle_requests (r : RequestId) (async : Bool) (x : Executed) :
    (settle r async x).requests=x.world.requests++[x.request] := by
  obtain ⟨c,rs,f,fs,hw⟩ := settle_frame r async x
  rw [hw]

/-- The application passed the callback that the outcome of a search calls for. -/
def Answers (cb : Callbacks) (res : LDAPResult) : Prop :=
  if res.resultCode=ldapSuccess then cb.success=true else cb.error=true

/-- The callbacks that a call of the listener posts. -/
def reports (q : Request) (ev : ListenerEvent) : List (Callback SearchResultProxy) :=
  match q.listener,ev with
  | some l,.searchResultReceived res => (q.searchResultReceived l res).emit (verdictOf res)
  | _,_ => []

theorem reports_length (q : Request) (ev : ListenerEvent) : (reports q ev).length≤1 := by
  unfold reports
  split
  · exact Callbacks.emit_length _ _ _ _
  · exact Nat.zero_le 1

theorem reports_ne_nil_iff (q : Request) (ev : ListenerEvent) : reports q ev≠[] ↔
    q.listener.isSome=true ∧ ∃res,ev=.searchResultReceived res ∧ Answers q.callbacks res := by
  unfold reports
  cases hl : q.listener with
  | none => simp
  | some l =>
    cases ev with
    | searchEntryReturned e => simp
    | searchReferenceReturned urls => simp
    | searchResultReceived res =>
      by_cases hc : res.resultCode=ldapSuccess
      · simp [Request.searchResultReceived,hc,Request.emit,Callbacks.emit,verdictOf,Answers]
      · simp [Request.searchResultReceived,hc,Request.emit,Callbacks.emit,verdictOf,Answers]

theorem listen_fired (w : World) (r : RequestId) (q : Request) (ev : ListenerEvent) :
    (w.listen r q ev).1.fired=(reports q ev).map (fun c => (r,c))++w.fired := by
  unfold listen reports
  cases q.listener with
  | none => rfl
  | some l => cases ev <;> rfl

/-- The final result is the last that a listener takes. -/
theorem listen_last (w : World) (r : RequestId) (q : Request) (res : LDAPResult) :
    (w.listen r q (.searchResultReceived res)).2.listener=none := by
  rw [listen]
  cases hl : q.listener with
  | none => exact hl
  | some l =>
    simp only [Request.searchResultReceived]
    split_ifs <;> rfl

/-- Any other event leaves the listener in place and posts nothing. -/
theorem listen_goes_on (w : World) (r : RequestId) (q : Request) {ev : ListenerEvent}
    (h : ∀res,ev≠.searchResultReceived res) :
    (w.listen r q ev).2.listener.isSome=q.listener.isSome ∧ reports q ev=[] := by
  unfold listen reports
  cases hl : q.listener with
  | none => simp [hl]
  | some l =>
    cases ev with
    | searchEntryReturned e => exact ⟨rfl,rfl⟩
    | searchReferenceReturned urls => exact ⟨rfl,rfl⟩
    | searchResultReceived res => exact absurd rfl (h res)

theorem listenAll_idle (w : World) (r : RequestId) {q : Request} (h : q.listener=none)
    (evs : List ListenerEvent) : w.listenAll r q evs=(w,q) := by
  induction evs with
  | nil => rfl
  | cons ev evs ih =>
    have hl : w.listen r q ev=(w,q) := by
      rw [listen]
      rw [h]
    rw [listenAll,hl]
    exact ih

/-- The final result among the events, if there is one. -/
def finalResult : List ListenerEvent → Option LDAPResult
  | [] => none
  | .searchEntryReturned _::evs => finalResult evs
  | .searchReferenceReturned _::evs => finalResult evs
  | .searchResultReceived res::_ => some res

/-- A listener fires at most one callback, for the final result, and is gone with that. -/
theorem listenAll_fired (w : World) (r : RequestId) {q : Request}
    (hq : q.listener.isSome=true) (evs : List ListenerEvent) :
    ∃pre,(w.listenAll r q evs).1.fired=pre.map (fun c => (r,c))++w.fired ∧ pre.length≤1 ∧
      (pre≠[] → (w.listenAll r q evs).2.listener=none) ∧
      (pre≠[] ↔ ∃res,finalResult evs=some res ∧ Answers q.callbacks res) := by
  induction evs generalizing w q with
  | nil => exact ⟨[],by simp [listenAll],by simp,by simp,by simp [finalResult]⟩
  | cons ev evs ih =>
    have hf := listen_fired w r q ev
    rw [listenAll]
    by_cases hr : ∃res,ev=.searchResultReceived res
    · obtain ⟨res,rfl⟩ := hr
      have hl := listen_last w r q res
      -- The listener is gone, and the other events do nothing.
      rw [listenAll_idle _ r hl]
      refine ⟨reports q (.searchResultReceived res),hf,reports_length _ _,fun _ => hl,?_⟩
      rw [reports_ne_nil_iff]
      simp [hq,finalResult]
    · have hr : ∀res,ev≠.searchResultReceived res := fun res he => hr ⟨res,he⟩
      obtain ⟨hs,hn⟩ := listen_goes_on w r q hr
      obtain ⟨pre,hf',hlen,hlast,hiff⟩ := ih (w.listen r q ev).1 (q := (w.listen r q ev).2)
        (hs.trans hq)
      refine ⟨pre,?_,hlen,hlast,?_⟩
      · rw [hf',hf,hn]
        rfl
      · rw [hiff,(listen_keeps w r q ev).2.1]
        cases ev with
        | searchEntryReturned e => rfl
        | searchReferenceReturned urls => rfl
        | searchResultReceived res => exact absurd rfl (hr res)

theorem listen_requests (w : World) (r : RequestId) (q : Request) (ev : ListenerEvent) :
    (w.listen r q ev).1.requests=w.requests := by
  obtain ⟨rs,t,f,hw⟩ := listen_frame w r q ev
  rw [hw]

theorem listenAll_requests (w : World) (r : RequestId) (q : Request)
    (evs : List ListenerEvent) : (w.listenAll r q evs).1.requests=w.requests := by
  obtain ⟨rs,t,f,hw⟩ := listenAll_frame w r q evs
  rw [hw]

/-- The SDK has sent the search of request `r`. -/
def Sent (w : World) (r : RequestId) : Prop := ∃h id,Traffic.sent r h id∈w.traffic

theorem sent_append {w w' : World} (new : List Traffic) (ht : w'.traffic=new++w.traffic)
    (hn : ∀r h id,Traffic.sent r h id∉new) (r : RequestId) : w'.Sent r ↔ w.Sent r := by
  simp [Sent,ht,hn]

/-- Callbacks are fired for request objects that exist, and so are searches sent. A request whose
listener may still be called has fired none, or the one for a search that could not be sent. -/
structure CallbackInv (w : World) : Prop where
  enrolled : ∀f∈w.fired,f.1<w.requests.length
  known : ∀r,w.Sent r → r<w.requests.length
  pending : ∀r q,w.requests[r]?=some q → q.listener.isSome=true →
    ((∃f∈w.fired,f.1=r) ↔ ¬w.Sent r ∧ q.callbacks.error=true)

theorem CallbackInv.of_frame {w w' : World} (hi : CallbackInv w) (hr : w'.requests=w.requests)
    (hf : w'.fired=w.fired) (hs : ∀r,w'.Sent r ↔ w.Sent r) : CallbackInv w' := by
  refine ⟨?_,?_,?_⟩
  · rw [hf,hr]
    exact hi.enrolled
  · intro r hm
    rw [hr]
    exact hi.known r ((hs r).mp hm)
  · intro r q hq hl
    rw [hr] at hq
    rw [hf,hs]
    exact hi.pending r q hq hl

theorem init_callbackInv (useTLS : Option Bool) (certFile : Arg FileArg) :
    CallbackInv (init useTLS certFile) := by
  refine ⟨?_,?_,?_⟩ <;> simp [init,Sent]

/-- A request under a new number. `accepted` says whether it was a search that was sent. -/
theorem CallbackInv.send {w w' : World} {q : Request} {new : List (Callback SearchResultProxy)}
    {accepted : Prop} (hi : CallbackInv w) (hr : w'.requests=w.requests++[q])
    (hf : w'.fired=new.map (fun c => (w.requests.length,c))++w.fired)
    (hs : ∀r,w'.Sent r ↔ w.Sent r ∨ (r=w.requests.length ∧ accepted))
    (hp : q.listener.isSome=true → (new≠[] ↔ ¬accepted ∧ q.callbacks.error=true)) :
    CallbackInv w' := by
  refine ⟨?_,?_,?_⟩
  · intro f hm
    rw [hf] at hm
    rw [hr,List.length_append,List.length_singleton]
    rcases List.mem_append.mp hm with hm|hm
    · obtain ⟨c,-,rfl⟩ := List.mem_map.mp hm
      exact Nat.lt_succ_self _
    · exact Nat.lt_succ_of_lt (hi.enrolled f hm)
  · intro r hm
    rw [hr,List.length_append,List.length_singleton]
    rcases (hs r).mp hm with hm|⟨rfl,-⟩
    · exact Nat.lt_succ_of_lt (hi.known r hm)
    · exact Nat.lt_succ_self _
  · intro r p hq hl
    rw [hr] at hq
    rw [hf,exists_keyed_append,hs]
    by_cases hlt : r<w.requests.length
    · rw [List.getElem?_append_left hlt] at hq
      have hne : r≠w.requests.length := Nat.ne_of_lt hlt
      simpa [hne] using hi.pending r p hq hl
    · have hge : w.requests.length≤ r := Nat.le_of_not_lt hlt
      rw [List.getElem?_append_right hge,List.getElem?_singleton] at hq
      split_ifs at hq with hz
      cases hq
      have he : r=w.requests.length := Nat.le_antisymm (Nat.sub_eq_zero_iff_le.mp hz) hge
      subst he
      have hold : ¬∃f∈w.fired,f.1=w.requests.length := by
        rintro ⟨f,hm,he⟩
        exact Nat.ne_of_lt (hi.enrolled f hm) he
      have hnew : ¬w.Sent w.requests.length := fun hm => Nat.lt_irrefl _ (hi.known _ hm)
      simpa [hold,hnew] using hp hl

theorem CallbackInv.set {w w' : World} {r : RequestId} {q q' : Request}
    (new : List (Callback SearchResultProxy)) (hi : CallbackInv w) (hq : w.requests[r]?=some q)
    (hr : w'.requests=w.requests.set r q') (hf : w'.fired=new.map (fun c => (r,c))++w.fired)
    (hs : ∀r,w'.Sent r ↔ w.Sent r) (hcb : q'.callbacks=q.callbacks)
    (hl : q'.listener.isSome=true → q.listener.isSome=true ∧ new=[]) : CallbackInv w' := by
  have hlt : r<w.requests.length := (List.getElem?_eq_some_iff.mp hq).1
  refine ⟨?_,?_,?_⟩
  · intro f hm
    rw [hf] at hm
    rw [hr,List.length_set]
    rcases List.mem_append.mp hm with hm|hm
    · obtain ⟨c,-,rfl⟩ := List.mem_map.mp hm
      exact hlt
    · exact hi.enrolled f hm
  · intro k hm
    rw [hr,List.length_set]
    exact hi.known k ((hs k).mp hm)
  · intro k p hp hk
    rw [hr] at hp
    rw [hf,exists_keyed_append,hs]
    by_cases he : r=k
    · subst he
      rw [List.getElem?_set_self hlt] at hp
      cases hp
      obtain ⟨hk',hn⟩ := hl hk
      simpa [hn,hcb] using hi.pending r q hq hk'
    · rw [List.getElem?_set_ne he] at hp
      simpa [Ne.symm he] using hi.pending k p hp hk

/-- The callbacks of one step belong to one request, and they are none or the first one of it
exactly when `guard` holds. -/
structure Speaks (w w' : World) (guard : Prop) : Prop where
  inv : CallbackInv w'
  fires : ∃r new,w'.fired=new.map (fun c => (r,c))++w.fired ∧
    (new=[] ∨ (new.length≤1 ∧ ∀f∈w.fired,f.1≠r) ↔ guard)

theorem Speaks.quiet {w w' : World} (hi : CallbackInv w) (hr : w'.requests=w.requests)
    (hf : w'.fired=w.fired) (hs : ∀r,w'.Sent r ↔ w.Sent r) : Speaks w w' True := by
  refine ⟨hi.of_frame hr hf hs,0,[],?_,?_⟩
  · simpa using hf
  · simp

/-- A new request has fired nothing before. -/
theorem Speaks.send {w : World} (hi : CallbackInv w) {async : Bool} {x : Executed}
    (pre : List (Callback SearchResultProxy)) (accepted : Prop) {guard : Prop}
    (hr : x.world.requests=w.requests)
    (hf : x.world.fired=pre.map (fun c => (w.requests.length,c))++w.fired)
    (hs : ∀r,x.world.Sent r ↔ w.Sent r ∨ (r=w.requests.length ∧ accepted))
    (hp : x.request.listener.isSome=true →
      (posts async x++pre≠[] ↔ ¬accepted ∧ x.request.callbacks.error=true))
    (hg : (posts async x++pre).length≤1 ↔ guard) :
    Speaks w (settle w.requests.length async x) guard := by
  have hf' : (settle w.requests.length async x).fired=
      (posts async x++pre).map (fun c => (w.requests.length,c))++w.fired := by
    rw [settle_fired,hf,List.map_append,List.append_assoc]
  have hs' : ∀r,(settle w.requests.length async x).Sent r ↔
      w.Sent r ∨ (r=w.requests.length ∧ accepted) := by
    intro r
    rw [← hs r]
    exact sent_append [] (settle_wire _ _ _).1 (by simp) r
  refine ⟨hi.send ?_ hf' hs' hp,_,_,hf',?_⟩
  · rw [settle_requests,hr]
  · rw [← hg]
    constructor
    · rintro (hn|⟨hl,-⟩)
      · rw [hn]
        exact Nat.zero_le 1
      · exact hl
    · intro hl
      refine .inr ⟨hl,?_⟩
      intro f hm
      exact Nat.ne_of_lt (hi.enrolled f hm)

/-- A request that leaves no listener behind. -/
theorem Speaks.plain {w : World} (hi : CallbackInv w) {async : Bool} {x : Executed}
    (hr : x.world.requests=w.requests) (hf : x.world.fired=w.fired)
    (ht : x.world.traffic=w.traffic) (hl : x.request.listener=none) :
    Speaks w (settle w.requests.length async x) True := by
  apply Speaks.send hi [] False hr
  · simpa using hf
  · simp [Sent,ht]
  · simp [hl]
  · simpa using posts_length async x

theorem plain_speaks {w : World} (hi : CallbackInv w) {op : Op}
    (h : (∃o cb lib,op=.connect o cb lib) ∨ (∃o cb refused,op=.simpleBind o cb refused) ∨
      ∃o cb lib,op=.saslBind o cb lib) : Speaks w (step w op) True := by
  obtain ⟨async,x,hx,hl,-,c,n,l,k,os,hw⟩ := plain_cases w h
  rw [hx]
  apply Speaks.plain hi
  · rw [hw]
  · rw [hw]
  · rw [hw]
  · exact hl

theorem emit_failed (q : Request) (e : LDAPException) :
    (q.emit (verdictOf e.toLDAPResult)≠[] ↔ q.callbacks.error=true) := by
  have he : e.toLDAPResult.resultCode≠ldapSuccess := e.resultCode.2
  simp [verdictOf,he,Request.emit,Callbacks.emit]

theorem sent_fired (w : World) (r : RequestId) (q : Request) (h : Handle) (rq : SearchRequest)
    (lib : SearchLib) :
    ∃pre,(sent w r q h rq lib).1.fired=pre.map (fun c => (r,c))++w.fired ∧ pre.length≤1 ∧
      (pre≠[] → (sent w r q h rq lib).2.listener=none) := by
  obtain ⟨pre,hf,hlen,hlast,-⟩ := listenAll_fired
    { w with
      searches := rq::w.searches
      nextMessage := Function.update w.nextMessage h (w.nextMessage h+lib.skip+1)
      traffic := .sent r h (w.nextMessage h+lib.skip)::w.traffic }
    r (q := { q with ldapResult := none, listener := some {} }) rfl lib.early
  exact ⟨pre,hf,hlen,hlast⟩

theorem sent_requests (w : World) (r : RequestId) (q : Request) (h : Handle)
    (rq : SearchRequest) (lib : SearchLib) : (sent w r q h rq lib).1.requests=w.requests :=
  listenAll_requests _ _ _ _

theorem sent_sent (w : World) (r : RequestId) (q : Request) (h : Handle) (rq : SearchRequest)
    (lib : SearchLib) (k : RequestId) : (sent w r q h rq lib).1.Sent k ↔ w.Sent k ∨ k=r := by
  obtain ⟨⟨j,ht⟩,-⟩ := listenAll_traffic
    { w with
      searches := rq::w.searches
      nextMessage := Function.update w.nextMessage h (w.nextMessage h+lib.skip+1)
      traffic := .sent r h (w.nextMessage h+lib.skip)::w.traffic }
    r { q with ldapResult := none, listener := some {} } lib.early
  rw [sent,sent_append _ ht (by simp)]
  simp only [Sent,List.mem_cons]
  constructor
  · rintro ⟨g,id,he|hm⟩
    · cases he
      exact .inr rfl
    · exact .inl ⟨g,id,hm⟩
  · rintro (⟨g,id,hm⟩|rfl)
    · exact ⟨g,id,.inr hm⟩
    · exact ⟨h,_,.inl rfl⟩

theorem unsent_fired (w : World) (r : RequestId) (q : Request) (rq : SearchRequest)
    (lib : SearchLib) :
    ∃pre,(unsent w r q rq lib).1.fired=pre.map (fun c => (r,c))++w.fired ∧ pre.length≤1 ∧
      (pre≠[] → (unsent w r q rq lib).2.listener=none) ∧
      (pre≠[] ↔ ∃res,finalResult lib.early=some res ∧ Answers q.callbacks res) :=
  listenAll_fired { w with searches := rq::w.searches } r
    (q := { q with ldapResult := none, listener := some {} }) rfl lib.early

theorem unsent_sent (w : World) (r : RequestId) (q : Request) (rq : SearchRequest)
    (lib : SearchLib) (k : RequestId) : (unsent w r q rq lib).1.Sent k ↔ w.Sent k := by
  obtain ⟨⟨j,ht⟩,-⟩ := listenAll_traffic { w with searches := rq::w.searches } r
    { q with ldapResult := none, listener := some {} } lib.early
  exact sent_append _ ht (by simp) k

/-- No callback is fired on top of that of a search that finds the connection not bound or that
the SDK does not get sent. -/
def callbackGuard (w : World) : Op → Prop
  | .search o cb lib => cb.error=true → w.connection.isBound=true ∧
      (Refuses o lib → ∀res,finalResult lib.early=some res → ¬Answers cb res)
  | .listener r (.searchResultReceived res) => ∀q,w.requests[r]?=some q →
      q.listener.isSome=true → ¬w.Sent r → q.callbacks.error=true → ¬Answers q.callbacks res
  | _ => True

theorem unsent_speaks {w : World} (hi : CallbackInv w) (cb : Callbacks) (rq : SearchRequest)
    (lib : SearchLib) (e : LDAPException) :
    let x := unsent w w.requests.length { method := .search, callbacks := cb } rq lib
    Speaks w (settle w.requests.length true ⟨x.1,x.2,.ok (some e.toLDAPResult)⟩)
      (cb.error=true → ∀res,finalResult lib.early=some res → ¬Answers cb res) := by
  intro x
  obtain ⟨pre,hf,hlen,hlast,hiff⟩ := unsent_fired w w.requests.length
    { method := .search, callbacks := cb } rq lib
  obtain ⟨-,hcb,hid⟩ : x.2.method=.search ∧ x.2.callbacks=cb ∧ x.2.asyncRequestId=none :=
    listenAll_keeps _ _ _ _
  have hpost : posts true ⟨x.1,x.2,.ok (some e.toLDAPResult)⟩=
      x.2.emit (verdictOf e.toLDAPResult) := by
    simp [posts,verdict,Except.map,dispatch,hid]
  have herr := emit_failed x.2 e
  rw [hcb] at herr
  have hone : (x.2.emit (verdictOf e.toLDAPResult)).length≤1 := Callbacks.emit_length _ _ _ _
  apply Speaks.send hi pre False
  · exact listenAll_requests _ _ _ _
  · exact hf
  · simpa using unsent_sent w w.requests.length _ rq lib
  · intro hl
    have hp : pre=[] := by
      by_contra hp
      simp [x,hlast hp] at hl
    have hcb : x.2.callbacks=cb := hcb
    simpa [hpost,hp,hcb] using herr
  · have hno : (∀res,finalResult lib.early=some res → ¬Answers cb res) ↔ pre=[] := by
      rw [← not_iff_not]
      simpa using hiff.symm
    rw [hpost,hno,List.length_append]
    cases he : cb.error with
    | false =>
      have hn : x.2.emit (verdictOf e.toLDAPResult)=[] := by simpa [he] using herr
      simpa [hn] using hlen
    | true =>
      have hn : (x.2.emit (verdictOf e.toLDAPResult)).length≠0 := by
        simpa [he] using herr
      rw [← List.length_eq_zero_iff]
      simp only [true_imp_iff]
      omega

theorem execute_speaks {w : World} (hi : CallbackInv w) (o : SearchOptions) (cb : Callbacks)
    (lib : SearchLib) :
    Speaks w (settle w.requests.length (o.async.getD false)
        (Search.execute w w.requests.length { method := .search, callbacks := cb } o lib))
      (w.callbackGuard (.search o cb lib)) := by
  have kept : ∀{w' : World},w'.traffic=w.traffic →
      ∀r,w'.Sent r ↔ w.Sent r ∨ (r=w.requests.length ∧ False) := by
    intro w' ht r
    simp [Sent,ht]
  rcases search_cases w w.requests.length { method := .search, callbacks := cb } o lib with
    ⟨hb,hx⟩|⟨hb,hr,hx⟩|⟨hb,hr,h,s,n,a,res,-,hx,-,-⟩|⟨hb,hr,ha,h,rq,-,hx⟩|⟨hb,hr,rq,e,hx⟩
  · rw [hx]
    -- The guard inside `execute` fires, and `sendRequest` fires again on its result.
    apply Speaks.send hi (Request.emit { method := .search, callbacks := cb }
      (.failed (-2) (.text "Connection is not bound"))) False rfl rfl (kept rfl)
    · simp
    · cases he : cb.error <;>
        simp [posts,verdict,Except.map,dispatch,verdictOf,Request.emit,Callbacks.emit,he,hb,
          ldapUnavailable,ldapSuccess,callbackGuard]
  · rw [hx]
    simpa [hb,hr,callbackGuard] using Speaks.plain hi rfl rfl rfl rfl
  · rw [hx]
    simpa [hb,hr,callbackGuard] using Speaks.plain hi rfl rfl rfl rfl
  · rw [hx,ha]
    obtain ⟨pre,hf,hlen,hlast⟩ := sent_fired w w.requests.length
      { method := .search, callbacks := cb } h rq lib
    have quiet : ∀(w : World) (q : Request) (id : Nat) (res : Option LDAPResult),
        posts true ⟨w,{ q with asyncRequestId := some id },.ok res⟩=[] := by
      intro w q id res
      simp [posts,verdict,Except.map,dispatch,Request.emit,Callbacks.emit]
    apply Speaks.send hi pre True
    · exact sent_requests w w.requests.length _ h rq lib
    · exact hf
    · simpa using sent_sent w w.requests.length _ h rq lib
    · intro hl
      rw [quiet,List.nil_append]
      refine iff_of_false ?_ (by simp)
      intro hp
      have hl' := hlast hp
      simp [hl'] at hl
    · simpa [quiet,hb,hr,callbackGuard] using hlen
  · rw [hx,hr.async]
    simpa [hb,hr,callbackGuard] using unsent_speaks hi cb rq lib e

theorem search_speaks {w : World} (hi : CallbackInv w) (o : SearchOptions) (cb : Callbacks)
    (lib : SearchLib) :
    Speaks w (step w (.search o cb lib)) (w.callbackGuard (.search o cb lib)) := by
  obtain ⟨os,hn⟩ := note_frame w { method := .search, callbacks := cb }
  have hi' : CallbackInv { w with orphans := os } := ⟨hi.enrolled,hi.known,hi.pending⟩
  obtain ⟨hinv,hf⟩ := execute_speaks hi' o cb lib
  rw [step,sendRequest,hn]
  exact ⟨hinv,hf⟩

theorem callbackGuard_listener {w : World} {r : RequestId} {q : Request}
    (hq : w.requests[r]?=some q) (ev : ListenerEvent) :
    w.callbackGuard (.listener r ev) ↔
      (reports q ev≠[] → ¬(¬w.Sent r ∧ q.callbacks.error=true)) := by
  rw [reports_ne_nil_iff]
  cases ev with
  | searchEntryReturned e => simp [callbackGuard]
  | searchReferenceReturned urls => simp [callbackGuard]
  | searchResultReceived res =>
    simp only [callbackGuard,hq,Option.some.injEq,ListenerEvent.searchResultReceived.injEq]
    constructor
    · rintro h ⟨hl,_,rfl,ha⟩ ⟨hs,he⟩
      exact h q rfl hl hs he ha
    · rintro h _ rfl hl hs he ha
      exact h ⟨hl,res,rfl,ha⟩ ⟨hs,he⟩

theorem listener_speaks {w : World} (hi : CallbackInv w) (r : RequestId) (ev : ListenerEvent) :
    Speaks w (step w (.listener r ev)) (w.callbackGuard (.listener r ev)) := by
  cases hq : w.requests[r]? with
  | none =>
    have hg : w.callbackGuard (.listener r ev) := by
      cases ev <;> simp [callbackGuard,hq]
    have hx : step w (.listener r ev)=w := by rw [step,hq]
    rw [hx]
    simpa [hg] using Speaks.quiet hi rfl rfl fun _ => Iff.rfl
  | some q =>
    have hx : step w (.listener r ev)={ (w.listen r q ev).1 with
        requests := (w.listen r q ev).1.requests.set r (w.listen r q ev).2 } := by
      rw [step,hq]
    obtain ⟨-,hcb,-⟩ := listen_keeps w r q ev
    obtain ⟨⟨k,ht⟩,-⟩ := listen_traffic w r q ev
    have hf := listen_fired w r q ev
    have hrep := reports_ne_nil_iff q ev
    rw [hx]
    refine ⟨?_,r,reports q ev,hf,?_⟩
    · refine hi.set (reports q ev) hq ?_ hf (sent_append _ ht (by simp)) hcb ?_
      · rw [listen_requests]
      · intro hs
        by_cases he : ∃res,ev=.searchResultReceived res
        · obtain ⟨res,rfl⟩ := he
          simp [listen_last w r q res] at hs
        · obtain ⟨hl,hn⟩ := listen_goes_on w r q fun res h => he ⟨res,h⟩
          exact ⟨hl.symm.trans hs,hn⟩
    · rw [callbackGuard_listener hq]
      by_cases hn : reports q ev=[]
      · simp [hn]
      · obtain ⟨hl,-⟩ := hrep.mp hn
        rw [← hi.pending r q hq hl]
        simp only [hn,reports_length,false_or,true_and,ne_eq,not_false_eq_true,true_imp_iff,
          not_exists,not_and]

theorem abandon_speaks {w : World} (hi : CallbackInv w) (r : RequestId) (refused : Bool) :
    Speaks w (w.abandon r refused) True := by
  rcases abandon_cases w r refused with ⟨-,fs,hw⟩|⟨q,id,h,hq,-,-,hw⟩
  · rw [hw]
    exact Speaks.quiet hi rfl rfl fun _ => Iff.rfl
  · rw [hw]
    have hs : ∀k,(World.Sent { w with traffic := .abandoned r h id (!refused)::w.traffic } k ↔
        w.Sent k) := sent_append [.abandoned r h id (!refused)] rfl (by simp)
    cases refused with
    | true => exact Speaks.quiet hi rfl rfl hs
    | false =>
      refine ⟨hi.set [] hq rfl rfl hs rfl ?_,r,[],rfl,by simp⟩
      intro hl
      exact ⟨hl,rfl⟩

theorem step_speaks {w : World} (hi : CallbackInv w) (op : Op) :
    Speaks w (step w op) (w.callbackGuard op) := by
  cases op with
  | setUseTLS b => exact Speaks.quiet hi rfl rfl fun _ => Iff.rfl
  | setCertFile f => exact Speaks.quiet hi rfl rfl fun _ => Iff.rfl
  | connect o cb lib => exact plain_speaks hi (.inl ⟨o,cb,lib,rfl⟩)
  | simpleBind o cb refused => exact plain_speaks hi (.inr (.inl ⟨o,cb,refused,rfl⟩))
  | saslBind o cb lib => exact plain_speaks hi (.inr (.inr ⟨o,cb,lib,rfl⟩))
  | search o cb lib => exact search_speaks hi o cb lib
  | disconnect =>
    obtain ⟨c,l,hw⟩ := disconnect_frame w
    rw [step,hw]
    exact Speaks.quiet hi rfl rfl fun _ => Iff.rfl
  | release =>
    obtain ⟨c,l,hw⟩ := disconnect_frame w
    rw [step,hw]
    exact Speaks.quiet hi rfl rfl fun _ => Iff.rfl
  | abandon r refused => exact abandon_speaks hi r refused
  | listener r ev => exact listener_speaks hi r ev
  | resultCall i c =>
    obtain ⟨rs,es,fs,hw⟩ := resultCall_frame w i c
    rw [step,hw]
    exact Speaks.quiet hi rfl rfl fun _ => Iff.rfl
  | entryCall i c =>
    obtain ⟨es,hw⟩ := entryCall_frame w i c
    rw [step,hw]
    exact Speaks.quiet hi rfl rfl fun _ => Iff.rfl

/-- No request has fired twice. -/
def Single (w : World) : Prop := ∀r,(w.fired.map Prod.fst).count r≤1

theorem step_single {w : World} (hi : CallbackInv w) (hs : w.Single) (op : Op) :
    (step w op).Single ↔ w.callbackGuard op := by
  obtain ⟨-,r,new,hf,hg⟩ := step_speaks hi op
  have hs : (w.fired.map Prod.fst).Nodup := List.nodup_iff_count_le_one.mpr hs
  rw [Single,← List.nodup_iff_count_le_one,hf,nodup_keys_append hs,hg]

end TiLdap.Android.World
