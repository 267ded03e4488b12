import TiLdap.Android.World

namespace TiLdap.Android.World

theorem note_frame (w : World) (q : Request) : ∃os,w.note q={ w with orphans := os } := by
  rw [note]
  split_ifs
  · exact ⟨_,rfl⟩
  · exact ⟨w.orphans,rfl⟩

@[simp] theorem note_connection (w : World) (q : Request) :
    (w.note q).connection=w.connection := by
  obtain ⟨os,hn⟩ := note_frame w q
  rw [hn]

theorem startTLS_error {c : ConnectionProxy} {created : Bool} {f : Fault}
    (h : c.startTLS created=.error f) : f=.usage := by
  rw [ConnectionProxy.startTLS] at h
  cases hu : c.useTLS with
  | false => simp [hu] at h
  | true =>
    cases hc : c.certFile with
    | absent => simp [hu,hc] at h
    | null => simpa [hu,hc,eq_comm] using h
    | val a => cases hp : getFilePath a <;> simp [hu,hc,hp] at h; exact h.symm

theorem connect_frame (w : World) (q : Request) (o : ConnectOptions) (lib : ConnectLib) :
    (∃c n l k,(Connect.execute w q o lib).world=
      { w with connection := c, nextHandle := n, ledger := l, contacts := k }) ∧
    (Connect.execute w q o lib).request=q ∧
    ∀f,(Connect.execute w q o lib).result=.error f → f=.usage := by
  rw [Connect.execute]
  cases lib.parse (o.uri.getD defaultUri) with
  | none => exact ⟨⟨_,_,_,_,rfl⟩,rfl,by simp⟩
  | some url =>
    cases ht : w.connection.startTLS lib.created with
    | error f =>
      refine ⟨⟨_,_,_,_,rfl⟩,rfl,?_⟩
      intro f' hf
      cases hf
      exact startTLS_error ht
    | ok factory =>
      cases hh : url.host <;> cases lib.refused <;> simp only [hh] <;>
        exact ⟨⟨_,_,_,_,rfl⟩,trivial,by simp⟩

theorem bindOn_frame (w : World) (q : Request) (password : Arg String)
    (refused : Option LDAPException) :
    (∃l,(w.bindOn q password refused).world={ w with ledger := l }) ∧
    (w.bindOn q password refused).request=q ∧
    (∀f,(w.bindOn q password refused).result=.error f ↔
      w.connection.ld=none ∧ f=.nullHandle) := by
  unfold bindOn
  cases w.connection.ld with
  | none => exact ⟨⟨_,rfl⟩,rfl,by simp [eq_comm]⟩
  | some h => exact ⟨⟨_,rfl⟩,rfl,by simp⟩

theorem saslBind_frame (w : World) (q : Request) (o : SaslBindOptions) (lib : SaslLib) :
    (∃l,(SaslBind.execute w q o lib).world={ w with ledger := l }) ∧
    (SaslBind.execute w q o lib).request=q ∧
    (∀f,(SaslBind.execute w q o lib).result=.error f ↔
      (w.connection.ld=none ∧ lib.malformed=none) ∧ f=.nullHandle) := by
  rw [SaslBind.execute]
  cases lib.malformed with
  | none => simpa using bindOn_frame w q o.password lib.refused
  | some e => exact ⟨⟨_,rfl⟩,rfl,by simp⟩

/-- Connects and binds: requests that touch only the session and what is known of it. -/
theorem plain_cases (w : World) {op : Op}
    (h : (∃o cb lib,op=.connect o cb lib) ∨ (∃o cb refused,op=.simpleBind o cb refused) ∨
      ∃o cb lib,op=.saslBind o cb lib) :
    ∃async x,step w op=settle w.requests.length async x ∧ x.request.listener=none ∧
      x.request.method≠.search ∧ ∃c n l k os,x.world={ w with
        connection := c, nextHandle := n, ledger := l, contacts := k, orphans := os } := by
  rcases h with ⟨o,cb,lib,rfl⟩|⟨o,cb,refused,rfl⟩|⟨o,cb,lib,rfl⟩
  · obtain ⟨os,hn⟩ := note_frame w { method := .connect, callbacks := cb }
    obtain ⟨⟨c,n,l,k,hw⟩,hq,-⟩ := connect_frame { w with orphans := os }
      { method := .connect, callbacks := cb } o lib
    refine ⟨_,_,by rw [step,sendRequest,hn],?_,?_,c,n,l,k,os,hw⟩
    · rw [hq]
    · simp [hq]
  · obtain ⟨os,hn⟩ := note_frame w { method := .simpleBind, callbacks := cb }
    obtain ⟨⟨l,hw⟩,hq,-⟩ := bindOn_frame { w with orphans := os }
      { method := .simpleBind, callbacks := cb } o.password refused
    refine ⟨_,_,by rw [step,sendRequest,hn],?_,?_,_,_,l,_,os,hw⟩
    · rw [hq]
    · simp [hq]
  · obtain ⟨os,hn⟩ := note_frame w { method := .saslBind, callbacks := cb }
    obtain ⟨⟨l,hw⟩,hq,-⟩ := saslBind_frame { w with orphans := os }
      { method := .saslBind, callbacks := cb } o lib
    refine ⟨_,_,by rw [step,sendRequest,hn],?_,?_,_,_,l,_,os,hw⟩
    · rw [hq]
    · simp [hq]

/-- The end of `sendRequest` enrols the request, and sets the bound flag, fires or faults. -/
theorem settle_frame (r : RequestId) (async : Bool) (x : Executed) :
    ∃c rs f fs,settle r async x={ x.world with
      connection := c, requests := x.world.requests++[x.request], results := rs, fired := f,
      faults := fs } := by
  simp only [settle]
  cases verdict async x with
  | error f => exact ⟨_,_,_,_,rfl⟩
  | ok v =>
    simp only [handle]
    split_ifs <;> exact ⟨_,_,_,_,rfl⟩

/-- A listener writes to its request, the callbacks and the traffic, and to nothing else. -/
theorem listen_frame (w : World) (r : RequestId) (q : Request) (ev : ListenerEvent) :
    ∃rs t f,(w.listen r q ev).1={ w with results := rs, traffic := t, fired := f } := by
  rw [listen]
  cases q.listener with
  | none => exact ⟨_,_,_,rfl⟩
  | some l => cases ev <;> exact ⟨_,_,_,rfl⟩

theorem listenAll_frame (w : World) (r : RequestId) (q : Request) (evs : List ListenerEvent) :
    ∃rs t f,(w.listenAll r q evs).1={ w with results := rs, traffic := t, fired := f } := by
  induction evs generalizing w q with
  | nil => exact ⟨_,_,_,rfl⟩
  | cons ev evs ih =>
    obtain ⟨rs,t,f,hw⟩ := listen_frame w r q ev
    obtain ⟨rs',t',f',hw'⟩ := ih (w.listen r q ev).1 (w.listen r q ev).2
    refine ⟨rs',t',f',?_⟩
    rw [listenAll,hw',hw]

/-- The reader works on the lists and the result of a request, and on nothing else of it. -/
theorem listen_keeps (w : World) (r : RequestId) (q : Request) (ev : ListenerEvent) :
    (w.listen r q ev).2.method=q.method ∧ (w.listen r q ev).2.callbacks=q.callbacks ∧
      (w.listen r q ev).2.asyncRequestId=q.asyncRequestId := by
  rw [listen]
  cases q.listener with
  | none => exact ⟨rfl,rfl,rfl⟩
  | some l =>
    cases ev with
    | searchEntryReturned e => exact ⟨rfl,rfl,rfl⟩
    | searchReferenceReturned urls => exact ⟨rfl,rfl,rfl⟩
    | searchResultReceived res =>
      simp only [Request.searchResultReceived]
      split_ifs <;> exact ⟨rfl,rfl,rfl⟩

theorem listenAll_keeps (w : World) (r : RequestId) (q : Request) (evs : List ListenerEvent) :
    (w.listenAll r q evs).2.method=q.method ∧
      (w.listenAll r q evs).2.callbacks=q.callbacks ∧
      (w.listenAll r q evs).2.asyncRequestId=q.asyncRequestId := by
  induction evs generalizing w q with
  | nil => exact ⟨rfl,rfl,rfl⟩
  | cons ev evs ih =>
    obtain ⟨hm,hcb,hid⟩ := listen_keeps w r q ev
    obtain ⟨hm',hcb',hid'⟩ := ih (w.listen r q ev).1 (w.listen r q ev).2
    exact ⟨hm'.trans hm,hcb'.trans hcb,hid'.trans hid⟩

theorem listen_traffic (w : World) (r : RequestId) (q : Request) (ev : ListenerEvent) :
    (∃k,(w.listen r q ev).1.traffic=List.replicate k (.delivered r)++w.traffic) ∧
    (w.listen r q ev).1.nextMessage=w.nextMessage := by
  unfold listen
  cases q.listener with
  | none => exact ⟨⟨0,rfl⟩,rfl⟩
  | some l =>
    cases ev with
    | searchEntryReturned e => exact ⟨⟨0,rfl⟩,rfl⟩
    | searchReferenceReturned urls => exact ⟨⟨0,rfl⟩,rfl⟩
    | searchResultReceived res => exact ⟨⟨1,rfl⟩,rfl⟩

theorem listenAll_traffic (w : World) (r : RequestId) (q : Request)
    (evs : List ListenerEvent) :
    (∃k,(w.listenAll r q evs).1.traffic=List.replicate k (.delivered r)++w.traffic) ∧
    (w.listenAll r q evs).1.nextMessage=w.nextMessage := by
  induction evs generalizing w q with
  | nil => exact ⟨⟨0,rfl⟩,rfl⟩
  | cons ev evs ih =>
    obtain ⟨⟨k,ht⟩,hn⟩ := listen_traffic w r q ev
    obtain ⟨⟨j,ht'⟩,hn'⟩ := ih (w.listen r q ev).1 (w.listen r q ev).2
    rw [listenAll]
    refine ⟨⟨j+k,?_⟩,hn'.trans hn⟩
    rw [ht',ht,List.replicate_add,List.append_assoc]

theorem settle_wire (r : RequestId) (async : Bool) (x : Executed) :
    (settle r async x).traffic=x.world.traffic ∧
    (settle r async x).nextMessage=x.world.nextMessage := by
  obtain ⟨c,rs,f,fs,hw⟩ := settle_frame r async x
  rw [hw]
  exact ⟨rfl,rfl⟩

/-- The asynchronous search as it goes on once the SDK accepted it. -/
def sent (w : World) (r : RequestId) (q : Request) (h : Handle) (rq : SearchRequest)
    (lib : SearchLib) : World × Request :=
  let w' : World := { w with
    searches := rq::w.searches
    nextMessage := Function.update w.nextMessage h (w.nextMessage h+lib.skip+1)
    traffic := .sent r h (w.nextMessage h+lib.skip)::w.traffic }
  w'.listenAll r { q with ldapResult := none, listener := some {} } lib.early

/-- The asynchronous search that the SDK did not get sent: its listener stays registered. -/
def unsent (w : World) (r : RequestId) (q : Request) (rq : SearchRequest) (lib : SearchLib) :
    World × Request :=
  ({ w with searches := rq::w.searches }).listenAll r
    { q with ldapResult := none, listener := some {} } lib.early

/-- An asynchronous search that the SDK takes up but fails to send. -/
structure Refuses (o : SearchOptions) (lib : SearchLib) : Prop where
  async : o.async.getD false=true
  scope : (Search.definedValueOf (o.scope.getD scopeDefault)).isSome=true
  built : lib.malformed=none
  refused : lib.refused.isSome=true

/-- Everything that `execute` of a search can do. -/
theorem search_cases (w : World) (r : RequestId) (q : Request) (o : SearchOptions)
    (lib : SearchLib) :
    (w.connection.isBound=false ∧ Search.execute w r q o lib=
      ⟨w.fire r q (.failed (-2) (.text "Connection is not bound")),q,
        .ok (some ⟨ldapUnavailable,none⟩)⟩) ∨
    (w.connection.isBound=true ∧ ¬Refuses o lib ∧ Search.execute w r q o lib=
      ⟨w,q,.error .usage⟩) ∨
    (w.connection.isBound=true ∧ ¬Refuses o lib ∧ ∃h s n a res,w.connection.ld=some h ∧
      Search.execute w r q o lib=
        ⟨{ w with searches := s, nextMessage := Function.update w.nextMessage h n },
          { q with ldapResult := a },.ok (some res)⟩ ∧
      w.nextMessage h≤n ∧ (res.resultCode=ldapSuccess →
        ∃s,a=some s ∧ s.entryCount=s.searchEntries.length)) ∨
    (w.connection.isBound=true ∧ ¬Refuses o lib ∧ o.async.getD false=true ∧
      ∃h rq,w.connection.ld=some h ∧
      Search.execute w r q o lib=⟨(sent w r q h rq lib).1,
        { (sent w r q h rq lib).2 with asyncRequestId := some (w.nextMessage h+lib.skip) },
        .ok ((sent w r q h rq lib).2.ldapResult.map (·.toLDAPResult))⟩) ∨
    (w.connection.isBound=true ∧ Refuses o lib ∧ ∃rq,∃e : LDAPException,
      Search.execute w r q o lib=⟨(unsent w r q rq lib).1,(unsent w r q rq lib).2,
        .ok (some e.toLDAPResult)⟩) := by
  rw [Search.execute]
  cases hb : w.connection.isBound with
  | false => exact .inl ⟨rfl,by simp⟩
  | true =>
    refine .inr ?_
    obtain ⟨h,hld⟩ : ∃h,w.connection.ld=some h := by
      have hs : w.connection.ld.isSome=true := by
        rw [ConnectionProxy.isBound] at hb
        exact (Bool.and_eq_true_iff.mp hb).1
      exact Option.isSome_iff_exists.mp hs
    have failure : ∀e : LDAPException,e.toLDAPResult.resultCode≠ldapSuccess :=
      fun e => e.resultCode.2
    have same : w.nextMessage=Function.update w.nextMessage h (w.nextMessage h) :=
      (Function.update_eq_self h w.nextMessage).symm
    simp only [if_true,hld]
    cases hm : lib.malformed with
    | some e =>
      refine .inr (.inl ⟨trivial,?_,h,w.searches,w.nextMessage h,q.ldapResult,e.toLDAPResult,
        rfl,?_,Nat.le_refl _,fun hc => absurd hc (failure e)⟩)
      · intro hr
        simp [hr.built] at hm
      · rw [← same]
    | none =>
      cases hs : Search.definedValueOf (o.scope.getD scopeDefault) with
      | none =>
        refine .inl ⟨trivial,?_,rfl⟩
        intro hr
        simpa [hs] using hr.scope
      | some scope =>
        refine .inr ?_
        cases ha : o.async.getD false with
        | false =>
          have hno : ¬Refuses o lib := fun hr => by simpa [ha] using hr.async
          simp only [Bool.false_eq_true,if_false,Search.search]
          cases lib.refused with
          | some e =>
            refine .inl ⟨trivial,hno,h,Search.request o scope::w.searches,w.nextMessage h,
              q.ldapResult,e.toLDAPResult,rfl,?_,Nat.le_refl _,fun hc => absurd hc (failure e)⟩
            rw [← same]
          | none =>
            exact .inl ⟨trivial,hno,h,_,_,_,_,rfl,rfl,by omega,fun _ => ⟨_,rfl,rfl⟩⟩
        | true =>
          refine .inr ?_
          simp only [if_true,Search.asyncSearch]
          cases hf : lib.refused with
          | some e =>
            have hr : Refuses o lib := ⟨ha,by simp [hs],hm,by simp [hf]⟩
            exact .inr ⟨trivial,hr,Search.request o scope,e,rfl⟩
          | none =>
            have hno : ¬Refuses o lib := fun hr => by simpa [hf] using hr.refused
            exact .inl ⟨trivial,hno,trivial,h,Search.request o scope,rfl,rfl⟩

/-- The accessors touch only the objects they return and move, and the faults. -/
theorem resultCall_frame (w : World) (i : Nat) (c : ResultCall) :
    ∃rs es fs,w.resultCall i c={ w with results := rs, entries := es, faults := fs } := by
  rw [resultCall]
  cases w.results[i]? with
  | none => exact ⟨_,_,_,rfl⟩
  | some p =>
    cases c with
    | countEntries => cases hc : p.countEntries <;> simp only [hc] <;> exact ⟨_,_,_,rfl⟩
    | firstEntry => cases hc : p.firstEntry <;> simp only [hc] <;> exact ⟨_,_,_,rfl⟩
    | nextEntry => exact ⟨_,_,_,rfl⟩

theorem entryCall_frame (w : World) (i : Nat) (c : EntryCall) :
    ∃es,w.entryCall i c={ w with entries := es } := by
  rw [entryCall]
  cases w.entries[i]? with
  | none => exact ⟨_,rfl⟩
  | some p => cases c <;> exact ⟨_,rfl⟩

theorem disconnect_frame (w : World) :
    ∃c l,w.disconnect={ w with connection := c, ledger := l } := by
  rw [disconnect]
  cases w.connection.ld <;> exact ⟨_,_,rfl⟩

/-- What an `abandon` call can do. -/
theorem abandon_cases (w : World) (r : RequestId) (refused : Bool) :
    ((∀q id h,w.requests[r]?=some q → q.asyncRequestId=some id → w.connection.ld=some h → False) ∧
      ∃fs,w.abandon r refused={ w with faults := fs }) ∨
    (∃q id h,w.requests[r]?=some q ∧ q.asyncRequestId=some id ∧ w.connection.ld=some h ∧
      w.abandon r refused={ w with
        requests := if refused then w.requests
          else w.requests.set r { q with asyncRequestId := none }
        traffic := .abandoned r h id (!refused)::w.traffic }) := by
  unfold abandon
  cases hq : w.requests[r]? with
  | none => exact .inl ⟨by simp,w.faults,rfl⟩
  | some q =>
    cases hid : q.asyncRequestId with
    | none =>
      refine .inl ⟨?_,w.faults,by simp [hid]⟩
      intro p id h hp hpid
      cases hp
      rw [hid] at hpid
      cases hpid
    | some id =>
      cases hld : w.connection.ld with
      | none => exact .inl ⟨by simp,.nullHandle::w.faults,by simp [hid,fault]⟩
      | some h => exact .inr ⟨q,id,h,rfl,hid,rfl,by simp [hid]⟩

end TiLdap.Android.World
