import TiLdap.Android.Callbacks
import TiLdap.Session.Wire

namespace TiLdap.Android.World

open Wire

/-- Message ids are unique, and an abandoned request has forgotten its own. -/
structure WireInv (w : World) : Prop where
  numbered : Numbered w.nextMessage w.traffic
  forgotten : ∀r h id,Traffic.abandoned r h id true∈w.traffic →
    ∃q,w.requests[r]?=some q ∧ q.asyncRequestId=none

/-- One step on the wire that abandons nothing. -/
structure Calm (w w' : World) : Prop where
  inv : WireInv w'
  traffic : ∃new,w'.traffic=new++w.traffic ∧ ∀e∈new,isAbandon e=false

theorem Calm.quiet {w w' : World} (hi : WireInv w) (hr : w'.requests=w.requests)
    (ht : w'.traffic=w.traffic) (hn : w'.nextMessage=w.nextMessage) : Calm w w' := by
  refine ⟨⟨?_,?_⟩,[],by simpa using ht,by simp⟩
  · rw [ht,hn]
    exact hi.numbered
  · rw [ht,hr]
    exact hi.forgotten

theorem forgotten_append {w : World} (hi : WireInv w) (q : Request) {r : RequestId}
    {h : Handle} {id : Nat} (hm : Traffic.abandoned r h id true∈w.traffic) :
    ∃p,(w.requests++[q])[r]?=some p ∧ p.asyncRequestId=none := by
  obtain ⟨p,hp,hid⟩ := hi.forgotten r h id hm
  have hlt : r<w.requests.length := (List.getElem?_eq_some_iff.mp hp).1
  exact ⟨p,by rw [List.getElem?_append_left hlt,hp],hid⟩

/-- A request that sends no asynchronous search only moves the numbering on. -/
theorem Calm.enroll {w : World} (hi : WireInv w) {r : RequestId} {async : Bool} {x : Executed}
    (hr : x.world.requests=w.requests) (ht : x.world.traffic=w.traffic)
    (hn : ∀k,w.nextMessage k≤x.world.nextMessage k) : Calm w (settle r async x) := by
  obtain ⟨ht',hn'⟩ := settle_wire r async x
  rw [ht] at ht'
  refine ⟨⟨?_,?_⟩,[],by simpa using ht',by simp⟩
  · rw [ht',hn']
    exact hi.numbered.mono hn
  · rw [ht',settle_requests,hr]
    intro k h id hm
    exact forgotten_append hi x.request hm

theorem plain_calm {w : World} (hi : WireInv w) {op : Op}
    (h : (∃o cb lib,op=.connect o cb lib) ∨ (∃o cb refused,op=.simpleBind o cb refused) ∨
      ∃o cb lib,op=.saslBind o cb lib) : Calm w (step w op) := by
  obtain ⟨async,x,hx,-,-,c,n,l,k,os,hw⟩ := plain_cases w h
  rw [hx]
  apply Calm.enroll hi <;> simp [hw]

theorem sent_calm {w : World} (hi : WireInv w) (r : RequestId) (async : Bool) (q : Request)
    (h : Handle) (rq : SearchRequest) (lib : SearchLib) (res : Except Fault (Option LDAPResult)) :
    Calm w (settle r async ⟨(sent w r q h rq lib).1,
      { (sent w r q h rq lib).2 with asyncRequestId := some (w.nextMessage h+lib.skip) },
      res⟩) := by
  obtain ⟨⟨k,ht⟩,hn⟩ := listenAll_traffic
    { w with
      searches := rq::w.searches
      nextMessage := Function.update w.nextMessage h (w.nextMessage h+lib.skip+1)
      traffic := .sent r h (w.nextMessage h+lib.skip)::w.traffic }
    r { q with ldapResult := none, listener := some {} } lib.early
  obtain ⟨ht',hn'⟩ := settle_wire r async ⟨(sent w r q h rq lib).1,
    { (sent w r q h rq lib).2 with asyncRequestId := some (w.nextMessage h+lib.skip) },res⟩
  have hnum : Numbered (Function.update w.nextMessage h (w.nextMessage h+lib.skip+1))
      (.sent r h (w.nextMessage h+lib.skip)::w.traffic) :=
    hi.numbered.sent r (by omega)
  refine ⟨⟨?_,?_⟩,List.replicate k (.delivered r)++[.sent r h (w.nextMessage h+lib.skip)],?_,?_⟩
  · rw [ht',hn',sent,ht,hn]
    apply hnum.append
    simp
  · rw [ht',sent,ht,settle_requests,listenAll_requests]
    intro j g id hm
    apply forgotten_append hi
    simpa using hm
  · rw [ht',sent,ht]
    simp
  · intro e he
    rcases List.mem_append.mp he with he|he
    · rw [List.eq_of_mem_replicate he]
      rfl
    · rw [List.mem_singleton.mp he]
      rfl

/-- A search that is not sent leaves the numbering alone; its listener may still be called. -/
theorem unsent_calm {w : World} (hi : WireInv w) (r : RequestId) (async : Bool) (q : Request)
    (rq : SearchRequest) (lib : SearchLib) (res : Except Fault (Option LDAPResult)) :
    Calm w (settle r async ⟨(unsent w r q rq lib).1,(unsent w r q rq lib).2,res⟩) := by
  obtain ⟨⟨k,ht⟩,hn⟩ := listenAll_traffic { w with searches := rq::w.searches } r
    { q with ldapResult := none, listener := some {} } lib.early
  obtain ⟨ht',hn'⟩ := settle_wire r async ⟨(unsent w r q rq lib).1,(unsent w r q rq lib).2,res⟩
  refine ⟨⟨?_,?_⟩,List.replicate k (.delivered r),?_,?_⟩
  · rw [ht',hn',unsent,ht,hn]
    apply hi.numbered.append
    simp
  · rw [ht',unsent,ht,settle_requests,listenAll_requests]
    intro j g id hm
    apply forgotten_append hi
    simpa using hm
  · rw [ht',unsent,ht]
  · intro e he
    rw [List.eq_of_mem_replicate he]
    rfl

theorem search_calm {w : World} (hi : WireInv w) (o : SearchOptions) (cb : Callbacks)
    (lib : SearchLib) : Calm w (step w (.search o cb lib)) := by
  rw [step,sendRequest]
  obtain ⟨os,hn⟩ := note_frame w { method := .search, callbacks := cb }
  rw [hn]
  rcases search_cases { w with orphans := os } w.requests.length
      { method := .search, callbacks := cb } o lib with
    ⟨-,hx⟩|⟨-,-,hx⟩|⟨-,-,h,s,n,a,res,-,hx,hle,-⟩|⟨-,-,-,h,rq,-,hx⟩|⟨-,-,rq,e,hx⟩
  · rw [hx]
    exact Calm.enroll hi rfl rfl fun k => Nat.le_refl _
  · rw [hx]
    exact Calm.enroll hi rfl rfl fun k => Nat.le_refl _
  · rw [hx]
    exact Calm.enroll hi rfl rfl (update_mono hle)
  · rw [hx]
    have hi' : WireInv { w with orphans := os } := ⟨hi.numbered,hi.forgotten⟩
    obtain ⟨inv,htr⟩ := sent_calm hi' w.requests.length (o.async.getD false)
      { method := .search, callbacks := cb } h rq lib _
    exact ⟨inv,htr⟩
  · rw [hx]
    have hi' : WireInv { w with orphans := os } := ⟨hi.numbered,hi.forgotten⟩
    obtain ⟨inv,htr⟩ := unsent_calm hi' w.requests.length (o.async.getD false)
      { method := .search, callbacks := cb } rq lib _
    exact ⟨inv,htr⟩

theorem listener_calm {w : World} (hi : WireInv w) (r : RequestId) (ev : ListenerEvent) :
    Calm w (step w (.listener r ev)) := by
  rw [step]
  cases hq : w.requests[r]? with
  | none => exact Calm.quiet hi rfl rfl rfl
  | some q =>
    obtain ⟨⟨k,ht⟩,hn⟩ := listen_traffic w r q ev
    obtain ⟨-,-,hid⟩ := listen_keeps w r q ev
    have hlt : r<w.requests.length := (List.getElem?_eq_some_iff.mp hq).1
    refine ⟨⟨?_,?_⟩,List.replicate k (.delivered r),ht,by simp [isAbandon]⟩
    · dsimp only
      rw [ht,hn]
      apply hi.numbered.append
      simp
    · dsimp only
      rw [ht,listen_requests]
      intro j h id hm
      have hm : Traffic.abandoned j h id true∈w.traffic := by simpa using hm
      obtain ⟨p,hp,hpid⟩ := hi.forgotten j h id hm
      by_cases he : r=j
      · subst he
        rw [hq] at hp
        cases hp
        exact ⟨_,List.getElem?_set_self hlt,hid.trans hpid⟩
      · exact ⟨p,by rw [List.getElem?_set_ne he,hp],hpid⟩

/-- An abandon that reaches the SDK comes from a request that was sent on the session in place
and whose final response is not in yet. -/
def abandonGuard (w : World) : Op → Prop
  | .abandon r _ => ∀q id h,w.requests[r]?=some q → q.asyncRequestId=some id →
      w.connection.ld=some h → Traffic.sent r h id∈w.traffic ∧ Traffic.delivered r∉w.traffic
  | _ => True

theorem abandon_inv {w : World} (hi : WireInv w) (r : RequestId) (refused : Bool) :
    WireInv (w.abandon r refused) := by
  rcases abandon_cases w r refused with ⟨-,fs,hw⟩|⟨q,id,h,hq,-,-,hw⟩
  · rw [hw]
    exact ⟨hi.numbered,hi.forgotten⟩
  · have hlt : r<w.requests.length := (List.getElem?_eq_some_iff.mp hq).1
    rw [hw]
    refine ⟨?_,?_⟩
    · exact hi.numbered.append [.abandoned r h id (!refused)] (by simp)
    · intro j k i hm
      cases refused with
      | true =>
        have hm : Traffic.abandoned j k i true∈w.traffic := by simpa using hm
        exact hi.forgotten j k i hm
      | false =>
        dsimp only
        by_cases he : r=j
        · subst he
          exact ⟨_,List.getElem?_set_self hlt,rfl⟩
        · have hm : Traffic.abandoned j k i true∈w.traffic := by
            rcases List.mem_cons.mp hm with hm|hm
            · cases hm
              exact absurd rfl he
            · exact hm
          obtain ⟨p,hp,hpid⟩ := hi.forgotten j k i hm
          exact ⟨p,by simp [List.getElem?_set_ne he,hp],hpid⟩

theorem step_calm {w : World} (hi : WireInv w) {op : Op} (h : ∀r b,op≠.abandon r b) :
    Calm w (step w op) := by
  cases op with
  | setUseTLS b => exact Calm.quiet hi rfl rfl rfl
  | setCertFile f => exact Calm.quiet hi rfl rfl rfl
  | connect o cb lib => exact plain_calm hi (.inl ⟨o,cb,lib,rfl⟩)
  | simpleBind o cb refused => exact plain_calm hi (.inr (.inl ⟨o,cb,refused,rfl⟩))
  | saslBind o cb lib => exact plain_calm hi (.inr (.inr ⟨o,cb,lib,rfl⟩))
  | search o cb lib => exact search_calm hi o cb lib
  | disconnect =>
    obtain ⟨c,l,hw⟩ := disconnect_frame w
    rw [step,hw]
    exact Calm.quiet hi rfl rfl rfl
  | release =>
    obtain ⟨c,l,hw⟩ := disconnect_frame w
    rw [step,hw]
    exact Calm.quiet hi rfl rfl rfl
  | abandon r b => exact absurd rfl (h r b)
  | listener r ev => exact listener_calm hi r ev
  | resultCall i c =>
    obtain ⟨rs,es,fs,hw⟩ := resultCall_frame w i c
    rw [step,hw]
    exact Calm.quiet hi rfl rfl rfl
  | entryCall i c =>
    obtain ⟨es,hw⟩ := entryCall_frame w i c
    rw [step,hw]
    exact Calm.quiet hi rfl rfl rfl

theorem step_wireInv (w : World) (op : Op) (hi : WireInv w) : WireInv (step w op) := by
  by_cases h : ∃r b,op=.abandon r b
  · obtain ⟨r,b,rfl⟩ := h
    exact abandon_inv hi r b
  · exact (step_calm hi fun r b he => h ⟨r,b,he⟩).inv

/-- A step keeps every abandon on its own request exactly when it meets `abandonGuard`. -/
theorem step_own (w : World) (op : Op) (hi : WireInv w) (ho : Own w.traffic) :
    Own (step w op).traffic ↔ w.abandonGuard op := by
  by_cases h : ∃r b,op=.abandon r b
  · obtain ⟨r,b,rfl⟩ := h
    rcases abandon_cases w r b with ⟨hno,fs,hw⟩|⟨q,id,h,hq,hid,hld,hw⟩
    · rw [step,hw]
      refine iff_of_true ho ?_
      intro q id h hq hid hld
      exact absurd hld (fun hld => hno q id h hq hid hld)
    · rw [step,hw,own_abandoned hi.numbered ho]
      constructor
      · intro hout p i k hp hpid hk
        rw [hq] at hp
        cases hp
        rw [hid] at hpid
        cases hpid
        rw [hld] at hk
        cases hk
        exact ⟨hout.1,hout.2.1⟩
      · intro hg
        obtain ⟨hs,hd⟩ := hg q id h hq hid hld
        refine ⟨hs,hd,?_⟩
        intro h' id' hm
        obtain ⟨p,hp,hpid⟩ := hi.forgotten r h' id' hm
        rw [hq] at hp
        cases hp
        rw [hid] at hpid
        cases hpid
  · have hc := step_calm hi fun r b he => h ⟨r,b,he⟩
    obtain ⟨new,ht,hnew⟩ := hc.traffic
    rw [ht,own_append hnew]
    refine iff_of_true ho ?_
    cases op with
    | abandon r b => exact absurd ⟨r,b,rfl⟩ h
    | _ => trivial

end TiLdap.Android.World
