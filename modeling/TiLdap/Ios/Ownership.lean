import TiLdap.Ios.Memory

namespace TiLdap.Ios.Memory

open Framework OpenLdap

/-- An entry object leads into the chain of the result that it retains. -/
def Anchored (m : Memory) (e : EntryObject) : Prop :=
  ∃i,e.searchResult=some i ∧ m.pointer (.result i)=some e.entry

/-- A chain was owned by the request that obtained it, and by the result that took it over when
that request succeeded. A request that has not handled its outcome still has its chain. -/
def Traced (m : Memory) (c : ChainId) (k : Custody Object) : Prop :=
  ∃r q,m.requests[r]?=some q ∧
    ((q.body.succeeded=false ∧ k.owners=[.request r] ∧
        (q.body.pending.isSome=true → m.pointer (.request r)=some c)) ∨
      (q.body.succeeded=true ∧ ∃i,k.owners=[.result i,.request r]))

/-- What the objects look like, the counts of the results apart. -/
structure Formed (m : Memory) : Prop where
  kept : Custody.Kept m.pointer m.chains
  requests : ∀q∈m.requests,q.retainCount=q.held ∧ (q.retainCount=0 → q.body.ldapMessage=none)
  results : ∀x∈m.results,(x.retainCount=0 → x.body.searchResult=none) ∧
    ∀c,x.body.entry=some c → x.body.searchResult=some c
  entries : ∀y∈m.entries,y.retainCount=y.held ∧
    (y.retainCount=0 → y.body.searchResult=none) ∧ (0<y.retainCount → m.Anchored y.body)
  traced : ∀(c : ChainId) (k : Custody Object),m.chains[c]?=some k → m.Traced c k

/-- The pointers after a change of one request. -/
theorem pointer_requests (m : Memory) {l : List (Counted RequestObject)} {r : Nat}
    {p : Option ChainId}
    (h : (fun i : Nat => l[i]?.bind fun q => q.body.ldapMessage.map Message.id)=Function.update
      (fun i : Nat => m.requests[i]?.bind fun q => q.body.ldapMessage.map Message.id) r p) :
    pointer { m with requests := l }=Function.update m.pointer (.request r) p := by
  refine eq_update_of_kind (fun _ _ h => Object.request.inj h) h ?_
  intro o ho
  cases o with
  | request i => exact absurd rfl (ho i)
  | result i => rfl
  | entry j => rfl

theorem pointer_results (m : Memory) {l : List (Counted ResultObject)} {i : Nat}
    {p : Option ChainId}
    (h : (fun j : Nat => l[j]?.bind fun x => x.body.searchResult)=Function.update
      (fun j : Nat => m.results[j]?.bind fun x => x.body.searchResult) i p) :
    pointer { m with results := l }=Function.update m.pointer (.result i) p := by
  refine eq_update_of_kind (fun _ _ h => Object.result.inj h) h ?_
  intro o ho
  cases o with
  | request r => rfl
  | result i => exact absurd rfl (ho i)
  | entry j => rfl

theorem pointer_addRequest (m : Memory) (q : Counted RequestObject) :
    pointer { m with requests := m.requests++[q] }=
      Function.update m.pointer (.request m.requests.length) (q.body.ldapMessage.map Message.id) :=
  m.pointer_requests (bind_getElem?_concat _ m.requests q)

theorem pointer_setRequest {m : Memory} {r : Nat} {q : Counted RequestObject}
    (hq : m.requests[r]?=some q) (q' : Counted RequestObject) :
    pointer { m with requests := m.requests.set r q' }=
      Function.update m.pointer (.request r) (q'.body.ldapMessage.map Message.id) :=
  m.pointer_requests (bind_getElem?_set _ hq q')

theorem pointer_addResult (m : Memory) (x : Counted ResultObject) :
    pointer { m with results := m.results++[x] }=
      Function.update m.pointer (.result m.results.length) x.body.searchResult :=
  m.pointer_results (bind_getElem?_concat _ m.results x)

theorem pointer_setResult {m : Memory} {i : Nat} {x : Counted ResultObject}
    (hx : m.results[i]?=some x) (x' : Counted ResultObject) :
    pointer { m with results := m.results.set i x' }=
      Function.update m.pointer (.result i) x'.body.searchResult :=
  m.pointer_results (bind_getElem?_set _ hx x')

theorem pointer_request {m : Memory} {r : Nat} {q : Counted RequestObject}
    (hq : m.requests[r]?=some q) :
    m.pointer (.request r)=q.body.ldapMessage.map Message.id := by
  rw [pointer,hq]
  rfl

theorem pointer_result {m : Memory} {i : Nat} {x : Counted ResultObject}
    (hx : m.results[i]?=some x) : m.pointer (.result i)=x.body.searchResult := by
  rw [pointer,hx]
  rfl

theorem pointer_freshRequest (m : Memory) : m.pointer (.request m.requests.length)=none := by
  rw [pointer,List.getElem?_eq_none (Nat.le_refl _)]
  rfl

theorem pointer_freshResult (m : Memory) : m.pointer (.result m.results.length)=none := by
  rw [pointer,List.getElem?_eq_none (Nat.le_refl _)]
  rfl

variable {m m' : Memory}

theorem Anchored.congr {e : EntryObject} (h : m.Anchored e)
    (hp : ∀i,m.pointer (.result i)=some e.entry → m'.pointer (.result i)=some e.entry) :
    m'.Anchored e := by
  obtain ⟨i,hi,he⟩ := h
  exact ⟨i,hi,hp i he⟩

/-- What a change of the requests must leave alone. -/
theorem Traced.congr {c : ChainId} {k : Custody Object} (h : m.Traced c k)
    (hr : ∀(r : Nat) (q : Counted RequestObject),m.requests[r]?=some q →
      ∃q',m'.requests[r]?=some q' ∧ q'.body.succeeded=q.body.succeeded ∧
        (q'.body.pending.isSome=true → q.body.pending.isSome=true ∧
          m'.pointer (.request r)=m.pointer (.request r))) : m'.Traced c k := by
  obtain ⟨r,q,hq,h⟩ := h
  obtain ⟨q',hq',hs,hp⟩ := hr r q hq
  refine ⟨r,q',hq',?_⟩
  rcases h with ⟨hf,ho,hk⟩|⟨ht,ho⟩
  · refine .inl ⟨hs.trans hf,ho,?_⟩
    intro hpend
    obtain ⟨hpend,heq⟩ := hp hpend
    exact heq.trans (hk hpend)
  · exact .inr ⟨hs.trans ht,ho⟩

theorem Traced.setRequest {c : ChainId} {k : Custody Object} (h : m.Traced c k) {r : Nat}
    {q q' : Counted RequestObject} (hq : m.requests[r]?=some q)
    (hr : m'.requests=m.requests.set r q') (hs : q'.body.succeeded=q.body.succeeded)
    (hp : q'.body.pending.isSome=true → q.body.pending.isSome=true ∧
      m'.pointer (.request r)=m.pointer (.request r))
    (ho : ∀i,i≠r → m'.pointer (.request i)=m.pointer (.request i)) : m'.Traced c k := by
  refine h.congr ?_
  intro i p hip
  rw [hr]
  by_cases hi : i=r
  · subst hi
    rw [hq] at hip
    cases hip
    exact ⟨q',getElem?_set_of hq q',hs,hp⟩
  · exact ⟨p,(List.getElem?_set_ne (Ne.symm hi)).trans hip,rfl,fun hpend => ⟨hpend,ho i hi⟩⟩

/-- Freeing a chain does not change who owned it. -/
theorem Formed.traced_free (h : m.Formed) {c d : ChainId} {k : Custody Object}
    (hk : (m.chains.modify c Custody.free)[d]?=some k) : m.Traced d k := by
  rcases getElem?_modify_cases hk with ⟨rfl,k₀,hk₀,rfl⟩|⟨-,hk⟩
  · exact h.traced d k₀ hk₀
  · exact h.traced d k hk

/-- A request changes its count or its outcome, and keeps its chain. -/
theorem Formed.setRequest (h : m.Formed) {r : Nat} {q q' : Counted RequestObject}
    (hq : m.requests[r]?=some q) (hm : q'.body.ldapMessage=q.body.ldapMessage)
    (hs : q'.body.succeeded=q.body.succeeded)
    (hp : q'.body.pending.isSome=true → q.body.pending.isSome=true)
    (hc : q'.retainCount=q'.held) (hz : q'.retainCount=0 → q'.body.ldapMessage=none) :
    Formed { m with requests := m.requests.set r q' } := by
  have hptr : pointer { m with requests := m.requests.set r q' }=m.pointer := by
    rw [pointer_setRequest hq,Function.update_eq_self_iff,pointer_request hq,hm]
  constructor
  · rw [hptr]
    exact h.kept
  · exact forall_mem_set h.requests r ⟨hc,hz⟩
  · exact h.results
  · intro y hy
    obtain ⟨h1,h2,h3⟩ := h.entries y hy
    exact ⟨h1,h2,fun hpos => (h3 hpos).congr fun i hi => by rw [hptr,hi]⟩
  · intro c k hk
    exact (h.traced c k hk).setRequest hq rfl hs (fun hpend => ⟨hp hpend,by rw [hptr]⟩)
      fun i _ => by rw [hptr]

/-- A request that loses its last reference frees the chain that it still has. -/
theorem Formed.dropRequest (h : m.Formed) {r : Nat} {q : Counted RequestObject}
    (hq : m.requests[r]?=some q) (hp : q.body.pending=none) :
    Formed (m.putRequest r q.drop) := by
  have hc : q.drop.retainCount=q.drop.held := by
    have he := (h.requests q (List.mem_of_getElem? hq)).1
    show q.retainCount-1=q.held-1
    rw [he]
  have hpend : ¬q.body.pending.isSome=true := by simp [hp]
  rw [Memory.putRequest]
  split_ifs with h0
  · cases hm : q.drop.body.ldapMessage with
    | none => exact h.setRequest hq hm.symm rfl id hc fun _ => rfl
    | some p =>
      have hold : m.pointer (.request r)=some p.id := by
        rw [pointer_request hq]
        exact congrArg _ hm
      have hptr := pointer_setRequest hq (q.drop.modify RequestObject.destroy)
      constructor
      · have hk := h.kept.free hold
        exact hptr ▸ hk
      · exact forall_mem_set h.requests r ⟨hc,fun _ => rfl⟩
      · exact h.results
      · exact h.entries
      · intro c k hk
        have ho : ∀i,i≠r → pointer { m with
            requests := m.requests.set r (q.drop.modify RequestObject.destroy) } (.request i)=
              m.pointer (.request i) := by
          intro i hi
          rw [hptr,Function.update_of_ne (by simpa using hi)]
        exact (h.traced_free hk).setRequest hq rfl rfl (fun hi => absurd hi hpend) ho
  · exact h.setRequest hq rfl rfl id hc fun hz => absurd hz h0

theorem Traced.addRequest {c : ChainId} {k : Custody Object} (h : m.Traced c k)
    {q : Counted RequestObject} (hr : m'.requests=m.requests++[q])
    (hp : ∀r< m.requests.length,m'.pointer (.request r)=m.pointer (.request r)) :
    m'.Traced c k := by
  refine h.congr ?_
  intro r p hrp
  obtain ⟨hlt,-⟩ := List.getElem?_eq_some_iff.mp hrp
  rw [hr]
  exact ⟨p,getElem?_append_of hrp _,rfl,fun hpend => ⟨hpend,hp r hlt⟩⟩

/-- A new request, with the chain that the library returned for it. -/
theorem Formed.send (h : m.Formed) (connection : Nat) (cb : Callbacks)
    (found : Option Chain × Option Verdict) : Formed (m.send connection cb found) := by
  have grown : ∀b : RequestObject,∀z∈m.requests++[Counted.new b 1],
      z.retainCount=z.held ∧ (z.retainCount=0 → z.body.ldapMessage=none) := by
    intro b
    exact forall_mem_concat h.requests ⟨rfl,fun h0 => absurd h0 (Nat.succ_ne_zero 0)⟩
  obtain ⟨obtained,v⟩ := found
  cases obtained with
  | none =>
    have hptr : (m.send connection cb (none,v)).pointer=m.pointer := by
      refine (m.pointer_addRequest (.new _ 1)).trans ?_
      rw [Function.update_eq_self_iff,pointer_freshRequest]
      rfl
    constructor
    · rw [hptr]
      exact h.kept
    · exact grown _
    · exact h.results
    · exact h.entries
    · intro c k hk
      exact (h.traced c k hk).addRequest rfl fun r _ => by rw [hptr]
  | some chain =>
    have hptr : (m.send connection cb (some chain,v)).pointer=
        Function.update m.pointer (.request m.requests.length) (some m.chains.length) :=
      m.pointer_addRequest (.new _ 1)
    constructor
    · rw [hptr]
      exact h.kept.acquire m.pointer_freshRequest
    · exact grown _
    · exact h.results
    · exact h.entries
    · intro c k hk
      rcases getElem?_concat_cases hk with hk|⟨rfl,rfl⟩
      · refine (h.traced c k hk).addRequest rfl fun r hr => ?_
        rw [hptr,Function.update_of_ne (by simpa using Nat.ne_of_lt hr)]
      · refine ⟨m.requests.length,_,List.getElem?_concat_length,.inl ⟨rfl,rfl,fun _ => ?_⟩⟩
        rw [hptr,Function.update_self]

/-- Success is handled once: the other chains come from other requests. -/
theorem Traced.succeed {c : ChainId} {k : Custody Object} (h : m.Traced c k) {r : Nat}
    {q : Counted RequestObject} (hq : m.requests[r]?=some q) (hp : q.body.pending.isSome=true)
    (hc : m.pointer (.request r)≠some c)
    (hr : m'.requests=m.requests.set r (q.modify RequestObject.succeed))
    (ho : ∀i,i≠r → m'.pointer (.request i)=m.pointer (.request i)) : m'.Traced c k := by
  obtain ⟨i,p,hip,h⟩ := h
  by_cases hi : i=r
  · subst hi
    rw [hq] at hip
    cases hip
    rcases h with ⟨-,-,hk⟩|⟨-,hk⟩
    · exact absurd (hk hp) hc
    · exact ⟨i,_,by rw [hr,getElem?_set_of hq],.inr ⟨rfl,hk⟩⟩
  · refine ⟨i,p,by rw [hr,List.getElem?_set_ne (Ne.symm hi),hip],?_⟩
    rw [ho i hi]
    exact h

/-- A request that obtained a chain and has not handled its success is its only owner so far. -/
theorem Formed.sole_owner (h : m.Formed) {r : Nat} {c : ChainId} {k : Custody Object}
    (hr : m.pointer (.request r)=some c) (hk : m.chains[c]?=some k) : k.owners=[.request r] := by
  obtain ⟨k',hk',hkeep,-⟩ := h.kept.pointed _ _ hr
  rw [hk] at hk'
  cases hk'
  obtain ⟨i,q,-,⟨-,ho,-⟩|⟨-,j,ho⟩⟩ := h.traced c k hk
  · have hi : k.keeper=.request i := (List.cons.inj ho).1
    rw [ho,← hi,hkeep]
  · have hj : k.keeper=.result j := (List.cons.inj ho).1
    rw [hkeep] at hj
    cases hj

theorem handleSuccess_pointer {r : Nat} {q : Counted RequestObject} (hq : m.requests[r]?=some q) :
    (m.handleSuccess r q).pointer=
      Function.update (Function.update m.pointer (.request r) none) (.result m.results.length)
        (q.body.ldapMessage.map Message.id) := by
  refine (pointer_addResult { m with
    requests := m.requests.set r (q.modify RequestObject.succeed) } (.new _ _)).trans ?_
  rw [pointer_setRequest hq]
  rfl

/-- The chain, if there is one, goes from the request to the new result. -/
theorem Formed.handleSuccess_kept (h : m.Formed) {r : Nat} {q : Counted RequestObject}
    (hq : m.requests[r]?=some q) :
    Custody.Kept (m.handleSuccess r q).pointer (m.handleSuccess r q).chains := by
  have hptr := handleSuccess_pointer hq
  have hold := pointer_request hq
  cases hm : q.body.ldapMessage with
  | none =>
    have hch : (m.handleSuccess r q).chains=m.chains := by simp [Memory.handleSuccess,hm]
    rw [hm] at hptr hold
    have hkeep : Function.update m.pointer (.request r) none=m.pointer :=
      Function.update_eq_self_iff.mpr hold.symm
    have hsame : (m.handleSuccess r q).pointer=m.pointer := by
      rw [hptr,hkeep,Function.update_eq_self_iff]
      exact m.pointer_freshResult.symm
    rw [hch,hsame]
    exact h.kept
  | some p =>
    have hch : (m.handleSuccess r q).chains=
        m.chains.modify p.id (Custody.transfer (.result m.results.length)) := by
      simp [Memory.handleSuccess,hm]
    rw [hm] at hptr hold
    rw [hch,hptr]
    exact h.kept.transfer hold m.pointer_freshResult

theorem Formed.handleSuccess_traced (h : m.Formed) {r : Nat} {q : Counted RequestObject}
    (hq : m.requests[r]?=some q) (hp : q.body.pending.isSome=true) {c : ChainId}
    {k : Custody Object} (hk : (m.handleSuccess r q).chains[c]?=some k) :
    (m.handleSuccess r q).Traced c k := by
  have hold := pointer_request hq
  have hother : ∀i,i≠r → (m.handleSuccess r q).pointer (.request i)=m.pointer (.request i) := by
    intro i hi
    rw [handleSuccess_pointer hq,Function.update_of_ne (by simp),
      Function.update_of_ne (by simpa using hi)]
  cases hm : q.body.ldapMessage with
  | none =>
    have hk : m.chains[c]?=some k := by simpa [Memory.handleSuccess,hm] using hk
    exact (h.traced c k hk).succeed hq hp (by simp [hold,hm]) rfl hother
  | some p =>
    have hk : (m.chains.modify p.id
        (Custody.transfer (.result m.results.length)))[c]?=some k := by
      simpa only [Memory.handleSuccess,hm] using hk
    rcases getElem?_modify_cases hk with ⟨rfl,k₀,hk₀,rfl⟩|⟨hne,hk⟩
    · have ho := h.sole_owner (by rw [hold,hm]; rfl) hk₀
      refine ⟨r,_,getElem?_set_of hq _,.inr ⟨rfl,m.results.length,?_⟩⟩
      exact congrArg (List.cons _) ho
    · refine (h.traced c k hk).succeed hq hp ?_ rfl hother
      rw [hold,hm]
      exact fun he => hne (Option.some.inj he).symm

theorem Formed.handleSuccess (h : m.Formed) {r : Nat} {q : Counted RequestObject}
    (hq : m.requests[r]?=some q) (hp : q.body.pending.isSome=true) :
    Formed (m.handleSuccess r q) := by
  constructor
  · exact h.handleSuccess_kept hq
  · exact forall_mem_set h.requests r
      ⟨(h.requests q (List.mem_of_getElem? hq)).1,fun _ => rfl⟩
  · apply forall_mem_concat h.results
    refine ⟨?_,?_⟩
    · intro h0
      simp only [Counted.new] at h0
      split_ifs at h0
    · intro c hc
      cases hc
  · intro y hy
    obtain ⟨h1,h2,h3⟩ := h.entries y hy
    refine ⟨h1,h2,fun hpos => (h3 hpos).congr fun i hi => ?_⟩
    have hne : i≠m.results.length := by
      intro he
      rw [he,pointer_freshResult] at hi
      cases hi
    rw [handleSuccess_pointer hq,Function.update_of_ne (by simpa using hne),
      Function.update_of_ne (by simp),hi]
  · intro c k hk
    exact h.handleSuccess_traced hq hp hk

/-- A result changes and keeps its chain. -/
theorem Formed.setResult (h : m.Formed) {i : Nat} {x x' : Counted ResultObject}
    (hx : m.results[i]?=some x) (hs : x'.body.searchResult=x.body.searchResult)
    (hz : x'.retainCount=0 → x'.body.searchResult=none)
    (he : ∀c,x'.body.entry=some c → x'.body.searchResult=some c) :
    Formed { m with results := m.results.set i x' } := by
  have hptr : pointer { m with results := m.results.set i x' }=m.pointer := by
    rw [pointer_setResult hx,Function.update_eq_self_iff,pointer_result hx,hs]
  constructor
  · rw [hptr]
    exact h.kept
  · exact h.requests
  · exact forall_mem_set h.results i ⟨hz,he⟩
  · intro y hy
    obtain ⟨h1,h2,h3⟩ := h.entries y hy
    exact ⟨h1,h2,fun hpos => (h3 hpos).congr fun i hi => by rw [hptr,hi]⟩
  · exact h.traced

/-- A result without references frees its chain. No entry is left that retains it. -/
theorem Formed.putResult (h : m.Formed) {i : Nat} {x x' : Counted ResultObject}
    (hx : m.results[i]?=some x) (hb : x'.body=x.body)
    (hfree : x'.retainCount=0 → ∀y∈m.entries,y.body.searchResult≠some i) :
    Formed (m.putResult i x') := by
  have hentry := (h.results x (List.mem_of_getElem? hx)).2
  rw [Memory.putResult]
  split_ifs with h0
  · cases hm : x.body.searchResult with
    | none =>
      have hd : (x'.modify ResultObject.destroy).body=x.body := by
        simp [Counted.modify,ResultObject.destroy,hb,hm]
      rw [hb,hm]
      refine h.setResult hx (by rw [hd]) (fun _ => by rw [hd,hm]) ?_
      rw [hd]
      exact hentry
    | some c =>
      have hd : (x'.modify ResultObject.destroy).body.searchResult=none ∧
          (x'.modify ResultObject.destroy).body.entry=none := by
        simp [Counted.modify,ResultObject.destroy,hb,hm]
      have hold : m.pointer (.result i)=some c := by rw [pointer_result hx,hm]
      have hptr := pointer_setResult hx (x'.modify ResultObject.destroy)
      rw [hd.1] at hptr
      rw [hb,hm]
      constructor
      · have hk := h.kept.free hold
        exact hptr ▸ hk
      · exact h.requests
      · apply forall_mem_set h.results
        refine ⟨fun _ => hd.1,?_⟩
        rw [hd.2]
        simp
      · intro y hy
        obtain ⟨h1,h2,h3⟩ := h.entries y hy
        refine ⟨h1,h2,fun hpos => ?_⟩
        obtain ⟨j,hj,hjp⟩ := h3 hpos
        have hne : j≠i := by
          intro he
          exact hfree h0 y hy (he ▸ hj)
        have hkeep := congrFun hptr (.result j)
        rw [Function.update_of_ne (by simpa using hne)] at hkeep
        exact ⟨j,hj,hkeep.trans hjp⟩
      · intro d k hk
        exact h.traced_free hk
  · exact h.setResult hx (by rw [hb]) (fun hz => absurd hz h0) (by rw [hb]; exact hentry)

end TiLdap.Ios.Memory
