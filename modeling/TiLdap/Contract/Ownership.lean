import TiLdap.Contract.Sessions
import TiLdap.Ios.Lifetimes

namespace TiLdap

open Framework OpenLdap

namespace Ios.Memory

/-- `dealloc` has run `_destroy` on the object. -/
def Destroyed (m : Memory) : Object → Prop
  | .request r => ∃q,m.requests[r]?=some q ∧ q.retainCount=0
  | .result i => ∃x,m.results[i]?=some x ∧ x.retainCount=0
  | .entry j => ∃y,m.entries[j]?=some y ∧ y.retainCount=0

/-- How the proxies own the chains. -/
structure Owned (m : Memory) : Prop where
  single : ∀(c : ChainId) (o o' : Object),m.pointer o=some c → m.pointer o'=some c → o=o'
  /-- The request that obtained a chain owned it until it handled success, and nothing but one
  search result afterwards. -/
  handover : ∀(c : ChainId) (k : Custody Object),m.chains[c]?=some k →
    ∃(r : Nat) (q : Counted RequestObject),m.requests[r]?=some q ∧
      (if q.body.succeeded then ∃i,k.owners=[.result i,.request r] else k.owners=[.request r])
  keeper : ∀(c : ChainId) (o : Object),m.pointer o=some c →
    ∃k : Custody Object,m.chains[c]?=some k ∧ o=k.keeper ∧ k.freed=0
  once : ∀(c : ChainId) (k : Custody Object),m.chains[c]?=some k →
    k.freed≤1 ∧ ((∀o∈k.owners,m.Destroyed o) → k.freed=1)
  entries : ∀y∈m.entries,0<y.retainCount →
    ∃k : Custody Object,m.chains[y.body.entry]?=some k ∧ k.freed=0

/-- A destroyed object owns nothing. -/
theorem Formed.destroyed_pointer {m : Memory} (h : m.Formed) {o : Object} (ho : m.Destroyed o) :
    m.pointer o=none := by
  cases o with
  | request r =>
    obtain ⟨q,hq,h0⟩ := ho
    rw [pointer_request hq,(h.requests q (List.mem_of_getElem? hq)).2 h0]
    rfl
  | result i =>
    obtain ⟨x,hx,h0⟩ := ho
    rw [pointer_result hx,(h.results x (List.mem_of_getElem? hx)).1 h0]
  | entry j => rfl

theorem Formed.freed_of_destroyed {m : Memory} (h : m.Formed) {c : ChainId} {k : Custody Object}
    (hk : m.chains[c]?=some k) (hd : m.Destroyed k.keeper) : k.freed=1 := by
  have hle := h.kept.once c k hk
  by_contra hne
  have hp := h.kept.held c k hk (by omega)
  rw [h.destroyed_pointer hd] at hp
  cases hp

theorem Formed.owned {m : Memory} (h : m.Formed) : m.Owned := by
  constructor
  · intro c o o' ho ho'
    exact h.kept.single ho ho'
  · intro c k hk
    obtain ⟨r,q,hq,⟨hs,ho,-⟩|⟨hs,i,ho⟩⟩ := h.traced c k hk
    · exact ⟨r,q,hq,by simpa [hs] using ho⟩
    · exact ⟨r,q,hq,by simpa [hs] using ⟨i,ho⟩⟩
  · intro c o ho
    obtain ⟨k,hk,he,hf⟩ := h.kept.pointed o c ho
    exact ⟨k,hk,he.symm,hf⟩
  · intro c k hk
    refine ⟨h.kept.once c k hk,?_⟩
    intro hd
    exact h.freed_of_destroyed hk (hd k.keeper List.mem_cons_self)
  · intro y hy hpos
    obtain ⟨i,-,hp⟩ := (h.entries y hy).2.2 hpos
    obtain ⟨k,hk,-,hf⟩ := h.kept.pointed _ _ hp
    exact ⟨k,hk,hf⟩

/-- When the surroundings have let go of everything, every object is destroyed and every chain
freed. -/
theorem Sound.released {m : Memory} (h : m.Sound) (hq : ∀q∈m.requests,q.held=0)
    (hx : ∀x∈m.results,x.held=0) (hy : ∀y∈m.entries,y.held=0) :
    ∀(c : ChainId) (k : Custody Object),m.chains[c]?=some k → k.freed=1 := by
  have requests : ∀r q,m.requests[r]?=some q → m.Destroyed (.request r) := by
    intro r q hr
    have hmem := List.mem_of_getElem? hr
    exact ⟨q,hr,(h.requests q hmem).1.trans (hq q hmem)⟩
  have results : ∀i x,m.results[i]?=some x → m.Destroyed (.result i) := by
    intro i x hi
    have hc := h.balanced.count i x hi
    have h0 : Counted.holders EntryObject.searchResult m.entries i=0 := by
      rw [Counted.holders,List.countP_eq_zero]
      intro y hmem
      obtain ⟨hn,hz,-⟩ := h.entries y hmem
      rw [hz (hn.trans (hy y hmem))]
      simp
    rw [h0,hx x (List.mem_of_getElem? hi)] at hc
    exact ⟨x,hi,hc⟩
  intro c k hk
  have hle := h.kept.once c k hk
  by_cases hf : k.freed=0
  · have hp := h.kept.held c k hk hf
    apply h.toFormed.freed_of_destroyed hk
    cases ho : k.keeper with
    | request r =>
      rw [ho] at hp
      obtain ⟨q,hr,-⟩ := Option.bind_eq_some_iff.mp hp
      exact requests r q hr
    | result i =>
      rw [ho] at hp
      obtain ⟨x,hi,-⟩ := Option.bind_eq_some_iff.mp hp
      exact results i x hi
    | entry j =>
      rw [ho] at hp
      cases hp
  · omega

end Ios.Memory

/-- In every state of every run, each chain has at most one owner, is freed once when the proxies
that owned it are destroyed, and is not freed under an entry. -/
theorem chains_owned (t : TlsOptions) (es : List Ios.Event) :
    Always Ios.Memory.step Ios.Memory.Owned (Ios.Memory.start t) es := by
  intro n
  have h := always_of_inductive Ios.Memory.step_sound (Ios.Memory.sound_start t) es n
  exact h.toFormed.owned

/-- A chain outlives its result in the hands of the application for as long as an entry is alive. -/
example :
    let c : OpenLdap.Chain := ⟨[.entry ⟨"cn=a",[]⟩],some 0⟩
    let m := run Ios.Memory.step (Ios.Memory.start {})
      [.call ⟨0,Ios.connects none,false⟩,.call ⟨0,Ios.binds,false⟩,
        .call ⟨0,.search {} ⟨true,true⟩ ⟨.sent 0 false,.read c⟩,false⟩,.handle 2,
        .resultCall 0 .firstEntry,.release (.result 0),.release (.result 0),.release (.request 2)]
    m.chains.map Custody.freed=[0] ∧
      (Ios.Memory.step m (.release (.entry 0))).chains.map Custody.freed=[1] := by
  decide

end TiLdap
