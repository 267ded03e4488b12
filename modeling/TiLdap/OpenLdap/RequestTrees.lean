import TiLdap.OpenLdap.Responses

namespace TiLdap.OpenLdap

open Framework Lber

/-- A child that its parent still has to wait for. -/
def pending (p : Nat) (c : Request) : Bool :=
  c.parent=some p && (c.status≠.completed || 0< c.outrefcnt)

theorem parent_of_pending {p : Nat} {c : Request} (h : pending p c=true) : c.parent=some p := by
  by_contra hn
  simp [pending,hn] at h

/-- The requests of a session, newest first, up to the id `n`. Children are newer than their
parents, and a request counts at least the children that it waits for. Only results are referred
on from below a root, so that a child with children is completed, with the exception of `x`, whose
result is being read. -/
structure Forest (x n : Nat) (l : List Request) : Prop where
  sorted : l.Pairwise fun a b => b.msgid<a.msgid
  bound : ∀r∈l,r.msgid≤n
  root : ∀r∈l,r.parent=none → r.origid=r.msgid
  child : ∀r∈l,∀p,r.parent=some p → ∃q∈l,q.msgid=p ∧ q.origid=r.origid ∧ p< r.msgid
  orig : ∀r∈l,∃q∈l,q.msgid=r.origid ∧ q.parent=none
  counted : ∀p∈l,(l.countP (pending p.msgid) : Int)≤p.outrefcnt
  inner : ∀r∈l,r.parent≠none → r.msgid≠x → 0< r.outrefcnt → r.status=.completed

section Requests

variable {x n : Nat} {l : List Request}

theorem forest_nil (x n : Nat) : Forest x n [] where
  sorted := .nil
  bound := by simp
  root := by simp
  child := by simp
  orig := by simp
  counted := by simp
  inner := by simp

theorem Forest.eq_of_msgid (h : Forest x n l) {r q : Request} (hr : r∈l) (hq : q∈l)
    (he : r.msgid=q.msgid) : r=q := by
  have hs := h.sorted
  clear h
  induction l with
  | nil => cases hr
  | cons a l ih =>
    obtain ⟨ha,hs⟩ := List.pairwise_cons.mp hs
    rcases List.mem_cons.mp hr with h1|h1
    · rcases List.mem_cons.mp hq with h2|h2
      · rw [h1,h2]
      · have hlt := ha q h2
        rw [← h1] at hlt
        omega
    · rcases List.mem_cons.mp hq with h2|h2
      · have hlt := ha r h1
        rw [← h2] at hlt
        omega
      · exact ih h1 h2 hs

theorem Forest.find (h : Forest x n l) {r : Request} (hr : r∈l) :
    l.find? (·.msgid=r.msgid)=some r := by
  cases hf : l.find? (·.msgid=r.msgid) with
  | none =>
    have hn := List.find?_eq_none.mp hf r hr
    simp at hn
  | some q =>
    have hq := List.find?_some hf
    rw [h.eq_of_msgid (List.mem_of_find?_eq_some hf) hr (by simpa using hq)]

theorem Forest.mono (h : Forest x n l) {k : Nat} (hk : n≤k) : Forest x k l :=
  { h with bound := fun r hr => (h.bound r hr).trans hk }

/-- No child has the id 0, so that it exempts none. -/
theorem Forest.exempt (h : Forest 0 n l) (x : Nat) : Forest x n l := by
  refine { h with inner := fun r hr hp _ hout => h.inner r hr hp ?_ hout }
  intro h0
  obtain ⟨p,hp⟩ := Option.ne_none_iff_exists'.mp hp
  obtain ⟨-,-,-,-,hlt⟩ := h.child r hr p hp
  omega

/-- A change that leaves a request in its place among the others. -/
structure Kept (r r' : Request) : Prop where
  msgid : r'.msgid=r.msgid
  origid : r'.origid=r.origid
  parent : r'.parent=r.parent

section Images

variable {g : Request → Request}

theorem Forest.sorted_map (h : Forest x n l) (hg : ∀r∈l,Kept r (g r)) :
    (l.map g).Pairwise fun a b => b.msgid<a.msgid := by
  rw [List.pairwise_map]
  refine h.sorted.imp_of_mem ?_
  intro a b ha hb hlt
  rw [(hg a ha).msgid,(hg b hb).msgid]
  exact hlt

theorem Forest.bound_map (h : Forest x n l) (hg : ∀r∈l,Kept r (g r)) : ∀r∈l.map g,r.msgid≤n := by
  rw [List.forall_mem_map]
  intro r hr
  rw [(hg r hr).msgid]
  exact h.bound r hr

theorem Forest.root_map (h : Forest x n l) (hg : ∀r∈l,Kept r (g r)) :
    ∀r∈l.map g,r.parent=none → r.origid=r.msgid := by
  rw [List.forall_mem_map]
  intro r hr hp
  rw [(hg r hr).parent] at hp
  rw [(hg r hr).origid,(hg r hr).msgid]
  exact h.root r hr hp

theorem Forest.child_map (h : Forest x n l) (hg : ∀r∈l,Kept r (g r)) :
    ∀r∈l.map g,∀p,r.parent=some p → ∃q∈l.map g,q.msgid=p ∧ q.origid=r.origid ∧ p< r.msgid := by
  rw [List.forall_mem_map]
  intro r hr p hp
  rw [(hg r hr).parent] at hp
  obtain ⟨q,hq,h1,h2,h3⟩ := h.child r hr p hp
  refine ⟨g q,List.mem_map_of_mem hq,(hg q hq).msgid.trans h1,?_,?_⟩
  · rw [(hg q hq).origid,(hg r hr).origid,h2]
  · rwa [(hg r hr).msgid]

/-- The request that stands at the start of a chain of referrals stays there. -/
theorem Forest.orig_map (h : Forest x n l) (hg : ∀r∈l,Kept r (g r)) :
    ∀r∈l,∃q∈l.map g,q.msgid=r.origid ∧ q.parent=none := by
  intro r hr
  obtain ⟨q,hq,h1,h2⟩ := h.orig r hr
  exact ⟨g q,List.mem_map_of_mem hq,(hg q hq).msgid.trans h1,(hg q hq).parent.trans h2⟩

end Images

/-- A change that may take a request further to its end. -/
structure Tame (r r' : Request) : Prop extends Kept r r' where
  outrefcnt : r'.outrefcnt≤ r.outrefcnt
  status : r.status=.completed → r'.status=.completed

theorem Tame.pending {r r' : Request} (h : Tame r r') {p : Nat}
    (hp : OpenLdap.pending p r'=true) : OpenLdap.pending p r=true := by
  have hpar : r.parent=some p := h.parent ▸ parent_of_pending hp
  have hle := h.outrefcnt
  by_cases hs : r.status=.completed
  · have hout : 0< r'.outrefcnt := by simpa [OpenLdap.pending,h.parent,hpar,h.status hs] using hp
    have hout' : 0< r.outrefcnt := by omega
    simp [OpenLdap.pending,hpar,hout']
  · simp [OpenLdap.pending,hpar,hs]

/-- Requests may go on as long as each still counts the children that it waits for. -/
theorem Forest.map (h : Forest x n l) {g : Request → Request} (hg : ∀r∈l,Tame r (g r))
    (hcount : ∀p∈l,((l.map g).countP (pending p.msgid) : Int)≤(g p).outrefcnt) :
    Forest x n (l.map g) := by
  have hk : ∀r∈l,Kept r (g r) := fun r hr => (hg r hr).toKept
  refine ⟨h.sorted_map hk,h.bound_map hk,h.root_map hk,h.child_map hk,?orig,?counted,?inner⟩ <;>
    rw [List.forall_mem_map] <;> intro r hr
  case orig =>
    rw [(hg r hr).origid]
    exact h.orig_map hk r hr
  case counted =>
    rw [(hg r hr).msgid]
    exact hcount r hr
  case inner =>
    intro hp hx hout
    have hc := hg r hr
    have hle := hc.outrefcnt
    rw [hc.parent] at hp
    rw [hc.msgid] at hx
    exact hc.status (h.inner r hr hp hx (by omega))

/-- A change of a request that its relatives do not notice. -/
structure Calm (r r' : Request) : Prop extends Kept r r' where
  outrefcnt : r'.outrefcnt=r.outrefcnt
  status : r.status=.completed → r'.status=.completed

theorem Calm.refl (r : Request) : Calm r r := ⟨⟨rfl,rfl,rfl⟩,rfl,id⟩

theorem Calm.tame {r r' : Request} (h : Calm r r') : Tame r r' :=
  ⟨h.toKept,h.outrefcnt.le,h.status⟩

theorem Forest.calm (h : Forest x n l) {g : Request → Request} (hg : ∀r∈l,Calm r (g r)) :
    Forest x n (l.map g) := by
  refine h.map (fun r hr => (hg r hr).tame) ?_
  intro p hp
  rw [(hg p hp).outrefcnt,List.countP_map]
  have hle : l.countP (pending p.msgid∘g)≤ l.countP (pending p.msgid) :=
    List.countP_mono_left fun c hm hpc => (hg c hm).tame.pending hpc
  have hcount := h.counted p hp
  omega

theorem Forest.set (h : Forest x n l) {m : Nat} {f : Request → Request}
    (hf : ∀r∈l,r.msgid=m → Calm r (f r)) : Forest x n (setRequest m f l) := by
  apply h.calm
  intro r hr
  split
  · exact hf r hr (by assumption)
  · exact .refl r

/-- How a request changes when `c` is added, possibly as its child. -/
structure Grown (x : Nat) (c r r' : Request) : Prop extends Kept r r' where
  outrefcnt : r.outrefcnt+(if c.parent=some r.msgid then 1 else 0)≤ r'.outrefcnt
  pending : ∀p,OpenLdap.pending p r'=true → OpenLdap.pending p r=true
  inner : r.parent≠none → r.msgid≠x → 0< r'.outrefcnt → r'.status=.completed

section Growing

variable {c : Request} {g : Request → Request}

/-- No request waits for one with a new id to be answered on its behalf. -/
theorem Forest.counted_new (h : Forest x n l) (hid : n< c.msgid)
    (hchild : ∀p,c.parent=some p → ∃q∈l,q.msgid=p ∧ q.origid=c.origid)
    (hg : ∀r∈l,Kept r (g r)) : (c::l.map g).countP (pending c.msgid)=0 := by
  have hnew : ∀q∈l,q.msgid≠c.msgid := by
    intro q hq
    have hb := h.bound q hq
    omega
  rw [List.countP_eq_zero,List.forall_mem_cons,List.forall_mem_map]
  constructor
  · intro hp
    obtain ⟨q,hq,h1,-⟩ := hchild _ (parent_of_pending hp)
    exact hnew q hq h1
  · intro r hr hp
    have hpar := parent_of_pending hp
    rw [(hg r hr).parent] at hpar
    obtain ⟨q,hq,h1,-⟩ := h.child r hr _ hpar
    exact hnew q hq h1

/-- The parent of the new request counts it, and the others count what they did. -/
theorem Forest.counted_grow (h : Forest x n l) (hg : ∀r∈l,Grown x c r (g r)) {p : Request}
    (hp : p∈l) : ((c::l.map g).countP (pending p.msgid) : Int)≤(g p).outrefcnt := by
  have hle : (l.map g).countP (pending p.msgid)≤ l.countP (pending p.msgid) := by
    rw [List.countP_map]
    exact List.countP_mono_left fun r hr hpr => (hg r hr).pending _ hpr
  have hcount := h.counted p hp
  have hmore := (hg p hp).outrefcnt
  rw [List.countP_cons]
  by_cases hc : pending p.msgid c=true
  · rw [if_pos (parent_of_pending hc)] at hmore
    rw [if_pos hc]
    omega
  · rw [if_neg hc]
    split at hmore <;> omega

theorem Forest.grow (h : Forest x n l) (hid : n< c.msgid) (hout : c.outrefcnt=0)
    (hroot : c.parent=none → c.origid=c.msgid)
    (hchild : ∀p,c.parent=some p → ∃q∈l,q.msgid=p ∧ q.origid=c.origid)
    (hg : ∀r∈l,Grown x c r (g r)) : Forest x c.msgid (c::l.map g) := by
  have hk : ∀r∈l,Kept r (g r) := fun r hr => (hg r hr).toKept
  have hlt : ∀r∈l.map g,r.msgid< c.msgid := by
    intro r hr
    have hb := h.bound_map hk r hr
    omega
  refine ⟨List.pairwise_cons.mpr ⟨hlt,h.sorted_map hk⟩,?bound,?root,?child,?orig,?counted,?inner⟩
    <;> rw [List.forall_mem_cons]
  case bound => exact ⟨Nat.le_refl _,fun r hr => (hlt r hr).le⟩
  case root => exact ⟨hroot,h.root_map hk⟩
  case child =>
    constructor
    · intro p hp
      obtain ⟨q,hq,h1,h2⟩ := hchild p hp
      have hb := h.bound q hq
      exact ⟨g q,List.mem_cons_of_mem _ (List.mem_map_of_mem hq),(hg q hq).msgid.trans h1,
        (hg q hq).origid.trans h2,by omega⟩
    · intro r hr p hp
      obtain ⟨q,hq,hrest⟩ := h.child_map hk r hr p hp
      exact ⟨q,List.mem_cons_of_mem _ hq,hrest⟩
  case orig =>
    have horig : ∀r∈l,∃q∈c::l.map g,q.msgid=r.origid ∧ q.parent=none := by
      intro r hr
      obtain ⟨q,hq,hrest⟩ := h.orig_map hk r hr
      exact ⟨q,List.mem_cons_of_mem _ hq,hrest⟩
    constructor
    · cases hp : c.parent with
      | none => exact ⟨c,List.mem_cons_self,(hroot hp).symm,hp⟩
      | some p =>
        obtain ⟨q,hq,-,h2⟩ := hchild p hp
        rw [← h2]
        exact horig q hq
    · rw [List.forall_mem_map]
      intro r hr
      rw [(hg r hr).origid]
      exact horig r hr
  case counted =>
    constructor
    · rw [h.counted_new hid hchild hk,hout]
      rfl
    · rw [List.forall_mem_map]
      intro r hr
      rw [(hg r hr).msgid]
      exact h.counted_grow hg hr
  case inner =>
    constructor
    · intro _ _ hpos
      omega
    · rw [List.forall_mem_map]
      intro r hr hp hx hpos
      rw [(hg r hr).parent] at hp
      rw [(hg r hr).msgid] at hx
      exact (hg r hr).inner hp hx hpos

end Growing

/-- All requests on behalf of one operation are taken away. -/
theorem Forest.prune (h : Forest x n l) (m : Nat) : Forest x n (l.filter (·.origid≠m)) where
  sorted := h.sorted.sublist List.filter_sublist
  bound r hr := h.bound r (List.mem_filter.mp hr).1
  root r hr := h.root r (List.mem_filter.mp hr).1
  child := by
    intro r hr p hp
    obtain ⟨hr,ho⟩ := List.mem_filter.mp hr
    obtain ⟨q,hq,h1,h2,h3⟩ := h.child r hr p hp
    exact ⟨q,List.mem_filter.mpr ⟨hq,h2 ▸ ho⟩,h1,h2,h3⟩
  orig := by
    intro r hr
    obtain ⟨hr,ho⟩ := List.mem_filter.mp hr
    obtain ⟨q,hq,h1,h2⟩ := h.orig r hr
    refine ⟨q,List.mem_filter.mpr ⟨hq,?_⟩,h1,h2⟩
    rw [h.root q hq h2,h1]
    exact ho
  counted := by
    intro p hp
    have hcount := h.counted p (List.mem_filter.mp hp).1
    have hle : (l.filter (·.origid≠m)).countP (pending p.msgid)≤ l.countP (pending p.msgid) :=
      List.filter_sublist.countP_le
    omega
  inner r hr := h.inner r (List.mem_filter.mp hr).1

end Requests

section Freeing

theorem mem_lineage {m i : Nat} {l : List Request} (h : i∈lineage m l) : ∃r∈l,r.msgid=i := by
  induction l with
  | nil => cases h
  | cons a l ih =>
    rw [lineage] at h
    have hin : i∈lineage m l → ∃r∈a::l,r.msgid=i := fun hi => by
      obtain ⟨r,hr,he⟩ := ih hi
      exact ⟨r,List.mem_cons_of_mem a hr,he⟩
    split at h
    · rcases List.mem_cons.mp h with rfl|h
      · exact ⟨a,List.mem_cons_self,rfl⟩
      · exact hin h
    · exact hin h

theorem lineage_eq_nil {m : Nat} {l : List Request} (h : ∀r∈l,r.msgid≠m) : lineage m l=[] := by
  induction l with
  | nil => rfl
  | cons a l ih =>
    rw [lineage,ih fun r hr => h r (List.mem_cons_of_mem a hr)]
    have ha := h a List.mem_cons_self
    simp [ha]

/-- Below the root of an operation are all requests on its behalf. -/
theorem mem_lineage_iff {m : Nat} {l : List Request}
    (sorted : l.Pairwise fun a b => b.msgid<a.msgid)
    (root : ∀r∈l,r.parent=none → r.origid=r.msgid)
    (child : ∀r∈l,∀p,r.parent=some p → ∃q∈l,q.msgid=p ∧ q.origid=r.origid ∧ p< r.msgid)
    (hm : ∀r∈l,r.msgid=m → r.parent=none) {r : Request} (hr : r∈l) :
    r.msgid∈lineage m l ↔ r.origid=m := by
  induction l generalizing r with
  | nil => cases hr
  | cons a l ih =>
    obtain ⟨ha,sorted'⟩ := List.pairwise_cons.mp sorted
    have child' : ∀r∈l,∀p,r.parent=some p → ∃q∈l,q.msgid=p ∧ q.origid=r.origid ∧ p< r.msgid := by
      intro s hs p hp
      obtain ⟨q,hq,h1,h2,h3⟩ := child s (List.mem_cons_of_mem a hs) p hp
      rcases List.mem_cons.mp hq with rfl|hq
      · have hlt := ha s hs
        omega
      · exact ⟨q,hq,h1,h2,h3⟩
    have ih : ∀q∈l,(q.msgid∈lineage m l ↔ q.origid=m) := fun q hq =>
      ih sorted' (fun s hs => root s (List.mem_cons_of_mem a hs)) child'
        (fun s hs => hm s (List.mem_cons_of_mem a hs)) hq
    have hnot : a.msgid∉ lineage m l := by
      intro hi
      obtain ⟨q,hq,he⟩ := mem_lineage hi
      have hlt := ha q hq
      omega
    have hcond : (a.msgid=m ∨ a.parent.any (·∈lineage m l)) ↔ a.origid=m := by
      cases hp : a.parent with
      | none =>
        rw [root a List.mem_cons_self hp]
        simp
      | some p =>
        obtain ⟨q,hq,h1,h2,h3⟩ := child a List.mem_cons_self p hp
        have hne : a.msgid≠m := fun he => by
          have hn := hm a List.mem_cons_self he
          rw [hp] at hn
          cases hn
        rcases List.mem_cons.mp hq with rfl|hq
        · omega
        · have hi := ih q hq
          rw [h1,h2] at hi
          simpa [hne] using hi
    rcases List.mem_cons.mp hr with rfl|hr
    · rw [lineage,← hcond]
      split
      · rename_i hc
        simp [hc]
      · rename_i hc
        simp [hc,hnot]
    · have hne : r.msgid≠a.msgid := (ha r hr).ne
      rw [← ih r hr,lineage]
      split
      · simp [hne]
      · rfl

/-- Freeing a root takes all requests on its behalf away, and nothing else. -/
theorem ldapFreeRequest_root {x : Nat} {ld : Ld} (h : Forest x ld.msgid ld.requests)
    {lr : Request} (hr : lr∈ld.requests) (hp : lr.parent=none) :
    ldapFreeRequest lr ld={ ld with requests := ld.requests.filter (·.origid≠lr.msgid) } := by
  rw [ldapFreeRequest,hp]
  dsimp only
  congr 1
  apply List.filter_congr
  intro r hm
  have hroot : ∀r∈ld.requests,r.msgid=lr.msgid → r.parent=none := by
    intro r hr' he
    rw [h.eq_of_msgid hr' hr he,hp]
  simp [mem_lineage_iff h.sorted h.root h.child hroot hm]

end Freeing

end TiLdap.OpenLdap
