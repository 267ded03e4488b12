import TiLdap.Framework.Lists

namespace TiLdap.Framework

/-- An object with its retain count. `held` of its references are held by the surroundings, the
others by objects of the same heap. -/
structure Counted (β : Type*) where
  body : β
  retainCount : Nat
  held : Nat

namespace Counted

variable {β γ : Type*}

/-- A new object, all of whose references are held by the surroundings. -/
def new (b : β) (n : Nat) : Counted β := ⟨b,n,n⟩

def modify (f : β → β) (x : Counted β) : Counted β := { x with body := f x.body }

def retain (x : Counted β) : Counted β := { x with retainCount := x.retainCount+1 }

def release (x : Counted β) : Counted β := { x with retainCount := x.retainCount-1 }

/-- The surroundings take another reference. -/
def take (x : Counted β) : Counted β := { x.retain with held := x.held+1 }

/-- The surroundings give a reference up. -/
def drop (x : Counted β) : Counted β := { x.release with held := x.held-1 }

/-- How many objects retain object `i`. -/
def holders (retains : β → Option Nat) (inner : List (Counted β)) (i : Nat) : Nat :=
  inner.countP fun x => retains x.body=some i

/-- The count of each object is what the surroundings hold and what objects retain; the objects
that retain retain what is there. -/
structure Balanced (retains : β → Option Nat) (inner : List (Counted β))
    (outer : List (Counted γ)) : Prop where
  count : ∀(i : Nat) (x : Counted γ),outer[i]?=some x →
    x.retainCount=x.held+holders retains inner i
  bounded : ∀y∈inner,∀i,retains y.body=some i → i<outer.length

variable {retains : β → Option Nat} {inner : List (Counted β)} {outer : List (Counted γ)}

theorem balanced_nil : Balanced retains ([] : List (Counted β)) ([] : List (Counted γ)) := by
  constructor <;> simp

theorem holders_append (y : Counted β) (i : Nat) :
    holders retains (inner++[y]) i=
      holders retains inner i+if retains y.body=some i then 1 else 0 := by
  simp [holders,List.countP_singleton]

/-- The object that is replaced counts no more, its replacement does. -/
theorem holders_set (retains : β → Option Nat) {j : Nat} {y : Counted β} (hj : inner[j]?=some y)
    (y' : Counted β) (i : Nat) :
    holders retains (inner.set j y') i+(if retains y.body=some i then 1 else 0)=
      holders retains inner i+if retains y'.body=some i then 1 else 0 := by
  obtain ⟨hlt,hy⟩ := List.getElem?_eq_some_iff.mp hj
  have hpos : retains y.body=some i → 0<holders retains inner i := by
    intro hr
    exact List.countP_pos_iff.mpr ⟨y,List.mem_of_getElem? hj,by simpa using hr⟩
  have hset := List.countP_set (p := fun x => decide (retains x.body=some i)) (a := y') hlt
  rw [hy] at hset
  simp only [decide_eq_true_eq] at hset
  rw [holders,hset]
  rw [holders] at hpos ⊢
  split_ifs with h1 h2 h2
  · have := hpos h1
    omega
  · have := hpos h1
    omega
  · omega
  · omega

theorem Balanced.retained_pos (h : Balanced retains inner outer) {y : Counted β} {i : Nat}
    {x : Counted γ} (hy : y∈inner) (hr : retains y.body=some i) (hx : outer[i]?=some x) :
    x.held<x.retainCount := by
  have hpos : 0<holders retains inner i :=
    List.countP_pos_iff.mpr ⟨y,hy,by simpa using hr⟩
  have hc := h.count i x hx
  omega

/-- The surroundings take or give up references, or an object is changed. -/
theorem Balanced.set_outer (h : Balanced retains inner outer) {i : Nat} {x x' : Counted γ}
    (hx : outer[i]?=some x) (hc : x'.retainCount+x.held=x'.held+x.retainCount) :
    Balanced retains inner (outer.set i x') := by
  constructor
  · intro j z hz
    have hi := h.count i x hx
    rw [List.getElem?_set] at hz
    split_ifs at hz with hij hlt
    · subst hij
      cases hz
      omega
    · exact h.count j z hz
  · rw [List.length_set]
    exact h.bounded

theorem Balanced.append_outer (h : Balanced retains inner outer) (b : γ) (n : Nat) :
    Balanced retains inner (outer++[new b n]) := by
  constructor
  · intro i x hx
    rcases getElem?_concat_cases hx with hx|⟨rfl,rfl⟩
    · exact h.count i x hx
    · -- nothing can retain an object that was not there
      have h0 : holders retains inner outer.length=0 := by
        rw [holders,List.countP_eq_zero]
        intro y hy hr
        exact absurd (h.bounded y hy _ (by simpa using hr)) (Nat.lt_irrefl _)
      rw [h0]
      rfl
  · intro y hy i hi
    have hlt := h.bounded y hy i hi
    simp
    omega

/-- An object is changed and retains what it retained. -/
theorem Balanced.set_inner (h : Balanced retains inner outer) {j : Nat} {y y' : Counted β}
    (hy : inner[j]?=some y) (hr : retains y'.body=retains y.body) :
    Balanced retains (inner.set j y') outer := by
  constructor
  · intro i x hx
    have hs := holders_set retains hy y' i
    rw [hr] at hs
    have hc := h.count i x hx
    omega
  · apply forall_mem_set h.bounded
    intro i hi
    exact h.bounded y (List.mem_of_getElem? hy) i (hr ▸ hi)

/-- A new object retains object `i`. -/
theorem Balanced.adopt (h : Balanced retains inner outer) {i : Nat} {x x' : Counted γ}
    {y : Counted β} (hx : outer[i]?=some x) (hy : retains y.body=some i)
    (hc : x'.retainCount=x.retainCount+1) (hh : x'.held=x.held) :
    Balanced retains (inner++[y]) (outer.set i x') := by
  constructor
  · intro j z hz
    have hi := h.count i x hx
    rw [holders_append,hy]
    rw [List.getElem?_set] at hz
    split_ifs at hz with hij hlt
    · subst hij
      cases hz
      rw [if_pos rfl]
      omega
    · rw [if_neg (by simpa using hij)]
      exact h.count j z hz
  · rw [List.length_set]
    apply forall_mem_concat h.bounded
    intro j hj
    rw [hy] at hj
    cases hj
    exact (List.getElem?_eq_some_iff.mp hx).1

/-- Object `j` gives up object `i`, which it retained. -/
theorem Balanced.disown (h : Balanced retains inner outer) {i j : Nat} {x x' : Counted γ}
    {y y' : Counted β} (hx : outer[i]?=some x) (hy : inner[j]?=some y)
    (hr : retains y.body=some i) (hr' : retains y'.body=none)
    (hc : x'.retainCount=x.retainCount-1) (hh : x'.held=x.held) :
    Balanced retains (inner.set j y') (outer.set i x') := by
  have hpos := h.retained_pos (List.mem_of_getElem? hy) hr hx
  constructor
  · intro l z hz
    have hi := h.count i x hx
    have hs : holders retains (inner.set j y') l+(if i=l then 1 else 0)=
        holders retains inner l := by
      simpa [hr,hr'] using holders_set retains hy y' l
    rw [List.getElem?_set] at hz
    split_ifs at hz with hil hlt
    · subst hil
      cases hz
      rw [if_pos rfl] at hs
      omega
    · rw [if_neg hil] at hs
      have hl := h.count l z hz
      omega
  · rw [List.length_set]
    apply forall_mem_set h.bounded
    intro l hl
    rw [hr'] at hl
    cases hl

end Counted

/-- The record of a resource: its last owner, the owners before (newest first) and how often it
was freed. -/
structure Custody (ω : Type*) where
  keeper : ω
  former : List ω := []
  freed : Nat := 0

namespace Custody

variable {ω : Type*}

/-- All that ever owned the resource. -/
def owners (k : Custody ω) : List ω := k.keeper::k.former

def transfer (o : ω) (k : Custody ω) : Custody ω :=
  { k with keeper := o, former := k.keeper::k.former }

def free (k : Custody ω) : Custody ω := { k with freed := k.freed+1 }

/-- Objects point at resources, which are named by their place in a table. A pointer leads from
the owner to a resource that is there, and what is not freed has a pointer from its owner. -/
structure Kept (ptr : ω → Option Nat) (table : List (Custody ω)) : Prop where
  pointed : ∀(o : ω) (c : Nat),ptr o=some c →
    ∃k : Custody ω,table[c]?=some k ∧ k.keeper=o ∧ k.freed=0
  once : ∀(c : Nat) (k : Custody ω),table[c]?=some k → k.freed≤1
  held : ∀(c : Nat) (k : Custody ω),table[c]?=some k → k.freed=0 → ptr k.keeper=some c

variable {ptr : ω → Option Nat} {table : List (Custody ω)}

theorem kept_nil : Kept (fun _ : ω => none) [] := by
  constructor <;> simp

theorem Kept.single (h : Kept ptr table) {c : Nat} {o o' : ω} (ho : ptr o=some c)
    (ho' : ptr o'=some c) : o=o' := by
  obtain ⟨k,hk,rfl,-⟩ := h.pointed o c ho
  obtain ⟨k',hk',rfl,-⟩ := h.pointed o' c ho'
  rw [hk] at hk'
  cases hk'
  rfl

/-- Two owners point at two resources. -/
theorem Kept.ne_resource (h : Kept ptr table) {o p : ω} {c d : Nat} (ho : ptr o=some c)
    (hd : ptr p=some d) (hp : p≠o) : c≠d := by
  intro he
  subst he
  exact hp (h.single hd ho)

theorem ne_of_pointer {o p : ω} {x : Option Nat} {d : Nat} (ho : ptr o=x) (hp : ptr p=some d)
    (hx : x≠some d) : p≠o := by
  intro he
  subst he
  exact hx (ho.symm.trans hp)

variable [DecidableEq ω]

/-- An object without a pointer comes to own a new resource. -/
theorem Kept.acquire (h : Kept ptr table) {o : ω} (ho : ptr o=none) :
    Kept (Function.update ptr o (some table.length)) (table++[{ keeper := o }]) := by
  constructor
  · intro o' c hc
    by_cases he : o'=o
    · subst he
      rw [Function.update_self] at hc
      cases hc
      exact ⟨_,List.getElem?_concat_length,rfl,rfl⟩
    · rw [Function.update_of_ne he] at hc
      obtain ⟨k,hk,hko,hf⟩ := h.pointed o' c hc
      exact ⟨k,getElem?_append_of hk _,hko,hf⟩
  · intro c k hk
    rcases getElem?_concat_cases hk with hk|⟨-,rfl⟩
    · exact h.once c k hk
    · exact Nat.zero_le 1
  · intro c k hk hf
    rcases getElem?_concat_cases hk with hk|⟨rfl,rfl⟩
    · have hp := h.held c k hk hf
      rw [Function.update_of_ne (ne_of_pointer ho hp (by simp)),hp]
    · exact Function.update_self _ _ _

/-- The owner gives its resource up to an object without a pointer. -/
theorem Kept.transfer (h : Kept ptr table) {o o' : ω} {c : Nat} (ho : ptr o=some c)
    (ho' : ptr o'=none) :
    Kept (Function.update (Function.update ptr o none) o' (some c))
      (table.modify c (Custody.transfer o')) := by
  constructor
  · intro p d hd
    by_cases hp' : p=o'
    · subst hp'
      rw [Function.update_self] at hd
      cases hd
      obtain ⟨k,hk,-,hf⟩ := h.pointed o c ho
      exact ⟨k.transfer p,by rw [List.getElem?_modify_eq,hk]; rfl,rfl,hf⟩
    · rw [Function.update_of_ne hp'] at hd
      have hp : p≠o := by
        intro he
        rw [he,Function.update_self] at hd
        cases hd
      rw [Function.update_of_ne hp] at hd
      have hne := h.ne_resource ho hd hp
      obtain ⟨k,hk,hko,hf⟩ := h.pointed p d hd
      exact ⟨k,by rw [List.getElem?_modify_ne _ _ hne,hk],hko,hf⟩
  · intro d k hk
    rcases getElem?_modify_cases hk with ⟨-,k₀,hk₀,rfl⟩|⟨-,hk⟩
    · exact h.once c k₀ hk₀
    · exact h.once d k hk
  · intro d k hk hf
    rcases getElem?_modify_cases hk with ⟨rfl,k₀,hk,rfl⟩|⟨hne,hk⟩
    · exact Function.update_self _ _ _
    · have hp := h.held d k hk hf
      have hp' : k.keeper≠o' := ne_of_pointer ho' hp (by simp)
      have hpo : k.keeper≠o := ne_of_pointer ho hp (by simpa using Ne.symm hne)
      rw [Function.update_of_ne hp',Function.update_of_ne hpo,hp]

/-- The owner frees its resource and drops its pointer. -/
theorem Kept.free (h : Kept ptr table) {o : ω} {c : Nat} (ho : ptr o=some c) :
    Kept (Function.update ptr o none) (table.modify c Custody.free) := by
  constructor
  · intro p d hd
    have hp : p≠o := by
      intro he
      rw [he,Function.update_self] at hd
      cases hd
    rw [Function.update_of_ne hp] at hd
    have hne := h.ne_resource ho hd hp
    obtain ⟨k,hk,hko,hf⟩ := h.pointed p d hd
    exact ⟨k,by rw [List.getElem?_modify_ne _ _ hne,hk],hko,hf⟩
  · intro d k hk
    rcases getElem?_modify_cases hk with ⟨-,k₀,hk₀,rfl⟩|⟨-,hk⟩
    · obtain ⟨k,hk',-,hf⟩ := h.pointed o c ho
      rw [hk₀] at hk'
      cases hk'
      show k₀.freed+1≤1
      omega
    · exact h.once d k hk
  · intro d k hk hf
    rcases getElem?_modify_cases hk with ⟨rfl,k₀,-,rfl⟩|⟨hne,hk⟩
    · exact absurd hf (Nat.succ_ne_zero _)
    · have hp := h.held d k hk hf
      have hpo : k.keeper≠o := ne_of_pointer ho hp (by simpa using Ne.symm hne)
      rw [Function.update_of_ne hpo,hp]

end Custody

end TiLdap.Framework
