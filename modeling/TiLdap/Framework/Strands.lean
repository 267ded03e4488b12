import Mathlib.Data.List.Nodup

namespace TiLdap.Framework

/-- A chain of at least one item. -/
structure Strand (β : Type*) where
  first : β
  rest : List β
  deriving DecidableEq, Repr

namespace Strand

variable {β : Type*}

def items (c : Strand β) : List β := c.first::c.rest

def last (c : Strand β) : β := c.rest.getLastD c.first

def add (c : Strand β) (x : β) : Strand β := ⟨c.first,c.rest++[x]⟩

/-- What is left of a chain without its first item. -/
def next (c : Strand β) : Option (Strand β) :=
  match c.rest with
  | [] => none
  | x::l => some ⟨x,l⟩

@[simp] theorem items_add (c : Strand β) (x : β) : (c.add x).items=c.items++[x] := rfl

theorem items_of_next {c d : Strand β} (h : c.next=some d) : c.items=c.first::d.items := by
  obtain ⟨x,l⟩ := c
  cases l with
  | nil => cases h
  | cons y l =>
    cases h
    rfl

theorem getLast?_items (c : Strand β) : c.items.getLast?=some c.last := by
  rw [items,List.getLast?_cons,last,List.getLastD_eq_getLast?]

end Strand

section Bundles

variable {β κ : Type*} (key : β → κ)

/-- Each chain is under one key, and each key has one chain. -/
structure Bundled (cs : List (Strand β)) : Prop where
  uniform : ∀c∈cs,∀x∈c.items,key x=key c.first
  distinct : (cs.map fun c => key c.first).Nodup

variable {key}

theorem bundled_nil : Bundled key [] := ⟨by simp,by simp⟩

theorem Bundled.tail {c : Strand β} {cs : List (Strand β)} (h : Bundled key (c::cs)) :
    Bundled key cs :=
  ⟨fun d hd => h.uniform d (List.mem_cons_of_mem c hd),(List.nodup_cons.mp h.distinct).2⟩

theorem Bundled.head {c : Strand β} {cs : List (Strand β)} (h : Bundled key (c::cs)) :
    ∀x∈c.items,key x=key c.first := h.uniform c List.mem_cons_self

theorem Bundled.head_ne {c d : Strand β} {cs : List (Strand β)} (h : Bundled key (c::cs))
    (hd : d∈cs) : key d.first≠key c.first := fun he =>
  (List.nodup_cons.mp h.distinct).1 (List.mem_map.mpr ⟨d,hd,he⟩)

/-- Chains are put together where the first one is of one key that no other has. -/
theorem Bundled.cons {c : Strand β} {cs : List (Strand β)} (h : Bundled key cs)
    (hc : ∀x∈c.items,key x=key c.first) (hn : ∀d∈cs,key d.first≠key c.first) :
    Bundled key (c::cs) := by
  constructor
  · intro d hd
    rcases List.mem_cons.mp hd with rfl|hd
    · exact hc
    · exact h.uniform d hd
  · rw [List.map_cons,List.nodup_cons]
    refine ⟨?_,h.distinct⟩
    intro hm
    obtain ⟨d,hd,he⟩ := List.mem_map.mp hm
    exact hn d hd he

end Bundles

variable {β κ : Type*} [DecidableEq κ] (key : β → κ)

/-- The items under a key, in the order of their chains. -/
def held (cs : List (Strand β)) (k : κ) : List β := (cs.flatMap Strand.items).filter (key ·=k)

/-- The first chain under a key, and the others. -/
def takeKey (k : κ) : List (Strand β) → Option (Strand β × List (Strand β))
  | [] => none
  | c::cs => if key c.first=k then some (c,cs) else (takeKey k cs).map fun p => (p.1,c::p.2)

/-- An item put at the end of the first chain under its key, if there is one. -/
def extend (x : β) : List (Strand β) → Option (List (Strand β))
  | [] => none
  | c::cs => if key c.first=key x then some (c.add x::cs) else (extend x cs).map (c::·)

/-- An item that begins a chain of its own stands in front. -/
def push (x : β) (cs : List (Strand β)) : List (Strand β) := (extend key x cs).getD (⟨x,[]⟩::cs)

variable {key}

@[simp] theorem held_nil (k : κ) : held key [] k=[] := rfl

theorem held_cons (c : Strand β) (cs : List (Strand β)) (k : κ) :
    held key (c::cs) k=c.items.filter (key ·=k)++held key cs k := by simp [held]

theorem filter_items_eq {c : Strand β} {k : κ} (h : ∀x∈c.items,key x=k) :
    c.items.filter (key ·=k)=c.items := by
  rw [List.filter_eq_self]
  intro x hx
  simpa using h x hx

theorem filter_items_ne {c : Strand β} {k : κ} (h : ∀x∈c.items,key x≠k) :
    c.items.filter (key ·=k)=[] := by
  rw [List.filter_eq_nil_iff]
  intro x hx
  simpa using h x hx

/-- Without a chain under the key there is no item under it. -/
theorem held_eq_nil {cs : List (Strand β)} (h : ∀c∈cs,∀x∈c.items,key x=key c.first) {k : κ}
    (hk : ∀c∈cs,key c.first≠k) : held key cs k=[] := by
  rw [held,List.filter_eq_nil_iff]
  intro x hx
  obtain ⟨c,hc,hx⟩ := List.mem_flatMap.mp hx
  have hne := hk c hc
  rw [← h c hc x hx] at hne
  simpa using hne

theorem Bundled.held_tail {c : Strand β} {cs : List (Strand β)} (h : Bundled key (c::cs)) :
    held key cs (key c.first)=[] := held_eq_nil h.tail.uniform fun _ hd => h.head_ne hd

theorem Bundled.held_head {c : Strand β} {cs : List (Strand β)} (h : Bundled key (c::cs)) :
    held key (c::cs) (key c.first)=c.items := by
  rw [held_cons,h.held_tail,List.append_nil,filter_items_eq h.head]

theorem Bundled.held_cons_ne {c : Strand β} {cs : List (Strand β)} (h : Bundled key (c::cs))
    {k : κ} (hk : key c.first≠k) : held key (c::cs) k=held key cs k := by
  rw [held_cons,filter_items_ne,List.nil_append]
  intro x hx
  rwa [h.head x hx]

/-- A chain holds all that there is under its key. -/
theorem Bundled.held_mem {c : Strand β} {cs : List (Strand β)} (h : Bundled key cs) (hc : c∈cs) :
    held key cs (key c.first)=c.items := by
  induction cs with
  | nil => cases hc
  | cons d cs ih =>
    rcases List.mem_cons.mp hc with rfl|hc
    · exact h.held_head
    · rw [h.held_cons_ne (h.head_ne hc).symm,ih h.tail hc]

theorem takeKey_none {k : κ} {cs : List (Strand β)} (h : takeKey key k cs=none) :
    ∀c∈cs,key c.first≠k := by
  induction cs with
  | nil => simp
  | cons d cs ih =>
    rw [takeKey] at h
    split at h
    · cases h
    · rename_i hd
      rw [Option.map_eq_none_iff] at h
      intro c hc
      rcases List.mem_cons.mp hc with rfl|hc
      · exact hd
      · exact ih h c hc

/-- The chain that is taken holds what there was under its key, and the rest is as before. -/
theorem takeKey_some {k : κ} {c : Strand β} {cs ds : List (Strand β)} (h : Bundled key cs)
    (ht : takeKey key k cs=some (c,ds)) :
    key c.first=k ∧ c∈cs ∧ (∀d∈ds,d∈cs) ∧ Bundled key ds ∧ held key ds k=[] ∧
      ∀j,j≠k → held key ds j=held key cs j := by
  induction cs generalizing c ds with
  | nil => cases ht
  | cons e cs ih =>
    rw [takeKey] at ht
    split at ht
    · rename_i he
      cases ht
      refine ⟨he,List.mem_cons_self,fun d => List.mem_cons_of_mem _,h.tail,he ▸ h.held_tail,?_⟩
      intro j hj
      rw [h.held_cons_ne (he ▸ hj.symm)]
    · rename_i he
      obtain ⟨⟨c',ds'⟩,ht',hp⟩ := Option.map_eq_some_iff.mp ht
      cases hp
      obtain ⟨hk,hc,hsub,hb,h0,hj⟩ := ih h.tail ht'
      have hb' : Bundled key (e::ds') := hb.cons h.head fun d hd => h.head_ne (hsub d hd)
      refine ⟨hk,List.mem_cons_of_mem e hc,?_,hb',?_,?_⟩
      · intro d hd
        rcases List.mem_cons.mp hd with rfl|hd
        · exact List.mem_cons_self
        · exact List.mem_cons_of_mem e (hsub d hd)
      · rw [hb'.held_cons_ne he,h0]
      · intro j hne
        rw [held_cons,held_cons,hj j hne]

theorem extend_none {x : β} {cs : List (Strand β)} (h : extend key x cs=none) :
    ∀c∈cs,key c.first≠key x := by
  induction cs with
  | nil => simp
  | cons d cs ih =>
    rw [extend] at h
    split at h
    · cases h
    · rename_i hd
      rw [Option.map_eq_none_iff] at h
      intro c hc
      rcases List.mem_cons.mp hc with rfl|hc
      · exact hd
      · exact ih h c hc

theorem extend_some {x : β} {cs ds : List (Strand β)} (h : Bundled key cs)
    (he : extend key x cs=some ds) :
    Bundled key ds ∧ ds.map (fun c => key c.first)=cs.map (fun c => key c.first) ∧
      held key ds (key x)=held key cs (key x)++[x] ∧
      ∀j,j≠key x → held key ds j=held key cs j := by
  induction cs generalizing ds with
  | nil => cases he
  | cons c cs ih =>
    rw [extend] at he
    split at he
    · rename_i hc
      cases he
      have hu : ∀y∈(c.add x).items,key y=key c.first := by
        intro y hy
        rw [Strand.items_add] at hy
        rcases List.mem_append.mp hy with hy|hy
        · exact h.head y hy
        · rw [List.mem_singleton.mp hy,hc]
      have hb : Bundled key (c.add x::cs) := h.tail.cons hu fun d hd => h.head_ne hd
      refine ⟨hb,rfl,?_,?_⟩
      · rw [← hc,h.held_head]
        exact hb.held_head
      · intro j hj
        rw [h.held_cons_ne (hc ▸ hj.symm),hb.held_cons_ne (hc ▸ hj.symm)]
    · rename_i hc
      obtain ⟨ds',he',rfl⟩ := Option.map_eq_some_iff.mp he
      obtain ⟨hb,hm,hx,hj⟩ := ih h.tail he'
      have hn : ∀d∈ds',key d.first≠key c.first := by
        intro d hd hk
        have hd' : key d.first∈cs.map fun c => key c.first := hm ▸ List.mem_map.mpr ⟨d,hd,rfl⟩
        rw [hk] at hd'
        exact (List.nodup_cons.mp h.distinct).1 hd'
      have hb' : Bundled key (c::ds') := hb.cons h.head hn
      refine ⟨hb',by simp [hm],?_,?_⟩
      · rw [hb'.held_cons_ne hc,h.held_cons_ne hc,hx]
      · intro j hne
        rw [held_cons,held_cons,hj j hne]

/-- Whatever the order of the chains, an item goes to the end of what is held under its key. -/
theorem Bundled.push {cs : List (Strand β)} (h : Bundled key cs) (x : β) :
    Bundled key (push key x cs) ∧
      held key (Framework.push key x cs) (key x)=held key cs (key x)++[x] ∧
      ∀j,j≠key x → held key (Framework.push key x cs) j=held key cs j := by
  rw [Framework.push]
  cases he : extend key x cs with
  | none =>
    have hn := extend_none he
    have hb : Bundled key ((⟨x,[]⟩ : Strand β)::cs) := h.cons (by simp [Strand.items]) hn
    refine ⟨hb,?_,?_⟩
    · rw [held_eq_nil h.uniform hn]
      exact hb.held_head
    · intro j hj
      exact hb.held_cons_ne hj.symm
  | some ds =>
    obtain ⟨hb,-,hx,hj⟩ := extend_some h he
    exact ⟨hb,hx,hj⟩

end TiLdap.Framework
