import Mathlib.Data.List.Basic
import Mathlib.Logic.Function.Basic

namespace TiLdap.Framework

variable {α : Type*}

theorem getElem?_set_of {l : List α} {i : Nat} {x : α} (hx : l[i]?=some x) (y : α) :
    (l.set i y)[i]?=some y := by
  have hl : i<l.length := (List.getElem?_eq_some_iff.mp hx).1
  simp [hl]

theorem getElem?_append_of {l : List α} {i : Nat} {x : α} (hx : l[i]?=some x) (m : List α) :
    (l++m)[i]?=some x := by
  rw [List.getElem?_append_left (List.getElem?_eq_some_iff.mp hx).1,hx]

theorem getElem?_concat_cases {l : List α} {x y : α} {i : Nat} (h : (l++[x])[i]?=some y) :
    l[i]?=some y ∨ i=l.length ∧ y=x := by
  rcases Nat.lt_trichotomy i l.length with hi|hi|hi
  · rw [List.getElem?_append_left hi] at h
    exact .inl h
  · subst hi
    rw [List.getElem?_concat_length] at h
    exact .inr ⟨rfl,(Option.some.inj h).symm⟩
  · rw [List.getElem?_eq_none (by simp; omega)] at h
    cases h

theorem getElem?_modify_cases {l : List α} {f : α → α} {c c' : Nat} {k : α}
    (h : (l.modify c f)[c']?=some k) :
    (c'=c ∧ ∃k₀,l[c]?=some k₀ ∧ k=f k₀) ∨ c'≠c ∧ l[c']?=some k := by
  by_cases he : c=c'
  · subst he
    rw [List.getElem?_modify_eq] at h
    obtain ⟨k₀,hk,rfl⟩ := Option.map_eq_some_iff.mp h
    exact .inl ⟨rfl,k₀,hk,rfl⟩
  · rw [List.getElem?_modify_ne f l he] at h
    exact .inr ⟨Ne.symm he,h⟩

/-- What holds of all objects and of the one that is put in place or added. -/
theorem forall_mem_set {P : α → Prop} {l : List α} (h : ∀z∈l,P z) (i : Nat) {x : α} (hx : P x) :
    ∀z∈l.set i x,P z := by
  intro z hz
  rcases List.mem_or_eq_of_mem_set hz with hz|rfl
  · exact h z hz
  · exact hx

theorem forall_mem_concat {P : α → Prop} {l : List α} (h : ∀z∈l,P z) {x : α} (hx : P x) :
    ∀z∈l++[x],P z := by
  intro z hz
  rcases List.mem_append.mp hz with hz|hz
  · exact h z hz
  · cases List.mem_singleton.mp hz
    exact hx

/-- Fewer items meet a stronger condition that one of them fails. -/
theorem countP_lt {p q : α → Bool} {l : List α} (h : ∀a∈l,q a=true → p a=true) {a : α}
    (ha : a∈l) (hp : p a=true) (hq : q a=false) : l.countP q<l.countP p := by
  induction l with
  | nil => cases ha
  | cons b l ih =>
    have hl : ∀c∈l,q c=true → p c=true := fun c hc => h c (List.mem_cons_of_mem b hc)
    rcases List.mem_cons.mp ha with rfl|ha
    · rw [List.countP_cons_of_pos hp,List.countP_cons_of_neg (by simp [hq])]
      exact Nat.lt_succ_of_le (List.countP_mono_left hl)
    · have hlt := ih hl ha
      have hb := h b List.mem_cons_self
      rw [List.countP_cons,List.countP_cons]
      split
      · rename_i hqb
        rw [if_pos (hb hqb)]
        omega
      · omega

section Fields

variable {β : Type*} (f : α → Option β)

/-- An optional field of the objects of a list, as the list grows and as an object changes. -/
theorem bind_getElem?_concat (l : List α) (x : α) :
    (fun i : Nat => (l++[x])[i]?.bind f)=
      Function.update (fun i => l[i]?.bind f) l.length (f x) := by
  funext i
  by_cases hi : i=l.length
  · subst hi
    rw [Function.update_self,List.getElem?_concat_length]
    rfl
  · rw [Function.update_of_ne hi]
    rcases Nat.lt_or_gt_of_ne hi with hlt|hgt
    · rw [List.getElem?_append_left hlt]
    · rw [List.getElem?_eq_none (by simp; omega),List.getElem?_eq_none (by omega)]

theorem bind_getElem?_set {l : List α} {i : Nat} {y : α} (hi : l[i]?=some y) (x : α) :
    (fun j : Nat => (l.set i x)[j]?.bind f)=Function.update (fun j => l[j]?.bind f) i (f x) := by
  funext j
  by_cases hj : j=i
  · subst hj
    rw [Function.update_self,getElem?_set_of hi]
    rfl
  · rw [Function.update_of_ne hj,List.getElem?_set_ne (Ne.symm hj)]

/-- A function on objects of several kinds that changes at one object of the kind `mk`. -/
theorem eq_update_of_kind {ι ω : Type*} [DecidableEq ι] [DecidableEq ω] {mk : ι → ω}
    (hmk : Function.Injective mk) {g g' : ω → β} {i : ι} {b : β}
    (hin : (fun j => g' (mk j))=Function.update (fun j => g (mk j)) i b)
    (hout : ∀o,(∀j,o≠mk j) → g' o=g o) : g'=Function.update g (mk i) b := by
  funext o
  by_cases ho : ∃j,o=mk j
  · obtain ⟨j,rfl⟩ := ho
    have hj := congrFun hin j
    by_cases he : j=i
    · subst he
      rw [Function.update_self] at hj ⊢
      exact hj
    · rw [Function.update_of_ne he] at hj
      rw [Function.update_of_ne (fun h => he (hmk h))]
      exact hj
  · have hne : ∀j,o≠mk j := fun j h => ho ⟨j,h⟩
    rw [Function.update_of_ne (hne i),hout o hne]

end Fields

end TiLdap.Framework
