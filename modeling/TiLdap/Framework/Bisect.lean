import Mathlib.Data.List.Nodup
import Mathlib.Order.Lattice

namespace TiLdap.Framework

variable {α : Type*} [LinearOrder α]

/-- Bisection of a sorted array between `start` and `stop`, which is one past the end. The answer
is whether the value is there, and its place or the place to put it. -/
def bisectLoop (v : List α) (x : α) : Nat → Nat → Nat → Bool × Nat
  | 0,start,_ => (false,start)
  | k+1,start,stop =>
    let pos := (start+stop-1)/2
    match v[pos]? with
    | none => (false,pos)
    | some c =>
      if x< c then
        if start<pos then bisectLoop v x k start pos else (false,pos)
      else if c<x then
        if pos+1< stop then bisectLoop v x k (pos+1) stop else (false,pos+1)
      else (true,pos)

/-- Values outside the array are dealt with first. -/
def bisectFind (v : List α) (x : α) : Bool × Nat :=
  if v=[] ∨ v.head?.any (x<·) then (false,0)
  else if v.getLast?.any (·<x) then (false,v.length)
  else bisectLoop v x v.length 0 v.length

def bisectInsert (v : List α) (x : α) (i : Nat) : List α := v.insertIdx i x

def bisectDelete (v : List α) (i : Nat) : List α := v.eraseIdx i

/-- A strictly increasing array. -/
def Ascending (v : List α) : Prop := v.Pairwise (·<·)

/-- How many values are smaller: the place of a value, or the place to put it. -/
def rank (v : List α) (x : α) : Nat := v.countP (·<x)

theorem ascending_nil : Ascending ([] : List α) := List.Pairwise.nil

theorem Ascending.rank_cons {c x : α} {v : List α} (h : Ascending (c::v)) (hx : ¬c<x) :
    rank (c::v) x=0 := by
  rw [rank,List.countP_eq_zero]
  intro d hd
  rcases List.mem_cons.mp hd with rfl|hd
  · simpa using hx
  · have hc := (List.pairwise_cons.mp h).1 d hd
    have hn : ¬d<x := fun hl => hx (hc.trans hl)
    simpa using hn

/-- The smaller values are those that stand before the place of the value. -/
theorem Ascending.lt_iff {v : List α} (h : Ascending v) {i : Nat} {c : α} (hc : v[i]?=some c)
    (x : α) : c<x ↔ i< rank v x := by
  induction v generalizing i with
  | nil => simp at hc
  | cons d v ih =>
    by_cases hd : d<x
    · have hr : rank (d::v) x=rank v x+1 := by simp [rank,hd]
      rw [hr]
      cases i with
      | zero =>
        cases hc
        simpa using hd
      | succ i =>
        rw [List.getElem?_cons_succ] at hc
        rw [ih (List.pairwise_cons.mp h).2 hc,Nat.add_lt_add_iff_right]
    · rw [h.rank_cons hd]
      have hn : ¬c<x := by
        intro hl
        have hm : c∈d::v := List.mem_of_getElem? hc
        rcases List.mem_cons.mp hm with rfl|hm
        · exact hd hl
        · exact hd (((List.pairwise_cons.mp h).1 c hm).trans hl)
      simpa using hn

theorem rank_le (v : List α) (x : α) : rank v x≤v.length := List.countP_le_length

/-- A value that is there stands at its place. -/
theorem Ascending.rank_eq {v : List α} (h : Ascending v) {i : Nat} {x : α}
    (hx : v[i]?=some x) : rank v x=i := by
  obtain ⟨hl,he⟩ := List.getElem?_eq_some_iff.mp hx
  have hge : rank v x≤ i := by
    by_contra hlt
    exact lt_irrefl x ((h.lt_iff hx x).mpr (by omega))
  by_contra hne
  have hb : rank v x<v.length := by omega
  have hd := List.pairwise_iff_getElem.mp h _ _ hb hl (by omega)
  rw [he] at hd
  have hlt := (h.lt_iff (List.getElem?_eq_getElem hb) x).mp hd
  omega

theorem Ascending.rank_lt {v : List α} (h : Ascending v) {x : α} (hx : x∈v) :
    rank v x<v.length := by
  obtain ⟨i,hi⟩ := List.mem_iff_getElem?.mp hx
  rw [h.rank_eq hi]
  exact (List.getElem?_eq_some_iff.mp hi).1

/-- The invariant of the bisection: the place of the value, if it is there, is within. -/
theorem bisectLoop_eq {v : List α} (h : Ascending v) (x : α) {k start stop : Nat}
    (hk : stop≤ start+k) (hne : start< stop) (hstop : stop≤v.length) (h1 : start≤ rank v x)
    (h2 : rank v x≤ stop) (h3 : x∈v → rank v x< stop) :
    bisectLoop v x k start stop=(decide (x∈v),rank v x) := by
  induction k generalizing start stop with
  | zero => omega
  | succ k ih =>
    have hp : (start+stop-1)/2<v.length := by omega
    rw [bisectLoop]
    simp only [List.getElem?_eq_getElem hp]
    have hc := List.getElem?_eq_getElem hp
    generalize v[(start+stop-1)/2]=c at hc
    have hlt := h.lt_iff hc x
    have hat : x∈v → rank v x=(start+stop-1)/2 → c=x := by
      intro hm hr
      obtain ⟨i,hi⟩ := List.mem_iff_getElem?.mp hm
      rw [h.rank_eq hi] at hr
      rw [hr,hc] at hi
      exact Option.some.inj hi
    split
    · -- The value can only be on the left.
      rename_i hx
      have hle : rank v x≤(start+stop-1)/2 := by
        by_contra hgt
        exact lt_asymm hx (hlt.mpr (by omega))
      have hin : x∈v → rank v x<(start+stop-1)/2 := by
        intro hm
        have hn : rank v x≠(start+stop-1)/2 := fun hr => hx.ne' (hat hm hr)
        omega
      split
      · exact ih (by omega) (by omega) (by omega) h1 hle hin
      · have hn : x∉v := fun hm => by
          have hi := hin hm
          omega
        rw [decide_eq_false hn]
        congr 1
        omega
    · split
      · rename_i hx
        have hge := hlt.mp hx
        split
        · exact ih (by omega) (by omega) hstop (by omega) h2 h3
        · have hn : x∉v := fun hm => by
            have hi := h3 hm
            omega
          rw [decide_eq_false hn]
          congr 1
          omega
      · rename_i h4 h5
        have he : c=x := le_antisymm (not_lt.mp h4) (not_lt.mp h5)
        rw [he] at hc
        rw [h.rank_eq hc,decide_eq_true (List.mem_of_getElem? hc)]

/-- In an ascending array, bisection tells whether a value is there and which place is its own. -/
theorem bisectFind_eq {v : List α} (h : Ascending v) (x : α) :
    bisectFind v x=(decide (x∈v),rank v x) := by
  rw [bisectFind]
  split
  · rename_i hv
    have hr : rank v x=0 ∧ x∉v := by
      cases v with
      | nil => simp [rank]
      | cons c v =>
        have hc : x< c := by simpa using hv
        refine ⟨h.rank_cons (lt_asymm hc),?_⟩
        intro hm
        rcases List.mem_cons.mp hm with rfl|hm
        · exact lt_irrefl x hc
        · exact lt_asymm hc ((List.pairwise_cons.mp h).1 x hm)
    rw [hr.1,decide_eq_false hr.2]
  · rename_i hv
    have hne : v≠[] := fun hn => hv (.inl hn)
    have hpos := List.length_pos_iff.mpr hne
    have hlast := List.getLast?_eq_getElem? (l := v)
    have hl := List.getElem?_eq_getElem (l := v) (i := v.length-1) (by omega)
    split
    · rename_i hlt
      rw [hlast,hl,Option.any_some,decide_eq_true_eq] at hlt
      have hr := (h.lt_iff hl x).mp hlt
      have hle := rank_le v x
      have hn : x∉v := fun hm => by
        have hi := h.rank_lt hm
        omega
      rw [decide_eq_false hn]
      congr 1
      omega
    · exact bisectLoop_eq h x (by omega) hpos (Nat.le_refl _) (by omega) (rank_le v x) h.rank_lt

omit [LinearOrder α] in
theorem mem_bisectInsert {v : List α} {x y : α} {i : Nat} (hi : i≤v.length) :
    y∈bisectInsert v x i ↔ y=x ∨ y∈v := List.mem_insertIdx hi

theorem Ascending.insert {v : List α} (h : Ascending v) {x : α} (hx : x∉v) :
    Ascending (bisectInsert v x (rank v x)) := by
  induction v with
  | nil => simp [bisectInsert,rank,Ascending]
  | cons c v ih =>
    have ht := (List.pairwise_cons.mp h).2
    by_cases hc : c<x
    · have hr : rank (c::v) x=rank v x+1 := by simp [rank,hc]
      rw [bisectInsert,hr,List.insertIdx_succ_cons]
      refine List.pairwise_cons.mpr ⟨?_,ih ht (fun hm => hx (List.mem_cons_of_mem c hm))⟩
      intro y hy
      rcases (mem_bisectInsert (rank_le v x)).mp hy with rfl|hy
      · exact hc
      · exact (List.pairwise_cons.mp h).1 y hy
    · have hlt : x< c := lt_of_le_of_ne (not_lt.mp hc) fun he => hx (he ▸ List.mem_cons_self)
      rw [bisectInsert,h.rank_cons hc,List.insertIdx_zero]
      refine List.pairwise_cons.mpr ⟨?_,h⟩
      intro y hy
      rcases List.mem_cons.mp hy with rfl|hy
      · exact hlt
      · exact hlt.trans ((List.pairwise_cons.mp h).1 y hy)

theorem Ascending.delete {v : List α} (h : Ascending v) (i : Nat) :
    Ascending (bisectDelete v i) := h.sublist (List.eraseIdx_sublist v i)

theorem Ascending.mem_delete {v : List α} (h : Ascending v) {x : α} (hx : x∈v) (y : α) :
    y∈bisectDelete v (rank v x) ↔ y∈v ∧ y≠x := by
  rw [bisectDelete,List.mem_eraseIdx_iff_getElem?]
  constructor
  · rintro ⟨i,hi,hy⟩
    refine ⟨List.mem_of_getElem? hy,?_⟩
    rintro rfl
    exact hi (h.rank_eq hy).symm
  · rintro ⟨hy,hne⟩
    obtain ⟨i,hi⟩ := List.mem_iff_getElem?.mp hy
    obtain ⟨j,hj⟩ := List.mem_iff_getElem?.mp hx
    refine ⟨i,?_,hi⟩
    rw [h.rank_eq hj]
    rintro rfl
    rw [hi] at hj
    exact hne (Option.some.inj hj)

end TiLdap.Framework
