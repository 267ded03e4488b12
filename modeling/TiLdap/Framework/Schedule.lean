import TiLdap.Framework.Run
import Mathlib.Data.List.Count

namespace TiLdap.Framework

variable {σ ι : Type*} [DecidableEq ι] {step : σ → ι → σ}

/-- In an interleaving, work that only thread `i` does, one unit a step, shrinks by the number of
its steps, wherever they stand in the schedule. -/
theorem left_run {left : σ → Nat} {i : ι} (own : ∀ s,left (step s i)=left s-1)
    (other : ∀ s j,j≠i → left (step s j)=left s) (s : σ) (sched : List ι) :
    left (run step s sched)=left s-sched.count i := by
  induction sched generalizing s with
  | nil => simp
  | cons j sched ih =>
    rw [run_cons,ih]
    by_cases h : j=i
    · subst h
      rw [own,List.count_cons_self]
      omega
    · rw [other s j h,List.count_cons_of_ne h]

end TiLdap.Framework
