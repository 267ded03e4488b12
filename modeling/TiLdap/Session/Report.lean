import TiLdap.Interface.Observations

namespace TiLdap

/-- What an application sees of a run, newest first: callbacks, faults, and the binds and
searches with an error callback that found no session. -/
structure Report (ρ : Type) where
  fired : List (RequestId × Callback ρ)
  faults : List Fault
  orphans : List RequestId

namespace Report

variable {ρ : Type} {s s' : Report ρ} {guard : Prop}

/-- Request `r` has reported an error. -/
def Failed (s : Report ρ) (r : RequestId) : Prop := ∃m c t,(r,Callback.error m c t)∈s.fired

/-- No fault came from a missing handle or object, and every bind or search that found no
session has reported an error. -/
def HandleSafe (s : Report ρ) : Prop :=
  (∀f∈s.faults,f.missing=false) ∧ ∀r∈s.orphans,s.Failed r

/-- What a step does to the faults and the orphans: the new faults come from a missing object
exactly when `guard` fails, and under `guard` a new orphan reports an error. -/
structure Tidy (s s' : Report ρ) (guard : Prop) : Prop where
  faults : ∃new,s'.faults=new++s.faults ∧ ((∀f∈new,f.missing=false) ↔ guard)
  orphans : guard → ∀r∈s'.orphans,r∈s.orphans ∨ s'.Failed r

theorem Tidy.quiet (hg : guard) (hf : s'.faults=s.faults) (ho : s'.orphans=s.orphans) :
    Tidy s s' guard := by
  refine ⟨⟨[],by simpa using hf,by simpa using hg⟩,?_⟩
  intro _ r hr
  rw [ho] at hr
  exact .inl hr

/-- A step that ends in a fault from a missing object. -/
theorem Tidy.missing {f : Fault} (hm : f.missing=true) (hf : s'.faults=f::s.faults) (hg : ¬guard) :
    Tidy s s' guard := by
  refine ⟨⟨[f],by simpa using hf,?_⟩,?_⟩
  · simpa [hm] using hg
  · intro h
    exact absurd h hg

end Report

end TiLdap
