import Mathlib.Data.List.Basic

namespace TiLdap.Framework

variable {σ α : Type*} (step : σ → α → σ)

/-- The state that a finite list of labels leads to. -/
def run (s : σ) (as : List α) : σ := as.foldl step s

@[simp] theorem run_nil (s : σ) : run step s [] = s := rfl

@[simp] theorem run_cons (s : σ) (a : α) (as : List α) :
    run step s (a::as) = run step (step s a) as := rfl

theorem run_append (s : σ) (as bs : List α) :
    run step s (as++bs)=run step (run step s as) bs := List.foldl_append

/-- `P` holds in every state that the run of `as` from `s` passes through, `s` included. -/
def Always (P : σ → Prop) (s : σ) (as : List α) : Prop :=
  ∀ n, P (run step s (as.take n))

/-- Every step of the run meets `G`, a condition on the state before it and on its label. -/
def Along (G : σ → α → Prop) : σ → List α → Prop
  | _,[] => True
  | s,a::as => G s a ∧ Along G (step s a) as

variable {step}

theorem always_nil {P : σ → Prop} {s : σ} : Always step P s [] ↔ P s := by
  simp [Always]

theorem always_cons {P : σ → Prop} {s : σ} {a : α} {as : List α} :
    Always step P s (a::as) ↔ P s ∧ Always step P (step s a) as := by
  constructor
  · intro h
    exact ⟨h 0,fun n => h (n+1)⟩
  · rintro ⟨h0,hs⟩ n
    cases n with
    | zero => exact h0
    | succ n => exact hs n

theorem Always.head {P : σ → Prop} {s : σ} {as : List α} (h : Always step P s as) : P s := h 0

theorem always_append {P : σ → Prop} {s : σ} {as bs : List α} :
    Always step P s (as++bs) ↔ Always step P s as ∧ Always step P (run step s as) bs := by
  induction as generalizing s with
  | nil =>
    rw [List.nil_append,always_nil,run_nil]
    exact ⟨fun h => ⟨h.head,h⟩,fun h => h.2⟩
  | cons a as ih => rw [List.cons_append,always_cons,always_cons,ih,run_cons,and_assoc]

theorem Always.last {P : σ → Prop} {s : σ} {as : List α} (h : Always step P s as) :
    P (run step s as) := by
  have hl := h as.length
  rwa [List.take_length] at hl

/-- A run whose last state lacks `P` refutes it. -/
theorem not_always {P : σ → Prop} {s : σ} {as : List α} (h : ¬P (run step s as)) :
    ¬Always step P s as := by
  intro ha
  have hl := ha as.length
  rw [List.take_length] at hl
  exact h hl

/-- Guarded induction over a run: what each guarded step preserves holds throughout. -/
theorem always_of_along {I : σ → Prop} {G : σ → α → Prop}
    (hstep : ∀ s a,I s → G s a → I (step s a)) {s : σ} {as : List α}
    (h0 : I s) (hg : Along step G s as) : Always step I s as := by
  induction as generalizing s with
  | nil => exact always_nil.mpr h0
  | cons a as ih => exact always_cons.mpr ⟨h0,ih (hstep s a h0 hg.1) hg.2⟩

theorem along_congr {G H : σ → α → Prop} (h : ∀ s a,G s a ↔ H s a) {s : σ} {as : List α} :
    Along step G s as ↔ Along step H s as := by
  induction as generalizing s with
  | nil => exact Iff.rfl
  | cons a as ih => exact and_congr (h s a) ih

theorem along_true (s : σ) (as : List α) : Along step (fun _ _ => True) s as := by
  induction as generalizing s with
  | nil => trivial
  | cons a as ih => exact ⟨trivial,ih _⟩

/-- Labels that all meet a condition of their own. -/
theorem along_of_forall {G : α → Prop} {as : List α} (h : ∀ a∈as,G a) (s : σ) :
    Along step (fun _ => G) s as := by
  induction as generalizing s with
  | nil => trivial
  | cons a as ih =>
    exact ⟨h a List.mem_cons_self,ih (fun b hb => h b (List.mem_cons_of_mem a hb)) _⟩

/-- Unguarded induction: an inductive invariant holds in every state of every run. -/
theorem always_of_inductive {I : σ → Prop} (hstep : ∀ s a,I s → I (step s a))
    {s : σ} (h0 : I s) (as : List α) : Always step I s as :=
  always_of_along (fun s a hi _ => hstep s a hi) h0 (along_true s as)

/-- Where a step keeps `P` exactly when it meets `G`, the states of a run all satisfy `P`
exactly when its steps all meet `G`. The invariant `I` may be used at every step. -/
theorem always_iff_along {P I : σ → Prop} {G : σ → α → Prop}
    (hI : ∀ s a,I s → I (step s a))
    (hP : ∀ s a,I s → P s → (P (step s a) ↔ G s a)) {s : σ} {as : List α}
    (i0 : I s) (p0 : P s) : Always step P s as ↔ Along step G s as := by
  induction as generalizing s with
  | nil => exact ⟨fun _ => trivial,fun _ => always_nil.mpr p0⟩
  | cons a as ih =>
    rw [always_cons]
    constructor
    · rintro ⟨-,hs⟩
      have p1 : P (step s a) := hs 0
      exact ⟨(hP s a i0 p0).mp p1,(ih (hI s a i0) p1).mp hs⟩
    · rintro ⟨hg,hs⟩
      have p1 := (hP s a i0 p0).mpr hg
      exact ⟨p0,(ih (hI s a i0) p1).mpr hs⟩

end TiLdap.Framework
