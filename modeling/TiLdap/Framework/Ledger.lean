import Mathlib.Data.Finset.Basic
import Mathlib.Data.List.Nodup

namespace TiLdap.Framework

/-- One line of a resource ledger. Ledgers are lists with the newest line first. -/
inductive Movement (κ : Type*) where
  | acquire (k : κ)
  | release (k : κ)

namespace Ledger

variable {κ : Type*}

/-- The keys acquired so far, newest first. -/
def acquired : List (Movement κ) → List κ
  | [] => []
  | .acquire k::l => k::acquired l
  | .release _::l => acquired l

/-- The keys released so far, newest first. -/
def released : List (Movement κ) → List κ
  | [] => []
  | .acquire _::l => released l
  | .release k::l => k::released l

/-- The keys acquired and not yet released. -/
def live [DecidableEq κ] : List (Movement κ) → Finset κ
  | [] => ∅
  | .acquire k::l => insert k (live l)
  | .release k::l => (live l).erase k

/-- Only new keys are acquired, and only live keys are released. -/
def Sound [DecidableEq κ] : List (Movement κ) → Prop
  | [] => True
  | .acquire k::l => k∉acquired l ∧ Sound l
  | .release k::l => k∈live l ∧ Sound l

variable [DecidableEq κ]

theorem live_subset_acquired (l : List (Movement κ)) : ∀k∈live l,k∈acquired l := by
  induction l with
  | nil => simp [live]
  | cons m l ih =>
    cases m with
    | acquire j =>
      intro k hk
      rcases Finset.mem_insert.mp hk with rfl|hk
      · exact List.mem_cons_self
      · exact List.mem_cons_of_mem _ (ih k hk)
    | release j =>
      intro k hk
      exact ih k (Finset.mem_of_mem_erase hk)

theorem released_subset_acquired {l : List (Movement κ)} (h : Sound l) :
    ∀k∈released l,k∈acquired l := by
  induction l with
  | nil => simp [released]
  | cons m l ih =>
    cases m with
    | acquire j =>
      intro k hk
      exact List.mem_cons_of_mem _ (ih h.2 k hk)
    | release j =>
      intro k hk
      rcases List.mem_cons.mp hk with rfl|hk
      · exact live_subset_acquired l k h.1
      · exact ih h.2 k hk

theorem live_not_released {l : List (Movement κ)} (h : Sound l) :
    ∀k∈live l,k∉ released l := by
  induction l with
  | nil => simp [live]
  | cons m l ih =>
    cases m with
    | acquire j =>
      intro k hk
      rcases Finset.mem_insert.mp hk with rfl|hk
      · exact fun hr => h.1 (released_subset_acquired h.2 k hr)
      · exact ih h.2 k hk
    | release j =>
      intro k hk hr
      obtain ⟨hne,hk⟩ := Finset.mem_erase.mp hk
      rcases List.mem_cons.mp hr with rfl|hr
      · exact hne rfl
      · exact ih h.2 k hk hr

/-- In a sound ledger no key is released twice. -/
theorem released_nodup {l : List (Movement κ)} (h : Sound l) : (released l).Nodup := by
  induction l with
  | nil => exact List.nodup_nil
  | cons m l ih =>
    cases m with
    | acquire j => exact ih h.2
    | release j => exact List.nodup_cons.mpr ⟨live_not_released h.2 j h.1,ih h.2⟩

end Ledger

section KeyedLog

variable {κ β : Type*}

/-- New lines under one key leave the keys of a log without repetitions exactly when there are
none of them, or one under a key that the log does not hold. -/
theorem nodup_keys_append {k : κ} {new : List β} {old : List (κ × β)}
    (ho : (old.map Prod.fst).Nodup) :
    ((new.map (fun b => (k,b))++old).map Prod.fst).Nodup ↔
      new=[] ∨ (new.length≤1 ∧ ∀f∈old,f.1≠k) := by
  have hm : (new.map (fun b => (k,b))).map Prod.fst=List.replicate new.length k := by
    simp
  rw [List.map_append,List.nodup_append,hm,List.nodup_replicate]
  constructor
  · intro ⟨hn,_,hd⟩
    by_cases hne : new=[]
    · exact .inl hne
    · have hk : k∈List.replicate new.length k := by simpa using hne
      refine .inr ⟨hn,?_⟩
      intro f hf he
      exact hd k hk f.1 (List.mem_map_of_mem hf) he.symm
  · rintro (rfl|⟨hn,hf⟩)
    · simpa using ho
    · refine ⟨hn,ho,?_⟩
      intro a ha b hb hab
      have hk : a=k := List.eq_of_mem_replicate ha
      obtain ⟨f,hm,rfl⟩ := List.mem_map.mp hb
      exact hf f hm (hab.symm.trans hk)

theorem exists_keyed_append {k r : κ} {new : List β} {old : List (κ × β)} :
    (∃f∈new.map (fun b => (k,b))++old,f.1=r) ↔ (r=k ∧ new≠[]) ∨ ∃f∈old,f.1=r := by
  simp only [List.mem_append,List.mem_map]
  constructor
  · rintro ⟨f,⟨b,hb,rfl⟩|hf,he⟩
    · exact .inl ⟨he.symm,List.ne_nil_of_mem hb⟩
    · exact .inr ⟨f,hf,he⟩
  · rintro (⟨rfl,hne⟩|⟨f,hf,he⟩)
    · obtain ⟨b,hb⟩ := List.exists_mem_of_ne_nil new hne
      exact ⟨_,.inl ⟨b,hb,rfl⟩,rfl⟩
    · exact ⟨f,.inr hf,he⟩

theorem keyed_append_eq_cons {k : κ} {new : List β} {b : β} {old : List (κ × β)} :
    new.map (fun b => (k,b))++old=(k,b)::old ↔ new=[b] := by
  constructor
  · intro h
    have hm : new.map (fun b => (k,b))=[b].map (fun b => (k,b)) :=
      List.append_cancel_right h
    exact List.map_injective_iff.mpr (fun _ _ he => (Prod.mk.inj he).2) hm
  · intro h
    rw [h]
    rfl

end KeyedLog

end TiLdap.Framework
