import TiLdap.Interface.Observations
import Mathlib.Logic.Function.Basic

namespace TiLdap.Wire

/-- The search of request `r` is on the wire of session `h` under number `id`: it was sent, its
final response was not delivered, and it was not abandoned. -/
def Outstanding (l : List Traffic) (r : RequestId) (h : Handle) (id : Nat) : Prop :=
  Traffic.sent r h id∈l ∧ Traffic.delivered r∉l ∧ ∀h' id',Traffic.abandoned r h' id' true∉l

/-- Every abandon handed to the library named a request that was outstanding at the time and
was the only one under that number of that session. -/
def Own : List Traffic → Prop
  | [] => True
  | .abandoned r h id _::l =>
      (Outstanding l r h id ∧ ∀r',Traffic.sent r' h id∈l → r'=r) ∧ Own l
  | .sent _ _ _::l => Own l
  | .delivered _::l => Own l

def isAbandon : Traffic → Bool
  | .abandoned _ _ _ _ => true
  | _ => false

theorem own_append {new l : List Traffic} (h : ∀e∈new,isAbandon e=false) :
    Own (new++l) ↔ Own l := by
  induction new with
  | nil => rfl
  | cons e new ih =>
    have ih := ih fun e he => h e (List.mem_cons_of_mem _ he)
    cases e with
    | sent r k id => exact ih
    | delivered r => exact ih
    | abandoned r k id ok => exact absurd (h _ List.mem_cons_self) (by simp [isAbandon])

/-- The message ids of a session are used once each, below the next one it will use. -/
structure Numbered (next : Handle → Nat) (l : List Traffic) : Prop where
  below : ∀r h id,Traffic.sent r h id∈l → id<next h
  unique : ∀r r' h id,Traffic.sent r h id∈l → Traffic.sent r' h id∈l → r=r'

theorem Numbered.nil (next : Handle → Nat) : Numbered next [] :=
  ⟨by simp,by simp⟩

theorem Numbered.mono {next next' : Handle → Nat} {l : List Traffic} (hn : Numbered next l)
    (h : ∀k,next k≤next' k) : Numbered next' l :=
  ⟨fun r k id hm => Nat.lt_of_lt_of_le (hn.below r k id hm) (h k),hn.unique⟩

/-- Events other than sendings do not matter for the numbering. -/
theorem Numbered.append {next : Handle → Nat} {l : List Traffic} (hn : Numbered next l)
    (new : List Traffic) (h : ∀r k id,Traffic.sent r k id∉new) : Numbered next (new++l) := by
  have old : ∀r k id,Traffic.sent r k id∈new++l → Traffic.sent r k id∈l := by
    intro r k id hm
    rcases List.mem_append.mp hm with hm|hm
    · exact absurd hm (h r k id)
    · exact hm
  refine ⟨?_,?_⟩
  · intro r k id hm
    exact hn.below r k id (old r k id hm)
  · intro r r' k id hm hm'
    exact hn.unique r r' k id (old r k id hm) (old r' k id hm')

theorem update_mono {f : Handle → Nat} {h : Handle} {n : Nat} (hn : f h≤n) (k : Handle) :
    f k≤Function.update f h n k := by
  by_cases hk : k=h
  · subst hk
    rwa [Function.update_self]
  · exact Nat.le_of_eq (Function.update_of_ne hk _ _).symm

theorem Numbered.sent {next : Handle → Nat} {l : List Traffic} (hn : Numbered next l)
    (r : RequestId) {h : Handle} {id : Nat} (hid : next h≤ id) :
    Numbered (Function.update next h (id+1)) (.sent r h id::l) := by
  have hle : ∀k,next k≤Function.update next h (id+1) k :=
    update_mono (Nat.le_succ_of_le hid)
  have new : ∀r',Traffic.sent r' h id∉l := by
    intro r' hm
    have hlt := hn.below r' h id hm
    omega
  refine ⟨?_,?_⟩
  · intro r' k i hm
    rcases List.mem_cons.mp hm with he|hm
    · cases he
      rw [Function.update_self]
      exact Nat.lt_succ_self _
    · exact Nat.lt_of_lt_of_le (hn.below r' k i hm) (hle k)
  · intro a b k i ha hb
    rcases List.mem_cons.mp ha with ea|ha
    · rcases List.mem_cons.mp hb with eb|hb
      · cases ea
        cases eb
        rfl
      · cases ea
        exact absurd hb (new b)
    · rcases List.mem_cons.mp hb with eb|hb
      · cases eb
        exact absurd ha (new a)
      · exact hn.unique a b k i ha hb

/-- In a numbered log an abandon is the request's own exactly when it is outstanding. -/
theorem own_abandoned {next : Handle → Nat} {l : List Traffic} (hn : Numbered next l)
    (ho : Own l) (r : RequestId) (h : Handle) (id : Nat) (ok : Bool) :
    Own (.abandoned r h id ok::l) ↔ Outstanding l r h id := by
  constructor
  · intro hw
    exact hw.1.1
  · intro hw
    refine ⟨⟨hw,?_⟩,ho⟩
    intro r' hm
    exact hn.unique r' r h id hm hw.1

end TiLdap.Wire
