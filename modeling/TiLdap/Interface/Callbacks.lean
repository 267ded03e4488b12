import TiLdap.Interface.Observations
import TiLdap.Interface.Options

namespace TiLdap.Callbacks

variable {ρ : Type}

/-- `handleSuccess` and `handleError` of a request: a missing callback is not called. -/
def emit (cb : Callbacks) (method : Method) (result : Option ρ) : Verdict → List (Callback ρ)
  | .initiated => []
  | .succeeded => if cb.success then [.success method result] else []
  | .failed c m => if cb.error then [.error method c m] else []

/-- The kinds of the callbacks that report one outcome: one, unless it is missing. -/
def expects (cb : Callbacks) (success : Prop) [Decidable success] : List Bool :=
  if success then (if cb.success then [true] else []) else if cb.error then [false] else []

theorem mem_emit {cb : Callbacks} {method : Method} {result : Option ρ} {v : Verdict}
    {c : Callback ρ} : c∈cb.emit method result v ↔
      (v=.succeeded ∧ cb.success=true ∧ c=.success method result) ∨
      ∃code m,v=.failed code m ∧ cb.error=true ∧ c=.error method code m := by
  cases v with
  | initiated => simp [emit]
  | succeeded => cases h : cb.success <;> simp [emit,h]
  | failed code m => cases h : cb.error <;> simp [emit,h]

theorem emit_length (cb : Callbacks) (method : Method) (result : Option ρ) (v : Verdict) :
    (cb.emit method result v).length≤1 := by
  cases v with
  | initiated => simp [emit]
  | succeeded => cases h : cb.success <;> simp [emit,h]
  | failed code m => cases h : cb.error <;> simp [emit,h]

theorem emit_eq_success (cb : Callbacks) (method : Method) (result : Option ρ) (v : Verdict) :
    cb.emit method result v=[.success method result] ↔ v=.succeeded ∧ cb.success=true := by
  cases v with
  | initiated => simp [emit]
  | succeeded => simp [emit]
  | failed code m => cases h : cb.error <;> simp [emit,h]

theorem emit_isSuccess (cb : Callbacks) (method : Method) (result : Option ρ) {v : Verdict}
    (h : v≠.initiated) :
    (cb.emit method result v).map Callback.isSuccess=cb.expects (v=.succeeded) := by
  cases v with
  | initiated => exact absurd rfl h
  | succeeded => cases hs : cb.success <;> simp [emit,expects,hs,Callback.isSuccess]
  | failed code m => cases he : cb.error <;> simp [emit,expects,he,Callback.isSuccess]

/-- With both callbacks the kind tells the outcome. -/
theorem expects_inj {p q : Prop} [Decidable p] [Decidable q] :
    (∀cb : Callbacks,cb.expects p=cb.expects q) ↔ (p ↔ q) := by
  constructor
  · intro h
    have h := h ⟨true,true⟩
    by_cases hp : p <;> by_cases hq : q <;> simp_all [expects]
  · intro h cb
    simp only [expects,h]

end TiLdap.Callbacks
