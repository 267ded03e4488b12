import TiLdap.Android.ResultProxies
import TiLdap.Ios.ResultProxies
import Mathlib.Data.List.GetD
import Mathlib.Data.List.TakeWhile

namespace TiLdap

open OpenLdap

def utf8? (v : List UInt8) : Option String := String.fromUTF8? ⟨v.toArray⟩

/-- What the string and the byte accessor return for the same values: as many strings as values,
the bytes as they are, and the whole decoding of every value that is UTF-8. -/
structure Faithful {τ : Type} (decoded : String → τ) (values : List (List UInt8))
    (strings : List τ) (blobs : List (List UInt8)) : Prop where
  length : strings.length=values.length
  bytes : blobs=values
  text : ∀(i : Nat) v s,values[i]?=some v → utf8? v=some s → strings[i]?=some (decoded s)

theorem takeWhile_eq_self_iff {v : List UInt8} : v.takeWhile (·≠0)=v ↔ 0∉v := by
  rw [List.takeWhile_eq_self_iff]
  constructor
  · intro h h0
    simpa using h 0 h0
  · intro h x hx
    have hne : x≠0 := fun he => h (he ▸ hx)
    simpa using hne

/-- A value that a zero-terminated string can hold. -/
def Readable (v : List UInt8) : Prop := utf8? v≠none ∧ 0∉v

end TiLdap
