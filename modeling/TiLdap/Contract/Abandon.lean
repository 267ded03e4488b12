import TiLdap.Android.Abandons
import TiLdap.Ios.Abandons
import TiLdap.Contract.Sessions

namespace TiLdap

open Framework Wire

/-- Every abandon of a run names its own outstanding search, on the session it was sent on,
exactly when the application calls `abandon` only where this is so. -/
theorem abandons_own_iff (useTLS : Option Bool) (certFile : Arg FileArg)
    (ops : List Android.Op) (ops' : List Ios.Op) :
    (Always Android.step (fun w => Own w.traffic) (Android.init useTLS certFile) ops ↔
      Along Android.step Android.World.abandonGuard (Android.init useTLS certFile) ops) ∧
    (Always Ios.step (fun w => Own w.traffic) Ios.init ops' ↔
      Along Ios.step Ios.World.abandonGuard Ios.init ops') := by
  constructor
  · apply always_iff_along Android.World.step_wireInv Android.World.step_own
    · exact ⟨Numbered.nil _,by simp [Android.init]⟩
    · trivial
  · apply always_iff_along Ios.World.step_numbered Ios.World.step_own
    · exact Numbered.nil _
    · trivial

/-- Two searches with a reconnect between them, then an abandon of the first. -/
def Android.staleAbandon : List Android.Op :=
  [connects true,binds,.search { async := .val true, scope := .val 2 } ⟨true,true⟩ {},
    connects true,.search { async := .val true, scope := .val 2 } ⟨true,true⟩ {},
    .abandon 2 false]

/-- A search, with its response, and then an abandon of it. -/
def Ios.lateAbandon : List Ios.Op :=
  [connects none,binds,
    .search { async := .val true } ⟨true,true⟩ ⟨.sent 0 false,.read ⟨[],some 0⟩⟩,
    .abandon 2 true 0]

/-- On Android an old request abandons the search of another one after a reconnect; on iOS a
request abandons a search whose response has been delivered. -/
theorem abandon_hits_others :
    ¬Always Android.step (fun w => Own w.traffic) (Android.init none .absent)
      Android.staleAbandon ∧
    ¬Always Ios.step (fun w => Own w.traffic) Ios.init Ios.lateAbandon := by
  constructor
  · apply not_always
    have ht : (run Android.step (Android.init none .absent) Android.staleAbandon).traffic=
        [.abandoned 2 1 1 true,.sent 4 1 1,.sent 2 0 1] := rfl
    rw [ht]
    intro h
    exact absurd h.1.1.1 (by simp)
  · apply not_always
    have ht : (run Ios.step Ios.init Ios.lateAbandon).traffic=
        [.abandoned 2 0 1 true,.delivered 2,.sent 2 0 1] := rfl
    rw [ht]
    intro h
    exact absurd h.1.1.2.1 (by simp)

end TiLdap
