import TiLdap.Contract.Sessions

namespace TiLdap

open Framework

/-- No request of a run fires more than one callback exactly when every search that can report
errors is made on a bound connection and, on Android, no outcome that is waited for reaches the
listener of such a search that the SDK failed to send. -/
theorem callbacks_single_iff (useTLS : Option Bool) (certFile : Arg FileArg)
    (ops : List Android.Op) (ops' : List Ios.Op) :
    (Always Android.step Android.World.Single (Android.init useTLS certFile) ops ↔
      Along Android.step Android.World.callbackGuard (Android.init useTLS certFile) ops) ∧
    (Always Ios.step Ios.World.Single Ios.init ops' ↔
      Along Ios.step Ios.World.callbackGuard Ios.init ops') := by
  constructor
  · apply always_iff_along (I := Android.World.CallbackInv)
    · intro w op hi
      exact (Android.World.step_speaks hi op).inv
    · intro w op hi hs
      exact Android.World.step_single hi hs op
    · exact Android.World.init_callbackInv useTLS certFile
    · intro r
      simp [Android.init]
  · apply always_iff_along (I := Ios.World.Enrolled)
    · intro w op hi
      exact (Ios.World.step_speaks hi op).inv
    · intro w op hi hs
      exact Ios.World.step_single hi hs op
    · simp [Ios.World.Enrolled,Ios.init]
    · intro r
      simp [Ios.init]

/-- A search on a new connection calls its error callback twice, and so does on Android a search
that could not be sent, when its response timer runs out. -/
theorem searches_fire_twice :
    ¬Always Android.step Android.World.Single (Android.init none .absent)
      [.search {} ⟨true,true⟩ {}] ∧
    ¬Always Android.step Android.World.Single (Android.init none .absent)
      [Android.connects true,Android.binds,
        .search { async := .val true, scope := .val 2 } ⟨true,true⟩
          { refused := some ⟨⟨81,by decide⟩,none⟩ },
        .listener 2 (.searchResultReceived ⟨85,none⟩)] ∧
    ¬Always Ios.step Ios.World.Single Ios.init
      [.search {} ⟨true,true⟩ ⟨.sent 0 false,.timedOut⟩] := by
  refine ⟨?_,?_,?_⟩
  · apply not_always
    intro h
    have h2 : 2≤1 := h 0
    exact absurd h2 (by decide)
  · apply not_always
    intro h
    have h2 : 2≤1 := h 2
    exact absurd h2 (by decide)
  · apply not_always
    intro h
    have h2 : 2≤1 := h 0
    exact absurd h2 (by decide)

end TiLdap
