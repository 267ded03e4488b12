import TiLdap.Android.Silence
import TiLdap.Contract.Sessions

namespace TiLdap

open Framework Android.World

/-- However long the callbacks that were posted wait, none of a request runs after it was
abandoned exactly when no step posts one for an abandoned request and no request is abandoned
that has one waiting. -/
theorem silent_after_abandon_iff (useTLS : Option Bool) (certFile : Arg FileArg)
    (ops : List (MailboxOp Android.Op)) :
    (∀n,Mailbox.Silent Android.step Android.World.fired Abandoned
        ⟨Android.init useTLS certFile,0⟩ (ops++List.replicate n .take)) ↔
      Along turn silenceGuard ⟨Android.init useTLS certFile,0⟩ ops := by
  have h0 : SilenceInv (Android.init useTLS certFile) := by
    refine ⟨⟨Wire.Numbered.nil _,?_⟩,Android.World.init_callbackInv useTLS certFile⟩
    simp [Android.init]
  rw [Mailbox.silent_iff step_silenceInv step_grows step_stays h0]
  have hI : ∀(s : Mailbox Android.World) a,SilenceInv s.state → SilenceInv (turn s a).state := by
    intro s a hs
    cases a with
    | act op => exact step_silenceInv s.state op hs
    | take => exact hs
  apply always_iff_along (I := fun s => SilenceInv s.state) hI turn_clean h0
  intro r c hr
  obtain ⟨h,id,hm⟩ := hr
  cases hm

/-- A search whose final response was on its way when it was abandoned. -/
def Android.lateResponse : List (MailboxOp Android.Op) :=
  [.act (connects true),.act binds,
    .act (.search { async := .val true, scope := .val 2 } ⟨true,true⟩ {}),
    .act (.abandon 2 false),.act (.listener 2 (.searchResultReceived ⟨ldapSuccess,none⟩))]

/-- The success callback of an abandoned search is run when its response comes in late. -/
theorem late_response_heard :
    ¬Mailbox.Silent Android.step Android.World.fired Abandoned
      ⟨Android.init none .absent,0⟩ (Android.lateResponse++List.replicate 3 .take) := by
  intro h
  have hc := h (Android.lateResponse.take 4)
    (Android.lateResponse.drop 4++List.replicate 3 .take) rfl 2 ⟨0,1,List.mem_cons_self⟩
  exact absurd hc (by decide)

end TiLdap
