import TiLdap.Ios.Isolation

namespace TiLdap

open Framework OpenLdap Ios

/-- The TLS policy of a connection does not depend on which of two histories the others have
behind them exactly when both leave the same requirement and the same context or, without a
context, the same options. Histories in which no other connection starts TLS are such. -/
theorem policy_isolated_iff (t : TlsOptions) (c : Nat)
    (h h' : List {x : Call // x.connection≠c}) :
    (Process.Isolated t h h' ↔
      ((Process.after t h).aborted=false → (Process.after t h').aborted=false →
        Process.SameTls (Process.after t h).tls (Process.after t h').tls)) ∧
    (Along Process.step Process.quietGuard (Process.start t) (h.map Subtype.val) →
      Along Process.step Process.quietGuard (Process.start t) (h'.map Subtype.val) →
      Process.Isolated t h h') := by
  refine ⟨Process.isolated_iff t h h',?_⟩
  intro hq hq'
  rw [Process.isolated_iff]
  intro _ _
  rw [Process.after,Process.run_quiet hq,Process.after,Process.run_quiet hq']
  exact ⟨rfl,rfl,fun _ => rfl⟩

/-- Another connection asks for TLS without a certificate and connects. -/
def Ios.relaxed : List {x : Call // x.connection≠0} :=
  [⟨⟨1,.setUseTLS (.val true),false⟩,by decide⟩,
    ⟨⟨1,.connect {} ⟨true,true⟩ ⟨fun _ => none,fun _ => false,none,ldapSuccess⟩,true⟩,by decide⟩]

/-- A connection with a certificate file is then validated under the relaxed policy, which it
would not be on its own. -/
theorem relaxed_policy_leaks :
    ¬Process.Isolated {} Ios.relaxed [] ∧
    (Process.observed (Process.after {} Ios.relaxed) 0 (.val (.file "cert.pem")) .absent {}
      ⟨true,true⟩ ⟨fun _ => none,fun _ => false,none,ldapSuccess⟩ true).map (·.context.requireCert)=
      some .allow := by
  refine ⟨?_,rfl⟩
  intro hi
  have hv := hi (.val (.file "cert.pem")) .absent {} ⟨true,true⟩
    ⟨fun _ => none,fun _ => false,none,ldapSuccess⟩ true _ rfl _ rfl
  have hr : RequireCert.allow=RequireCert.demand := congrArg (fun v => v.context.requireCert) hv
  cases hr

end TiLdap
