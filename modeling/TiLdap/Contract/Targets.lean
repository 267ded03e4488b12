import TiLdap.Android.Connects
import TiLdap.Ios.Connects

namespace TiLdap

/-- A connect by way of a URL parser that finds what the URL names in all that it accepts. -/
def Android.connectLib (named : String → Url) (accepts : String → Bool) (created : Bool)
    (refused : Option Android.LDAPException) : Android.ConnectLib where
  parse := fun s => if accepts s then some ⟨(named s).host,(named s).port⟩ else none
  created := created
  refused := refused

/-- A connect with a handle that negotiates TLS where the scheme is ldaps. -/
def Ios.connectLib (named : String → Url) (rejects : String → Option ErrorCode)
    (startTls : Option Ios.TlsFailure) (errno : Int) : Ios.ConnectLib where
  rejects := rejects
  ldaps := fun s => (named s).ldaps
  startTls := startTls
  errno := errno

def Android.World.withTLS (w : Android.World) (useTLS : Bool) : Android.World :=
  { w with connection := { w.connection with useTLS := useTLS } }

def Ios.World.withTLS (w : Ios.World) (useTLS : Bool) : Ios.World :=
  { w with connection := { w.connection with useTLS := .val useTLS } }

/-- Everything that a connect by such a parser can come to. -/
theorem Android.World.reach_cases (w : Android.World) (useTLS : Bool) (o : ConnectOptions)
    (named : String → Url) (accepts : String → Bool) (created : Bool)
    (refused : Option Android.LDAPException) :
    let url := named (o.uri.getD defaultUri)
    let a := (w.withTLS useTLS).reach o (Android.connectLib named accepts created refused)
    (accepts (o.uri.getD defaultUri)=false ∧ a=.failed) ∨
    (accepts (o.uri.getD defaultUri)=true ∧
      ¬((useTLS=true → Certified w.connection) ∧ url.host≠none) ∧ ∃f,a=.raised f) ∨
    (accepts (o.uri.getD defaultUri)=true ∧
      ((useTLS=true → Certified w.connection) ∧ url.host≠none) ∧
      ((refused≠none ∧ a=.failed) ∨
        (refused=none ∧ a=.contact ⟨url.host,url.port,useTLS && created⟩))) := by
  intro url a
  have ha : a=_ := reach_eq _ _ _
  have hok := startTLS_ok_iff (w.withTLS useTLS).connection created
  cases hacc : accepts (o.uri.getD defaultUri) with
  | false =>
    simp only [Android.connectLib,hacc,Bool.false_eq_true,if_false] at ha
    exact .inl ⟨rfl,ha⟩
  | true =>
    simp only [Android.connectLib,hacc,if_true] at ha
    refine .inr ?_
    cases hs : (w.withTLS useTLS).connection.startTLS created with
    | error f =>
      rw [hs] at ha
      refine .inl ⟨rfl,?_,f,ha⟩
      intro h
      obtain ⟨factory,hf⟩ := hok.mpr h.1
      rw [hs] at hf
      cases hf
    | ok factory =>
      have hy : useTLS=true → Certified w.connection := hok.mp ⟨factory,hs⟩
      have hsec : factory.isSome=(useTLS && created) := startTLS_secure hs
      rw [hs] at ha
      cases hh : (named (o.uri.getD defaultUri)).host with
      | none =>
        simp only [hh] at ha
        exact .inl ⟨rfl,fun h => h.2 rfl,_,ha⟩
      | some host =>
        refine .inr ⟨rfl,⟨hy,by simp⟩,?_⟩
        cases refused with
        | some e =>
          simp only [hh] at ha
          exact .inl ⟨by simp,ha⟩
        | none =>
          simp only [hh,hsec] at ha
          exact .inr ⟨rfl,ha⟩

theorem Android.World.contact_iff (w : Android.World) (useTLS : Bool) (o : ConnectOptions)
    (named : String → Url) (accepts : String → Bool) (created : Bool)
    (refused : Option Android.LDAPException) (t : Target) :
    (w.withTLS useTLS).reach o (Android.connectLib named accepts created refused)=.contact t ↔
      accepts (o.uri.getD defaultUri)=true ∧
      ((useTLS=true → Certified w.connection) ∧ (named (o.uri.getD defaultUri)).host≠none) ∧
      refused=none ∧ t=⟨(named (o.uri.getD defaultUri)).host,
        (named (o.uri.getD defaultUri)).port,useTLS && created⟩ := by
  rcases w.reach_cases useTLS o named accepts created refused with
    ⟨hacc,ha⟩|⟨-,hn,f,ha⟩|⟨hacc,hy,⟨hf,ha⟩|⟨hf,ha⟩⟩
  · simp [ha,hacc]
  · rw [ha]
    exact iff_of_false (by simp) (fun h => hn h.2.1)
  · simp [ha,hf]
  · rw [ha,Reach.contact.injEq,eq_comm]
    exact ⟨fun ht => ⟨hacc,hy,hf,ht⟩,fun h => h.2.2.2⟩

/-- The connect raises where the trust manager cannot be built and where the URL has no host. -/
theorem Android.World.raised_iff (w : Android.World) (useTLS : Bool) (o : ConnectOptions)
    (named : String → Url) (accepts : String → Bool) (created : Bool)
    (refused : Option Android.LDAPException) :
    (∃f,(w.withTLS useTLS).reach o (Android.connectLib named accepts created refused)=.raised f) ↔
      accepts (o.uri.getD defaultUri)=true ∧
      ¬((useTLS=true → Certified w.connection) ∧
        (named (o.uri.getD defaultUri)).host≠none) := by
  rcases w.reach_cases useTLS o named accepts created refused with
    ⟨hacc,ha⟩|⟨hacc,hn,f,ha⟩|⟨-,hy,⟨-,ha⟩|⟨-,ha⟩⟩
  · simp [ha,hacc]
  · exact iff_of_true ⟨f,ha⟩ ⟨hacc,hn⟩
  · rw [ha]
    exact iff_of_false (by simp) (fun h => h.2 hy)
  · rw [ha]
    exact iff_of_false (by simp) (fun h => h.2 hy)

theorem Ios.World.contact_iff (w : Ios.World) (useTLS : Bool) (o : ConnectOptions)
    (named : String → Url) (rejects : String → Option ErrorCode) (startTls : Option Ios.TlsFailure)
    (errno : Int) (t : Target) :
    (w.withTLS useTLS).reach named o (Ios.connectLib named rejects startTls errno)=.contact t ↔
      rejects (o.uri.getD defaultUri)=none ∧
      t=⟨(named (o.uri.getD defaultUri)).host,(named (o.uri.getD defaultUri)).port,
        (named (o.uri.getD defaultUri)).ldaps ||
          (useTLS && startTls.all Ios.TlsFailure.inPlace)⟩ := by
  rw [reach_eq]
  cases hj : rejects (o.uri.getD defaultUri) with
  | some e => simp [Ios.connectLib,hj]
  | none =>
    simp only [Ios.connectLib,hj,Reach.contact.injEq,true_and,eq_comm]
    rfl

/-- On iOS the scheme of the uri is never lost. -/
theorem Ios.World.follows (w : Ios.World) (useTLS : Bool) (o : ConnectOptions)
    (named : String → Url) (rejects : String → Option ErrorCode) (startTls : Option Ios.TlsFailure)
    (errno : Int) :
    ((w.withTLS useTLS).reach named o (Ios.connectLib named rejects startTls errno)).Follows
      (named (o.uri.getD defaultUri)) := by
  rw [Reach.follows_iff]
  constructor
  · intro ⟨f,hf⟩
    rw [reach_eq] at hf
    cases hj : rejects (o.uri.getD defaultUri) with
    | some e => simp [Ios.connectLib,hj] at hf
    | none => simp [Ios.connectLib,hj] at hf
  · intro t ht
    obtain ⟨-,rfl⟩ := (w.contact_iff useTLS o named rejects startTls errno t).mp ht
    refine ⟨rfl,rfl,?_⟩
    intro hl
    rw [hl,Bool.true_or]

/-- Where an ldaps URL goes with a socket factory, the two transports are protected alike exactly
when, for an ldap one with `useTLS`, the factory is there if and only if StartTLS left TLS in
place. -/
theorem secure_eq_iff {ldaps useTLS created started : Bool}
    (h : ldaps=true → useTLS=true ∧ created=true) :
    (useTLS && created)=(ldaps || (useTLS && started)) ↔
      (useTLS=true → ldaps=false → created=started) := by
  cases ldaps with
  | false => cases useTLS <;> simp
  | true =>
    obtain ⟨hu,hc⟩ := h rfl
    simp [hu,hc]

/-- A connect ends in the error callback or reaches what the uri names, protected if it is an
ldaps one, and alike on both platforms, exactly when: a certificate file has a path, the uri has a
host, an ldaps uri goes with `useTLS` and a socket factory, and for an ldap one with `useTLS` the
factory is created if and only if StartTLS leaves TLS in place. -/
theorem targets_follow_iff (w : Android.World) (w' : Ios.World) (useTLS : Bool)
    (o : ConnectOptions) (named : String → Url) (accepts : String → Bool) (created : Bool)
    (refused : Option Android.LDAPException) (rejects : String → Option ErrorCode)
    (startTls : Option Ios.TlsFailure) (errno : Int) :
    let uri := o.uri.getD defaultUri
    let a := (w.withTLS useTLS).reach o (Android.connectLib named accepts created refused)
    let b := (w'.withTLS useTLS).reach named o (Ios.connectLib named rejects startTls errno)
    a.Follows (named uri) ∧ b.Follows (named uri) ∧ a.Alike b ↔
      (accepts uri=true →
        (useTLS=true → Android.World.Certified w.connection) ∧ (named uri).host≠none ∧
        (refused=none →
          ((named uri).ldaps=true → useTLS=true ∧ created=true) ∧
          (rejects uri=none → useTLS=true → (named uri).ldaps=false →
            created=startTls.all Ios.TlsFailure.inPlace))) := by
  intro uri a b
  have hca := w.contact_iff useTLS o named accepts created refused
  have hra := w.raised_iff useTLS o named accepts created refused
  have hcb := w'.contact_iff useTLS o named rejects startTls errno
  have hb : b.Follows (named uri) := w'.follows useTLS o named rejects startTls errno
  rw [Reach.follows_iff,Reach.alike_iff,and_iff_right hb]
  constructor
  · intro ⟨⟨hr,ha⟩,hl⟩ hacc
    obtain ⟨hy,hh⟩ : (useTLS=true → Android.World.Certified w.connection) ∧
        (named uri).host≠none := by
      by_contra hn
      exact hr (hra.mpr ⟨hacc,hn⟩)
    refine ⟨hy,hh,?_⟩
    intro hf
    have hta := (hca _).mpr ⟨hacc,⟨hy,hh⟩,hf,rfl⟩
    have hs : (named uri).ldaps=true → useTLS=true ∧ created=true := by
      intro hs
      exact Bool.and_eq_true_iff.mp ((ha _ hta).2.2 hs)
    refine ⟨hs,?_⟩
    intro hj
    have he := congrArg Target.secure (hl _ _ hta ((hcb _).mpr ⟨hj,rfl⟩))
    exact (secure_eq_iff hs).mp he
  · intro h
    refine ⟨⟨?_,?_⟩,?_⟩
    · intro hr
      obtain ⟨hacc,hn⟩ := hra.mp hr
      exact hn ⟨(h hacc).1,(h hacc).2.1⟩
    · intro t ht
      obtain ⟨hacc,-,hf,rfl⟩ := (hca t).mp ht
      refine ⟨rfl,rfl,?_⟩
      intro hs
      exact Bool.and_eq_true_iff.mpr (((h hacc).2.2 hf).1 hs)
    · intro t t' ht ht'
      obtain ⟨hacc,-,hf,rfl⟩ := (hca t).mp ht
      obtain ⟨hj,rfl⟩ := (hcb t').mp ht'
      obtain ⟨hs,hp⟩ := (h hacc).2.2 hf
      congr 1
      exact (secure_eq_iff hs).mpr (hp hj)

/-- Without `useTLS` an ldaps server is contacted in plaintext on Android and over TLS on iOS, and
on Android a URL without a host ends in an exception that no callback reports. -/
theorem ldaps_in_plaintext :
    let secured : String → Url := fun _ => ⟨true,some "127.0.0.1",636⟩
    let hostless : String → Url := fun _ => ⟨false,none,389⟩
    let a := Android.World.reach (Android.init none .absent) { uri := .val "ldaps://127.0.0.1" }
      (Android.connectLib secured (fun _ => true) true none)
    let b := Ios.World.reach secured Ios.init { uri := .val "ldaps://127.0.0.1" }
      (Ios.connectLib secured (fun _ => none) none ldapSuccess)
    let c := Android.World.reach (Android.init none .absent) { uri := .val "ldap://" }
      (Android.connectLib hostless (fun _ => true) true none)
    ¬a.Follows (secured "ldaps://127.0.0.1") ∧ ¬a.Alike b ∧ ¬c.Follows (hostless "ldap://") := by
  simp [Android.World.reach_eq,Ios.World.reach_eq,Android.connectLib,Ios.connectLib,Android.init,
    Android.ConnectionProxy.create,Android.ConnectionProxy.startTLS,Ios.World.secure,Reach.Follows,
    Reach.Alike]

end TiLdap
