import TiLdap.Interface.Observations

namespace TiLdap

/-- What an LDAP URL names. The port is the default of the scheme where the URL has none, and the
host is missing where the URL has none. -/
structure Url where
  ldaps : Bool
  host : Option String
  port : Nat
  deriving DecidableEq, Repr

/-- The server that a session goes to, and whether its transport is protected. -/
structure Target where
  host : Option String
  port : Nat
  secure : Bool
  deriving DecidableEq, Repr

/-- How a connect ends: in the error callback, in an exception, or with a session. -/
inductive Reach where
  | failed
  | raised (f : Fault)
  | contact (t : Target)
  deriving DecidableEq, Repr

/-- A connect ends in the error callback, or its session goes where the URL says and is protected
if the scheme demands it. -/
def Reach.Follows (u : Url) : Reach → Prop
  | .failed => True
  | .raised _ => False
  | .contact t => t.host=u.host ∧ t.port=u.port ∧ (u.ldaps=true → t.secure=true)

/-- Two connects that both get a session get it to the same server, protected or not alike. -/
def Reach.Alike : Reach → Reach → Prop
  | .contact t,.contact t' => t=t'
  | _,_ => True

theorem Reach.follows_iff (u : Url) (a : Reach) :
    a.Follows u ↔ (¬∃f,a=.raised f) ∧ ∀t,a=.contact t →
      t.host=u.host ∧ t.port=u.port ∧ (u.ldaps=true → t.secure=true) := by
  cases a <;> simp [Follows]

theorem Reach.alike_iff (a b : Reach) :
    a.Alike b ↔ ∀t t',a=.contact t → b=.contact t' → t=t' := by
  cases a <;> cases b <;> simp [Alike]

end TiLdap
