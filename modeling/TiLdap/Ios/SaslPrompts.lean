import TiLdap.Framework.CString
import TiLdap.Ios.Steps

namespace TiLdap.Ios

open Framework

def saslCbListEnd : Nat := 0
def saslCbUser : Nat := 0x4001
def saslCbAuthname : Nat := 0x4002
def saslCbPass : Nat := 0x4004
def saslCbGetrealm : Nat := 0x4008

/-- A prompt, with the bytes that its result points at. -/
structure SaslInteract where
  id : Nat
  result : Option (List UInt8)
  len : UInt32
  deriving DecidableEq, Repr

/-- The SASL defaults that a session has options for. -/
inductive SaslOption where
  | mech
  | realm
  | authcid
  | authzid
  deriving DecidableEq, Repr

abbrev SaslDefaults := SaslOption → Option CString

structure MyLDAPAuth where
  passwd : Option CString
  mech : Option CString
  realm : Option CString
  authorizationId : Option CString
  authenticationId : Option CString

namespace SaslBind

/-- A given value is copied as a zero-terminated string. The library sets its output variable
only where there is a session to ask; the password has no option. -/
def getAuthValue (session : Option SaslDefaults) (arg : Arg String) (option : Option SaslOption) :
    Except Fault (Option CString) :=
  match arg with
  | .val s => .ok (some (CString.read (utf8 s)))
  | _ => match option with
    | none => .ok none
    | some k => match session with
      | none => .error .unsetOutput
      | some d => .ok (d k)

/-- The first part of `execute:async:`. -/
def auth (session : Option SaslDefaults) (o : SaslBindOptions) : Except Fault MyLDAPAuth := do
  let passwd ← getAuthValue session o.password none
  let mech ← getAuthValue session o.mech (some .mech)
  let realm ← getAuthValue session o.realm (some .realm)
  let authorizationId ← getAuthValue session o.authorizationId (some .authzid)
  let authenticationId ← getAuthValue session o.authenticationId (some .authcid)
  return ⟨passwd,mech,realm,authorizationId,authenticationId⟩

/-- A null pointer is answered with an empty string. -/
def bytes (v : Option CString) : List UInt8 :=
  match v with
  | none => []
  | some c => c.bytes

def put (p : SaslInteract) (v : Option CString) : SaslInteract :=
  { p with result := some (bytes v), len := UInt32.ofNat (bytes v).length }

def answer (a : MyLDAPAuth) (p : SaslInteract) : SaslInteract :=
  let p := { p with result := none, len := 0 }
  if p.id=saslCbGetrealm then put p a.realm
  else if p.id=saslCbAuthname then put p a.authenticationId
  else if p.id=saslCbPass then put p a.passwd
  else if p.id=saslCbUser then put p a.authorizationId
  else p

/-- The loop over the prompts in memory. -/
def answerAll (a : MyLDAPAuth) : List SaslInteract → List SaslInteract
  | [] => []
  | p::ps => if p.id=saslCbListEnd then p::ps else answer a p::answerAll a ps

def ldapSaslInteract (ld : Option Handle) (a : MyLDAPAuth) (sin : List SaslInteract) :
    Int × List SaslInteract :=
  match ld with
  | none => (ldapParamError,sin)
  | some _ => (ldapSuccess,answerAll a sin)

/-- Where the value for a prompt comes from: an option of the bind and a default of the session. -/
def source (d : SaslDefaults) (o : SaslBindOptions) (id : Nat) :
    Option (Arg String × Option CString) :=
  if id=saslCbGetrealm then some (o.realm,d .realm)
  else if id=saslCbAuthname then some (o.authenticationId,d .authcid)
  else if id=saslCbPass then some (o.password,none)
  else if id=saslCbUser then some (o.authorizationId,d .authzid)
  else none

/-- What `getAuthValue` makes of an option and a default. -/
def resolve (arg : Arg String) (default : Option CString) : Option CString :=
  match arg with
  | .val s => some (CString.read (utf8 s))
  | _ => default

theorem getAuthValue_session (d : SaslDefaults) (arg : Arg String) (option : Option SaslOption) :
    getAuthValue (some d) arg option=.ok (resolve arg (option.bind d)) := by
  cases arg <;> cases option <;> rfl

theorem auth_session (d : SaslDefaults) (o : SaslBindOptions) : auth (some d) o=
    .ok ⟨resolve o.password none,resolve o.mech (d .mech),resolve o.realm (d .realm),
      resolve o.authorizationId (d .authzid),resolve o.authenticationId (d .authcid)⟩ := by
  simp only [auth,getAuthValue_session]
  rfl

/-- Without a session there is only the option. -/
theorem getAuthValue_none (arg : Arg String) (k : SaslOption) : getAuthValue none arg (some k)=
    match arg.get? with
    | none => .error .unsetOutput
    | some s => .ok (some (CString.read (utf8 s))) := by
  cases arg <;> rfl

/-- Without a session the credentials are read from an unset variable exactly when the model of
the bind says so. -/
theorem execute_unsetOutput (w : World) (q : Request) (o : SaslBindOptions) (lib : BindLib)
    (d : SaslDefaults) :
    (World.SaslBind.execute w q o lib).result=.error .unsetOutput ↔
      auth (w.connection.ld.map fun _ => d) o=.error .unsetOutput := by
  rw [World.SaslBind.execute]
  cases hld : w.connection.ld with
  | none =>
    have hp : getAuthValue none o.password none=.ok (resolve o.password none) := by
      cases o.password <;> rfl
    simp only [Option.map_none,auth,hp,getAuthValue_none]
    cases o.mech.get? <;> cases o.realm.get? <;> cases o.authorizationId.get? <;>
      cases o.authenticationId.get? <;> simp [World.bindOn,hld,bind,Except.bind,pure,Except.pure]
  | some h =>
    simp [World.bindOn,hld,auth_session]

/-- The answer to a prompt is the value that it asks for, and nothing for another prompt. -/
theorem answer_eq (d : SaslDefaults) (o : SaslBindOptions) {a : MyLDAPAuth}
    (ha : auth (some d) o=.ok a) (p : SaslInteract) :
    answer a p=match source d o p.id with
      | none => { p with result := none, len := 0 }
      | some x => put p (resolve x.1 x.2) := by
  rw [auth_session] at ha
  cases ha
  simp only [answer,source]
  split_ifs <;> rfl

/-- The loop stops at the end of the list and leaves what follows alone. -/
theorem answerAll_append (a : MyLDAPAuth) {ps : List SaslInteract}
    (hps : ∀p∈ps,p.id≠saslCbListEnd) {last : SaslInteract} (hl : last.id=saslCbListEnd)
    (rest : List SaslInteract) :
    answerAll a (ps++last::rest)=ps.map (answer a)++last::rest := by
  induction ps with
  | nil => simp [answerAll,hl]
  | cons p ps ih =>
    have hp : ¬p.id=saslCbListEnd := hps p List.mem_cons_self
    rw [List.cons_append,answerAll,if_neg hp,ih fun q hq => hps q (List.mem_cons_of_mem p hq)]
    rfl

end SaslBind

end TiLdap.Ios
