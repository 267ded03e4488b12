import Mathlib.Data.List.Basic

namespace TiLdap

/-- The value of a key in a dictionary that the application passes. -/
inductive Arg (α : Type) where
  | absent
  | null
  | val (a : α)
  deriving DecidableEq, Repr

namespace Arg

variable {α : Type}

/-- The typed accessors of the Titanium converters: an absent or null key yields the default. -/
def getD (d : α) : Arg α → α
  | val a => a
  | _ => d

def get? : Arg α → Option α
  | val a => some a
  | _ => none

/-- The key with a default spelled out where there is no value. -/
def orDefault (d : α) : Arg α → Arg α
  | val a => val a
  | _ => val d

/-- Spelling a default out changes nothing for an accessor with that default. -/
theorem getD_spelled (b : Bool) (d : α) (a : Arg α) :
    (if b then a.orDefault d else a).getD d=a.getD d := by
  cases b with
  | false => rfl
  | true => cases a <;> rfl

end Arg

/-- The objects accepted as the path of a certificate file. A blob has a native path only
when it is backed by a file. -/
inductive FileArg where
  | file (path : String)
  | url (path : String)
  | blob (path : Option String)
  | other
  deriving DecidableEq, Repr

def getFilePath : FileArg → Option String
  | .file p => some p
  | .url p => some p
  | .blob p => p
  | .other => none

inductive AttrsArg where
  | array (names : List String)
  | other
  deriving DecidableEq, Repr

structure ConnectOptions where
  async : Arg Bool := .absent
  uri : Arg String := .absent
  deriving DecidableEq, Repr

structure SimpleBindOptions where
  async : Arg Bool := .absent
  dn : Arg String := .absent
  password : Arg String := .absent
  deriving DecidableEq, Repr

structure SaslBindOptions where
  async : Arg Bool := .absent
  password : Arg String := .absent
  mech : Arg String := .absent
  realm : Arg String := .absent
  authorizationId : Arg String := .absent
  authenticationId : Arg String := .absent
  deriving DecidableEq, Repr

structure SearchOptions where
  async : Arg Bool := .absent
  base : Arg String := .absent
  scope : Arg Int := .absent
  filter : Arg String := .absent
  attrs : Arg AttrsArg := .absent
  attrsOnly : Arg Bool := .absent
  sizeLimit : Arg Int := .absent
  timeLimit : Arg Int := .absent
  deriving DecidableEq, Repr

/-- The attribute names that a search asks for, none where it does not ask. -/
def SearchOptions.names (o : SearchOptions) : List String :=
  match o.attrs with
  | .val (.array names) => names
  | _ => []

/-- Which of the two optional callbacks the application passed. -/
structure Callbacks where
  success : Bool
  error : Bool
  deriving DecidableEq, Repr

def defaultUri : String := "ldap://127.0.0.1:389"

def defaultFilter : String := "(objectClass=*)"

/-- `SCOPE_DEFAULT` of the module, `LDAP_SCOPE_DEFAULT` of the library. -/
def scopeDefault : Int := -1

/-- The optional keys of a search that have a documented default. -/
inductive SearchKey where
  | scope
  | filter
  | attrs
  | attrsOnly
  | sizeLimit
  | timeLimit
  deriving DecidableEq, Repr

/-- The options with the documented defaults spelled out for those of the chosen keys that are
omitted or null. -/
def SearchOptions.spell (o : SearchOptions) (keys : SearchKey → Bool) : SearchOptions where
  async := o.async
  base := o.base
  scope := if keys .scope then o.scope.orDefault scopeDefault else o.scope
  filter := if keys .filter then o.filter.orDefault defaultFilter else o.filter
  attrs := if keys .attrs then o.attrs.orDefault (.array []) else o.attrs
  attrsOnly := if keys .attrsOnly then o.attrsOnly.orDefault false else o.attrsOnly
  sizeLimit := if keys .sizeLimit then o.sizeLimit.orDefault 0 else o.sizeLimit
  timeLimit := if keys .timeLimit then o.timeLimit.orDefault 0 else o.timeLimit

/-- What the typed accessors read of spelled out options. -/
theorem SearchOptions.spell_read (o : SearchOptions) (keys : SearchKey → Bool) :
    (o.spell keys).scope.getD scopeDefault=o.scope.getD scopeDefault ∧
    (o.spell keys).filter.getD defaultFilter=o.filter.getD defaultFilter ∧
    (o.spell keys).names=o.names ∧
    (o.spell keys).attrsOnly.getD false=o.attrsOnly.getD false ∧
    (o.spell keys).sizeLimit.getD 0=o.sizeLimit.getD 0 ∧
    (o.spell keys).timeLimit.getD 0=o.timeLimit.getD 0 := by
  have hn : (o.spell keys).names=o.names := by
    simp only [spell,names]
    split_ifs
    · cases o.attrs <;> rfl
    · rfl
  exact ⟨Arg.getD_spelled _ _ _,Arg.getD_spelled _ _ _,hn,Arg.getD_spelled _ _ _,
    Arg.getD_spelled _ _ _,Arg.getD_spelled _ _ _⟩

/-- Spelling out defaults leaves the values that are there alone. -/
theorem SearchOptions.spell_timeLimit {o : SearchOptions} {v : Int} (ho : o.timeLimit=.val v)
    (keys : SearchKey → Bool) : (o.spell keys).timeLimit=.val v := by
  simp only [spell,ho,Arg.orDefault]
  split_ifs <;> rfl

theorem SearchOptions.spell_attrs (o : SearchOptions) (keys : SearchKey → Bool) :
    (o.spell keys).attrs≠.val .other ↔ o.attrs≠.val .other := by
  simp only [spell]
  split_ifs
  · cases o.attrs <;> simp [Arg.orDefault]
  · rfl

end TiLdap
