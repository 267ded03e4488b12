import Mathlib.Data.List.Basic

namespace TiLdap

/-- The identity of a library session: an `LDAPConnection` object or an `LDAP*`. -/
abbrev Handle := Nat

/-- Request objects are named in the order in which they are created. -/
abbrev RequestId := Nat

def ldapSuccess : Int := 0
def ldapBusy : Int := 0x33
def ldapUnavailable : Int := 0x34
def ldapDecodingError : Int := -4
def ldapTimeout : Int := -5
def ldapParamError : Int := -9

/-- A code that some library function reports or stores for a failure. -/
abbrev ErrorCode := {c : Int // c≠ldapSuccess}

inductive Method where
  | connect
  | simpleBind
  | saslBind
  | search
  deriving DecidableEq, Repr

def Method.isBind : Method → Bool
  | .simpleBind => true
  | .saslBind => true
  | _ => false

/-- Where the text of an error callback comes from. -/
inductive ErrorText where
  | text (s : String)
  | err2string (code : Int)
  | diagnostic (s : String)
  | codeName (code : Int)
  deriving DecidableEq, Repr

/-- The event handed to a callback, with a platform's own search result objects. -/
inductive Callback (ρ : Type) where
  | success (method : Method) (result : Option ρ)
  | error (method : Method) (code : Int) (message : ErrorText)
  deriving DecidableEq, Repr

def Callback.result? {ρ : Type} : Callback ρ → Option ρ
  | .success _ p => p
  | .error _ _ _ => none

def Callback.isSuccess {ρ : Type} : Callback ρ → Bool
  | .success _ _ => true
  | .error _ _ _ => false

/-- What `sendRequest` makes of the value that `execute` returned. -/
inductive Verdict where
  | initiated
  | succeeded
  | failed (code : Int) (message : ErrorText)
  deriving DecidableEq, Repr

/-- What happens to the library sessions of a connection proxy. `transport` records, at the
end of a connect, whether TLS was asked for and whether it is in force. -/
inductive SessionEvent where
  | opened (h : Handle)
  | transport (h : Handle) (useTLS secure : Bool)
  | bound (h : Handle) (password : Option String) (accepted : Bool)
  | closed (h : Handle)
  deriving DecidableEq, Repr

/-- The life of asynchronous searches. An abandon may be refused by the library. -/
inductive Traffic where
  | sent (r : RequestId) (h : Handle) (id : Nat)
  | delivered (r : RequestId)
  | abandoned (r : RequestId) (h : Handle) (id : Nat) (ok : Bool)
  deriving DecidableEq, Repr

/-- How a call can end without a value. `nullHandle`: a session operation was issued on a null
handle. `unsetOutput`: an output variable that the library left alone was read. `assertion`: a
library assertion on another argument failed. `raised`: a null object met a collection or a
dereference. `usage` and `illTyped`: an argument of the request itself was rejected. -/
inductive Fault where
  | nullHandle
  | unsetOutput
  | assertion
  | raised
  | usage
  | illTyped
  deriving DecidableEq, Repr

/-- The faults that come from a handle, a cursor or an output that is not there. -/
def Fault.missing : Fault → Bool
  | .nullHandle => true
  | .unsetOutput => true
  | .assertion => true
  | .raised => true
  | .usage => false
  | .illTyped => false

/-- The accessors of a search result object. -/
inductive ResultCall where
  | countEntries
  | firstEntry
  | nextEntry
  deriving DecidableEq, Repr

/-- The accessors of an entry object. -/
inductive EntryCall where
  | getDn
  | firstAttribute
  | nextAttribute
  | getValues (name : String)
  | getValuesLen (name : String)
  deriving DecidableEq, Repr

/-- The accessors of an entry object that an attribute loop uses. -/
inductive EntryWalk where
  | getDn
  | firstAttribute
  | nextAttribute
  deriving DecidableEq, Repr

def EntryWalk.call : EntryWalk → EntryCall
  | .getDn => .getDn
  | .firstAttribute => .firstAttribute
  | .nextAttribute => .nextAttribute

structure Attribute where
  name : String
  values : List (List UInt8)
  deriving DecidableEq, Repr

structure Entry where
  dn : String
  attributes : List Attribute
  deriving DecidableEq, Repr

/-- Attribute descriptions are compared without regard to case. -/
def Entry.attribute? (e : Entry) (name : String) : Option Attribute :=
  e.attributes.find? fun a => a.name.toLower==name.toLower

/-- The values that an entry holds under a name; there are none where it lacks the attribute. -/
def Entry.valuesOf (e : Entry) (name : String) : List (List UInt8) :=
  match e.attribute? name with
  | none => []
  | some a => a.values

/-- What a call on an object returns. An entry object is seen as the entry it stands for, and
`gone` answers a call on an object that was never obtained. -/
inductive Answer where
  | count (n : Nat)
  | entry (e : Option Entry)
  | text (s : Option String)
  | gone
  deriving DecidableEq, Repr

/-- A message of a search response before the final one. -/
inductive Item where
  | entry (e : Entry)
  | reference (urls : List String)
  | intermediate
  deriving DecidableEq, Repr

def Item.entry? : Item → Option Entry
  | .entry e => some e
  | _ => none

/-- The entries of a response, in the order of their arrival. -/
def itemEntries (items : List Item) : List Entry := items.filterMap Item.entry?

/-- The arguments of a search as they are handed to the library. -/
structure SearchRequest where
  base : String
  scope : Int
  filter : String
  attrs : Option (List String)
  typesOnly : Bool
  sizeLimit : Int
  timeLimit : Int
  deriving DecidableEq, Repr

/-- A search request as the server gets it. -/
structure SearchMessage where
  base : String
  scope : Int
  filter : String
  attributes : List String
  typesOnly : Bool
  sizeLimit : Int
  timeLimit : Int
  deriving DecidableEq, Repr

/-- The scopes are base object, one level, subtree and children. -/
def legalScope (scope : Int) : Prop := 0≤ scope ∧ scope≤3

instance (scope : Int) : Decidable (legalScope scope) := inferInstanceAs (Decidable (_ ∧ _))

/-- What the protocol admits: a defined scope, and limits that are not negative. -/
def SearchMessage.Legal (m : SearchMessage) : Prop :=
  legalScope m.scope ∧ 0≤ m.sizeLimit ∧ 0≤ m.timeLimit

end TiLdap
