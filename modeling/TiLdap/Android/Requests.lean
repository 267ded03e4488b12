import TiLdap.Interface.Callbacks
import TiLdap.Android.ResultProxies

namespace TiLdap.Android

/-- The lists of `localAsyncSearchResultListener`. -/
structure Listener where
  entryList : List Entry := []
  referenceList : List (List String) := []
  deriving DecidableEq, Repr

inductive ListenerEvent where
  | searchEntryReturned (e : Entry)
  | searchReferenceReturned (urls : List String)
  | searchResultReceived (result : LDAPResult)
  deriving DecidableEq, Repr

/-- A request proxy; the listener is there while the SDK may still call it. -/
structure Request where
  method : Method
  callbacks : Callbacks
  asyncRequestId : Option Nat := none
  ldapResult : Option SearchResult := none
  listener : Option Listener := none
  deriving DecidableEq, Repr

def errorText (r : LDAPResult) : ErrorText :=
  match r.diagnosticMessage with
  | some d => .diagnostic d
  | none => .codeName r.resultCode

def verdictOf (r : LDAPResult) : Verdict :=
  if r.resultCode=ldapSuccess then .succeeded else .failed r.resultCode (errorText r)

/-- The end of `sendRequest`. -/
def dispatch (async : Bool) (id : Option Nat) (result : Option LDAPResult) : Verdict :=
  if async && id.isSome then .initiated
  else match result with
    | none => .failed (-1) (.text "Unknown error occurred")
    | some r => verdictOf r

namespace Request

/-- The argument that `handleSuccess` passes up: only a search has a result object. -/
def resultProxy (q : Request) : Option SearchResultProxy :=
  match q.method with
  | .search => some ⟨q.ldapResult,none⟩
  | _ => none

def emit (q : Request) (v : Verdict) : List (Callback SearchResultProxy) :=
  q.callbacks.emit q.method q.resultProxy v

def searchEntryReturned (q : Request) (l : Listener) (e : Entry) : Request :=
  { q with listener := some { l with entryList := l.entryList++[e] } }

def searchReferenceReturned (q : Request) (l : Listener) (urls : List String) : Request :=
  { q with listener := some { l with referenceList := l.referenceList++[urls] } }

/-- The write of `searchResultReceived`; the callback follows it. -/
def searchResultReceived (q : Request) (l : Listener) (result : LDAPResult) : Request :=
  if result.resultCode=ldapSuccess then
    { q with
      ldapResult := some
        { toLDAPResult := result
          searchEntries := l.entryList
          searchReferences := l.referenceList
          entryCount := l.entryList.length }
      listener := none }
  else { q with listener := none }

end Request

end TiLdap.Android
