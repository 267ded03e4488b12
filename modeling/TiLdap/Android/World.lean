import TiLdap.Android.Requests
import TiLdap.Framework.Run

namespace TiLdap.Android

structure ConnectionProxy where
  ld : Option Handle := none
  bound : Bool := false
  useTLS : Bool
  certFile : Arg FileArg
  deriving DecidableEq, Repr

inductive TrustManager where
  | trustStore (path : String)
  | trustAll
  deriving DecidableEq, Repr

namespace ConnectionProxy

/-- `handleCreationDict` stores `false` where the application gives no `useTLS`. -/
def create (useTLS : Option Bool) (certFile : Arg FileArg) : ConnectionProxy :=
  { useTLS := useTLS.getD false, certFile := certFile }

def isBound (c : ConnectionProxy) : Bool := c.ld.isSome && c.bound

/-- The socket factory, if any, that `connect` goes on with. `created` says whether
`createSSLSocketFactory` succeeds; its failure is only logged. A `certFile` property without a
path makes the constructor of the trust manager fail. -/
def startTLS (c : ConnectionProxy) (created : Bool) : Except Fault (Option TrustManager) :=
  if c.useTLS then
    match c.certFile with
    | .absent => .ok (if created then some .trustAll else none)
    | .null => .error .usage
    | .val f => match getFilePath f with
        | none => .error .usage
        | some path => .ok (if created then some (.trustStore path) else none)
  else .ok none

end ConnectionProxy

structure LdapUrl where
  host : Option String
  port : Nat
  deriving DecidableEq, Repr

/-- What the SDK does with a connect: its URL parser, which throws where it has no value,
whether an SSL socket factory is created, and the exception of the `LDAPConnection`
constructor, if any. -/
structure ConnectLib where
  parse : String → Option LdapUrl
  created : Bool
  refused : Option LDAPException

structure SaslLib where
  malformed : Option LDAPException
  refused : Option LDAPException
  deriving DecidableEq, Repr

/-- What the SDK does with a search: the exceptions of the `SearchRequest` constructor and of
the call itself, the reply to a synchronous search, and for an asynchronous one how many
message ids were used up before it and which listener events precede its return. A refused one
comes with listener events when its response timer runs out or the connection closes. -/
structure SearchLib where
  malformed : Option LDAPException := none
  refused : Option LDAPException := none
  answer : LDAPResult := ⟨ldapSuccess,none⟩
  entries : List Entry := []
  references : List (List String) := []
  skip : Nat := 0
  early : List ListenerEvent := []
  deriving DecidableEq, Repr

/-- The arguments of the `LDAPConnection` constructor. -/
structure Contact where
  socketFactory : Option TrustManager
  host : String
  port : Nat
  deriving DecidableEq, Repr

/-- One connection proxy, the objects reached from it, and what was observed so far (newest
first). `orphans` are the binds and searches with an error callback that found no session. -/
structure World where
  connection : ConnectionProxy
  nextHandle : Handle := 0
  nextMessage : Handle → Nat := fun _ => 1
  requests : List Request := []
  results : List SearchResultProxy := []
  entries : List EntryProxy := []
  contacts : List Contact := []
  searches : List SearchRequest := []
  ledger : List SessionEvent := []
  traffic : List Traffic := []
  fired : List (RequestId × Callback SearchResultProxy) := []
  faults : List Fault := []
  orphans : List RequestId := []

/-- A request on its way through `execute`: a null result is `none`. -/
structure Executed where
  world : World
  request : Request
  result : Except Fault (Option LDAPResult)

namespace World

def fault (w : World) (f : Fault) : World := { w with faults := f::w.faults }

def enroll (w : World) (q : Request) : World := { w with requests := w.requests++[q] }

/-- The callbacks of request `r`. -/
def fire (w : World) (r : RequestId) (q : Request) (v : Verdict) : World :=
  { w with
    results := w.results++(q.emit v).filterMap Callback.result?
    fired := (q.emit v).map (fun c => (r,c))++w.fired }

/-- The two bind requests override `handleSuccess` to set the bound flag. -/
def handle (w : World) (r : RequestId) (q : Request) (v : Verdict) : World :=
  let w' := w.fire r q v
  if q.method.isBind ∧ v=.succeeded then
    { w' with connection := { w'.connection with bound := true } }
  else w'

/-- One call of the listener of request `r` by the SDK's reader. -/
def listen (w : World) (r : RequestId) (q : Request) (ev : ListenerEvent) : World × Request :=
  match q.listener with
  | none => (w,q)
  | some l => match ev with
    | .searchEntryReturned e => (w,q.searchEntryReturned l e)
    | .searchReferenceReturned urls => (w,q.searchReferenceReturned l urls)
    | .searchResultReceived res =>
      let q' := q.searchResultReceived l res
      (({ w with traffic := .delivered r::w.traffic }).fire r q' (verdictOf res),q')

def listenAll (w : World) (r : RequestId) (q : Request) : List ListenerEvent → World × Request
  | [] => (w,q)
  | ev::evs =>
    let x := w.listen r q ev
    listenAll x.1 r x.2 evs

namespace Connect

def execute (w : World) (q : Request) (o : ConnectOptions) (lib : ConnectLib) : Executed :=
  match lib.parse (o.uri.getD defaultUri) with
  | none => ⟨w,q,.ok none⟩
  | some url => match w.connection.startTLS lib.created with
    | .error f => ⟨w,q,.error f⟩
    | .ok factory => match url.host with
      | none => ⟨w,q,.error .usage⟩
      | some host =>
        let w' := { w with contacts := ⟨factory,host,url.port⟩::w.contacts }
        match lib.refused with
        | some e => ⟨w',q,.ok (some e.toLDAPResult)⟩
        | none =>
          let h := w.nextHandle
          ⟨{ w' with
              connection := { w.connection with ld := some h }
              nextHandle := h+1
              ledger := .transport h w.connection.useTLS factory.isSome::.opened h::w.ledger },
            q,.ok (some ⟨ldapSuccess,none⟩)⟩

end Connect

/-- `_connection.getLd().bind(request)`. -/
def bindOn (w : World) (q : Request) (password : Arg String) (refused : Option LDAPException) :
    Executed :=
  match w.connection.ld with
  | none => ⟨w,q,.error .nullHandle⟩
  | some h =>
    ⟨{ w with ledger := .bound h password.get? refused.isNone::w.ledger },q,
      .ok (some (match refused with
        | none => ⟨ldapSuccess,none⟩
        | some e => e.toLDAPResult))⟩

namespace SaslBind

/-- Building the SASL request comes first and does not touch the session. -/
def execute (w : World) (q : Request) (o : SaslBindOptions) (lib : SaslLib) : Executed :=
  match lib.malformed with
  | some e => ⟨w,q,.ok (some e.toLDAPResult)⟩
  | none => w.bindOn q o.password lib.refused

end SaslBind

namespace Search

def definedValueOf (scope : Int) : Option Int :=
  if 0≤ scope ∧ scope≤3 then some scope else none

/-- The request that `execute` builds; an `attrs` value that is no array is ignored. -/
def request (o : SearchOptions) (scope : Int) : SearchRequest where
  base := o.base.getD ""
  scope := scope
  filter := o.filter.getD defaultFilter
  attrs := match o.attrs with
    | .val (.array names) => some names
    | _ => none
  typesOnly := o.attrsOnly.getD false
  sizeLimit := o.sizeLimit.getD 0
  timeLimit := o.timeLimit.getD 0

def search (w : World) (q : Request) (h : Handle) (rq : SearchRequest) (lib : SearchLib) :
    Executed :=
  let w' := { w with searches := rq::w.searches }
  match lib.refused with
  | some e => ⟨w',q,.ok (some e.toLDAPResult)⟩
  | none =>
    let s : SearchResult := ⟨lib.answer,lib.entries,lib.references,lib.entries.length⟩
    ⟨{ w' with nextMessage := Function.update w.nextMessage h (w.nextMessage h+lib.skip+1) },
      { q with ldapResult := some s },.ok (some s.toLDAPResult)⟩

def asyncSearch (w : World) (r : RequestId) (q : Request) (h : Handle) (rq : SearchRequest)
    (lib : SearchLib) : Executed :=
  let w' := { w with searches := rq::w.searches }
  let q' := { q with ldapResult := none, listener := some {} }
  match lib.refused with
  | some e =>
    -- The SDK registers the listener and arms its response timer before it sends the message, and
    -- an exception from there on undoes neither.
    let x := w'.listenAll r q' lib.early
    ⟨x.1,x.2,.ok (some e.toLDAPResult)⟩
  | none =>
    let id := w.nextMessage h+lib.skip
    let sent := { w' with
      nextMessage := Function.update w.nextMessage h (id+1)
      traffic := .sent r h id::w.traffic }
    let x := sent.listenAll r q' lib.early
    -- The id is assigned only now, after whatever the reader did meanwhile.
    ⟨x.1,{ x.2 with asyncRequestId := some id },.ok (x.2.ldapResult.map (·.toLDAPResult))⟩

def execute (w : World) (r : RequestId) (q : Request) (o : SearchOptions) (lib : SearchLib) :
    Executed :=
  if w.connection.isBound then
    -- The constructor of the search request parses the filter before it looks at the scope.
    match lib.malformed with
    | some e => ⟨w,q,.ok (some e.toLDAPResult)⟩
    | none => match definedValueOf (o.scope.getD scopeDefault) with
      | none => ⟨w,q,.error .usage⟩
      | some scope => match w.connection.ld with
        | none => ⟨w,q,.error .nullHandle⟩
        | some h =>
          if o.async.getD false then asyncSearch w r q h (request o scope) lib
          else search w q h (request o scope) lib
  else
    ⟨w.fire r q (.failed (-2) (.text "Connection is not bound")),q,
      .ok (some ⟨ldapUnavailable,none⟩)⟩

end Search

/-- Binds and searches need a session; one that finds none is noted when it can report it. -/
def note (w : World) (q : Request) : World :=
  if q.method≠.connect ∧ w.connection.ld=none ∧ q.callbacks.error=true then
    { w with orphans := w.requests.length::w.orphans }
  else w

/-- What `sendRequest` concludes; an exception that leaves `execute` leaves it as well. -/
def verdict (async : Bool) (x : Executed) : Except Fault Verdict :=
  x.result.map fun result => dispatch async x.request.asyncRequestId result

def settle (r : RequestId) (async : Bool) (x : Executed) : World :=
  let w := x.world.enroll x.request
  match verdict async x with
  | .error f => w.fault f
  | .ok v => w.handle r x.request v

def sendRequest (w : World) (method : Method) (callbacks : Callbacks) (async : Bool)
    (execute : World → RequestId → Request → Executed) : World :=
  let q : Request := { method := method, callbacks := callbacks }
  settle w.requests.length async (execute (w.note q) w.requests.length q)

def disconnect (w : World) : World :=
  match w.connection.ld with
  | none => w
  | some h => { w with
      connection := { w.connection with ld := none, bound := false }
      ledger := .closed h::w.ledger }

/-- `refused` says that the SDK's `abandon` throws; the id is then kept. -/
def abandon (w : World) (r : RequestId) (refused : Bool) : World :=
  match w.requests[r]? with
  | none => w
  | some q => match q.asyncRequestId with
    | none => w
    | some id => match w.connection.ld with
      | none => w.fault .nullHandle
      | some h =>
        { w with
          requests := if refused then w.requests
            else w.requests.set r { q with asyncRequestId := none }
          traffic := .abandoned r h id (!refused)::w.traffic }

def resultCall (w : World) (i : Nat) (c : ResultCall) : World :=
  match w.results[i]? with
  | none => w
  | some p => match c with
    | .countEntries => match p.countEntries with
        | .error f => w.fault f
        | .ok _ => w
    | .firstEntry => match p.firstEntry with
        | .error f => w.fault f
        | .ok (e,p') => { w with results := w.results.set i p', entries := w.entries++e.toList }
    | .nextEntry =>
        { w with
          results := w.results.set i p.nextEntry.2
          entries := w.entries++p.nextEntry.1.toList }

/-- The accessors of an entry only move its attribute iterator. -/
def entryCall (w : World) (i : Nat) (c : EntryCall) : World :=
  match w.entries[i]? with
  | none => w
  | some p => match c with
    | .firstAttribute => { w with entries := w.entries.set i p.firstAttribute.2 }
    | .nextAttribute => { w with entries := w.entries.set i p.nextAttribute.2 }
    | .getDn => w
    | .getValues _ => w
    | .getValuesLen _ => w

end World

/-- The calls an application can make, each with what the SDK does in it, and the calls of a
listener by the SDK. -/
inductive Op where
  | setUseTLS (b : Bool)
  | setCertFile (f : Arg FileArg)
  | connect (o : ConnectOptions) (cb : Callbacks) (lib : ConnectLib)
  | simpleBind (o : SimpleBindOptions) (cb : Callbacks) (refused : Option LDAPException)
  | saslBind (o : SaslBindOptions) (cb : Callbacks) (lib : SaslLib)
  | search (o : SearchOptions) (cb : Callbacks) (lib : SearchLib)
  | disconnect
  | release
  | abandon (r : RequestId) (refused : Bool)
  | listener (r : RequestId) (ev : ListenerEvent)
  | resultCall (i : Nat) (c : ResultCall)
  | entryCall (i : Nat) (c : EntryCall)

open World in
def step (w : World) : Op → World
  | .setUseTLS b => { w with connection := { w.connection with useTLS := b } }
  | .setCertFile f => { w with connection := { w.connection with certFile := f } }
  | .connect o cb lib => w.sendRequest .connect cb (o.async.getD false)
      fun w _ q => Connect.execute w q o lib
  | .simpleBind o cb refused => w.sendRequest .simpleBind cb (o.async.getD false)
      fun w _ q => w.bindOn q o.password refused
  | .saslBind o cb lib => w.sendRequest .saslBind cb (o.async.getD false)
      fun w _ q => SaslBind.execute w q o lib
  | .search o cb lib => w.sendRequest .search cb (o.async.getD false)
      fun w r q => Search.execute w r q o lib
  | .disconnect => w.disconnect
  | .release => w.disconnect
  | .abandon r refused => w.abandon r refused
  | .listener r ev => match w.requests[r]? with
      | none => w
      | some q =>
        let x := w.listen r q ev
        { x.1 with requests := x.1.requests.set r x.2 }
  | .resultCall i c => w.resultCall i c
  | .entryCall i c => w.entryCall i c

def init (useTLS : Option Bool) (certFile : Arg FileArg) : World :=
  { connection := ConnectionProxy.create useTLS certFile }

end TiLdap.Android
