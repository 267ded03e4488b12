import TiLdap.Framework.Run
import TiLdap.Interface.Callbacks
import TiLdap.Ios.ResultProxies
import Mathlib.Logic.Function.Basic

namespace TiLdap.Ios

open OpenLdap

structure ConnectionProxy where
  ld : Option Handle := none
  bound : Bool := false
  useTLS : Arg Bool := .val false
  certFile : Arg FileArg := .absent
  caCertFile : Arg FileArg := .absent
  sizeLimit : Arg Int := .absent
  timeLimit : Arg Int := .absent
  deriving DecidableEq, Repr

def ConnectionProxy.isBound (c : ConnectionProxy) : Bool := c.ld.isSome && c.bound

/-- The limits stored in a session; a negative number of seconds is no timeout. -/
structure Limits where
  sizeLimit : Int := 0
  timeLimit : Int := 0
  apiTimeout : Timeval := ⟨-1,0⟩
  networkTimeout : Timeval := ⟨-1,0⟩
  deriving DecidableEq, Repr

/-- What an `LDAP*` remembers between calls: the last result code, whether its server is
reached over ldaps, and its limits. -/
structure Session where
  errno : Int := ldapSuccess
  ldaps : Bool := false
  limits : Limits := {}
  deriving DecidableEq, Repr

/-- How `ldap_start_tls_s` fails. TLS is in place all the same where the handshake is done and only
the name of the host is not the one in the certificate. -/
structure TlsFailure where
  error : ErrorCode
  inPlace : Bool
  deriving DecidableEq, Repr

/-- What the library does with a connect: the error of `ldap_initialize` for a uri, if any,
whether the uri names an ldaps server, the failure of `ldap_start_tls_s`, if any, and the result
code that the StartTLS exchange leaves. -/
structure ConnectLib where
  rejects : String → Option ErrorCode
  ldaps : String → Bool
  startTls : Option TlsFailure
  errno : Int

/-- Whether StartTLS leaves TLS in place. -/
def ConnectLib.tlsInPlace (lib : ConnectLib) : Bool := lib.startTls.all TlsFailure.inPlace

/-- The error of a bind, if any, and the result code it leaves. -/
structure BindLib where
  refused : Option ErrorCode
  errno : Int
  deriving DecidableEq, Repr

structure SearchLib where
  send : Send
  wait : Wait
  deriving DecidableEq, Repr

structure Request where
  method : Method
  callbacks : Callbacks
  messageId : Int := -1
  ldapMessage : Option Chain := none
  deriving DecidableEq, Repr

def errorVerdict (code : Int) : Verdict := .failed code (.err2string code)

def verdictOf (code : Int) : Verdict :=
  if code=ldapSuccess then .succeeded else errorVerdict code

namespace Request

def resultProxy (q : Request) : Option SearchResultProxy :=
  match q.method with
  | .search => some ⟨q.ldapMessage,none⟩
  | _ => none

def emit (q : Request) (v : Verdict) : List (Callback SearchResultProxy) :=
  q.callbacks.emit q.method q.resultProxy v

/-- A search hands its chain over to the result proxy. -/
def release (q : Request) (v : Verdict) : Request :=
  if q.method=.search ∧ v=.succeeded then { q with ldapMessage := none } else q

end Request

/-- The switch of `waitForResultInThread` on what `ldap_result` returned, with the result code
left in the session. -/
def waitVerdict (a : Reply) : Except Fault (Verdict × Int) :=
  if a.rc=resBind ∨ a.rc=resSearchEntry ∨ a.rc=resSearchResult then
    match a.chain with
    | none => .error .assertion
    | some c =>
      let p := ldapParseResult c
      if p.1=ldapSuccess ∧ p.2=ldapSuccess then .ok (.succeeded,p.2)
      else .ok (errorVerdict p.2,p.2)
  else if a.rc=0 ∨ a.rc= -1 then .ok (errorVerdict a.errno,a.errno)
  else .ok (.failed a.rc (.text "Unexpected response from ldap_result"),a.errno)

/-- A failed assertion or the use of an unset pointer ends the process. -/
def fatal : Fault → Bool
  | .nullHandle => true
  | .unsetOutput => true
  | .assertion => true
  | _ => false

/-- One connection proxy, the objects reached from it, and what was observed so far (newest
first). `orphans` are the binds and searches with an error callback that found no session. -/
structure World where
  connection : ConnectionProxy := {}
  session : Session := {}
  nextHandle : Handle := 0
  nextMessage : Handle → Nat := fun _ => 1
  requests : List Request := []
  results : List SearchResultProxy := []
  entries : List EntryProxy := []
  searches : List SearchRequest := []
  ledger : List SessionEvent := []
  traffic : List Traffic := []
  fired : List (RequestId × Callback SearchResultProxy) := []
  faults : List Fault := []
  orphans : List RequestId := []
  aborted : Bool := false

/-- A request on its way through `execute:async:`. -/
structure Executed where
  world : World
  request : Request
  result : Except Fault Int

namespace World

def fault (w : World) (f : Fault) : World :=
  { w with faults := f::w.faults, aborted := w.aborted || fatal f }

def enroll (w : World) (q : Request) : World := { w with requests := w.requests++[q] }

/-- The callbacks of request `r`. -/
def fire (w : World) (r : RequestId) (q : Request) (v : Verdict) : World :=
  { w with
    results := w.results++(q.emit v).filterMap Callback.result?
    fired := (q.emit v).map (fun c => (r,c))++w.fired }

/-- The two bind requests override `handleSuccess:` to set the bound flag. -/
def handle (w : World) (r : RequestId) (q : Request) (v : Verdict) : World :=
  let w' := w.fire r q v
  if q.method.isBind ∧ v=.succeeded then
    { w' with connection := { w'.connection with bound := true } }
  else w'

def store (w : World) (errno : Int) : World :=
  { w with session := { w.session with errno := errno } }

namespace Connect

def timeval (value : Int) : Timeval := if value<0 then ⟨-1,-1⟩ else ⟨value,0⟩

/-- `setSizeLimit` and `setTimeLimit` of the connection. -/
def limits (c : ConnectionProxy) : Limits :=
  let l : Limits := {}
  let l := match c.sizeLimit with
    | .val v => { l with sizeLimit := v }
    | _ => l
  match c.timeLimit with
  | .val v => { l with
      timeLimit := (timeval v).sec, apiTimeout := timeval v, networkTimeout := timeval v }
  | _ => l

/-- The result is that of `ldap_initialize`: a StartTLS failure is only logged. TLS is in force
when the server is reached over ldaps or StartTLS left it in place. -/
def execute (w : World) (q : Request) (o : ConnectOptions) (lib : ConnectLib) : Executed :=
  let uri := o.uri.getD defaultUri
  match lib.rejects uri with
  | some e => ⟨w,q,.ok e⟩
  | none =>
    let h := w.nextHandle
    let useTLS := w.connection.useTLS.getD false
    let secure := lib.ldaps uri || (useTLS && lib.tlsInPlace)
    ⟨{ w with
        connection := { w.connection with ld := some h }
        session :=
          { errno := if useTLS then lib.errno else ldapSuccess
            ldaps := lib.ldaps uri
            limits := limits w.connection }
        nextHandle := h+1
        ledger := .transport h useTLS secure::.opened h::w.ledger },
      q,.ok ldapSuccess⟩

end Connect

def returnCode (refused : Option ErrorCode) : Int :=
  match refused with
  | none => ldapSuccess
  | some e => e

/-- A bind call of the library on the current session. -/
def bindOn (w : World) (q : Request) (password : Arg String) (lib : BindLib) : Executed :=
  match w.connection.ld with
  | none => ⟨w,q,.error .nullHandle⟩
  | some h =>
    ⟨{ w.store lib.errno with ledger := .bound h password.get? lib.refused.isNone::w.ledger },
      q,.ok (returnCode lib.refused)⟩

namespace SaslBind

/-- `getAuthValue` asks the session for a value that the application does not give, and reads
its output variable whether or not the library set it. -/
def execute (w : World) (q : Request) (o : SaslBindOptions) (lib : BindLib) : Executed :=
  let given := o.mech.get?.isSome && o.realm.get?.isSome &&
    o.authorizationId.get?.isSome && o.authenticationId.get?.isSome
  if w.connection.ld=none ∧ given=false then ⟨w,q,.error .unsetOutput⟩
  else w.bindOn q o.password lib

end SaslBind

namespace Search

def timeVal (o : SearchOptions) : Timeval :=
  match o.timeLimit with
  | .val v => ⟨v,0⟩
  | _ => ⟨-1,-1⟩

def request (o : SearchOptions) (attrs : List String) : SearchRequest where
  base := o.base.getD ""
  scope := o.scope.getD scopeDefault
  filter := o.filter.getD defaultFilter
  attrs := if attrs=[] then none else some attrs
  typesOnly := o.attrsOnly.getD false
  sizeLimit := o.sizeLimit.getD 0
  timeLimit := (timeVal o).sec

def attrs (o : SearchOptions) : Except Fault (List String) :=
  match o.attrs with
  | .val (.array names) => .ok names
  | .val .other => .error .illTyped
  | _ => .ok []

def messageNumber (w : World) (h : Handle) : Send → Nat
  | .sent skip _ => w.nextMessage h+skip
  | _ => w.nextMessage h

/-- The request has left only when it got past the timeout check and the two ways to fail. -/
def leaves (o : SearchOptions) : Send → Bool
  | .sent _ _ => decide (¬((timeVal o).sec=0 ∧ (timeVal o).usec=0))
  | _ => false

/-- The message ids used up by the call. -/
def count (w : World) (h : Handle) (o : SearchOptions) (send : Send) : Handle → Nat :=
  if leaves o send then Function.update w.nextMessage h (messageNumber w h send+1)
  else w.nextMessage

/-- `ldap_search_ext`, whose return value is then replaced by the result code of the session. -/
def ldapSearchExt (w : World) (r : RequestId) (q : Request) (h : Handle) (o : SearchOptions)
    (send : Send) : Executed :=
  let id := messageNumber w h send
  let p := ldapPvtSearch w.session.errno q.messageId (timeVal o) id send
  ⟨{ w.store p.errno with
      nextMessage := count w h o send
      traffic := if leaves o send then .sent r h id::w.traffic else w.traffic },
    { q with messageId := p.msgid },.ok p.errno⟩

def ldapSearchExtS (w : World) (q : Request) (h : Handle) (o : SearchOptions)
    (lib : SearchLib) : Executed :=
  let a := ldapPvtSearchS w.session.errno (timeVal o) (messageNumber w h lib.send) lib.send
    lib.wait
  ⟨{ w.store a.errno with nextMessage := count w h o lib.send },
    { q with ldapMessage := a.chain },.ok a.rc⟩

def execute (w : World) (r : RequestId) (q : Request) (o : SearchOptions) (lib : SearchLib) :
    Executed :=
  if w.connection.isBound then
    match attrs o with
    | .error f => ⟨w,q,.error f⟩
    | .ok names => match w.connection.ld with
      | none => ⟨w,q,.error .nullHandle⟩
      | some h =>
        let w' := { w with searches := request o names::w.searches }
        if o.async.getD false then ldapSearchExt w' r q h o lib.send
        else ldapSearchExtS w' q h o lib
  else
    ⟨w.fire r q (.failed (-2) (.text "[ERROR] Connection is not bound.")),q,.ok (-1)⟩

end Search

/-- Binds and searches need a session; one that finds none is noted when it can report it. -/
def note (w : World) (q : Request) : World :=
  if q.method≠.connect ∧ w.connection.ld=none ∧ q.callbacks.error=true then
    { w with orphans := w.requests.length::w.orphans }
  else w

/-- `waitForResultInThread`, which runs before `sendRequest:` returns. -/
def waitForResult (w : World) (r : RequestId) (q : Request) (wait : Wait) : World :=
  let a := ldapResult w.session.errno wait
  let w' := { w with
    traffic := if a.chain.isSome then .delivered r::w.traffic else w.traffic }
  let q' := { q with ldapMessage := a.chain }
  match waitVerdict a with
  | .error f => (w'.enroll q').fault f
  | .ok (v,errno) => ((w'.store errno).enroll (q'.release v)).handle r q' v

/-- The part of `sendRequest:` after `execute:async:`. -/
def settle (r : RequestId) (async : Bool) (wait : Wait) (x : Executed) : World :=
  match x.result with
  | .error f => (x.world.enroll x.request).fault f
  | .ok code =>
    if async && decide (0≤x.request.messageId) then x.world.waitForResult r x.request wait
    else (x.world.enroll (x.request.release (verdictOf code))).handle r x.request
      (verdictOf code)

def sendRequest (w : World) (method : Method) (callbacks : Callbacks) (async : Bool)
    (wait : Wait) (execute : World → RequestId → Request → Executed) : World :=
  let q : Request := { method := method, callbacks := callbacks }
  settle w.requests.length async wait (execute (w.note q) w.requests.length q)

def disconnect (w : World) : World :=
  match w.connection.ld with
  | none => w
  | some h =>
    if w.connection.bound then
      { w with
        connection := { w.connection with ld := none, bound := false }
        ledger := .closed h::w.ledger }
    else { w with connection := { w.connection with ld := none } }

/-- The stored id stays; the library's answer is not looked at. -/
def abandon (w : World) (r : RequestId) (ok : Bool) (errno : Int) : World :=
  match w.requests[r]? with
  | none => w
  | some q =>
    if q.messageId<0 then w
    else match w.connection.ld with
      | none => w.fault .nullHandle
      | some h => { w.store errno with
          traffic := .abandoned r h q.messageId.toNat ok::w.traffic }

def resultCall (w : World) (i : Nat) (c : ResultCall) : World :=
  match w.results[i]? with
  | none => w
  | some p => match p.call w.connection.ld c with
    | .error f => w.fault f
    | .ok (e,p') => { w with results := w.results.set i p', entries := w.entries++e.toList }

def entryCall (w : World) (i : Nat) (c : EntryCall) (errno : Int) : World :=
  match w.entries[i]? with
  | none => w
  | some p => match p.call w.connection.ld c with
    | .error f => w.fault f
    | .ok p' => { w.store errno with entries := w.entries.set i p' }

end World

/-- The calls an application can make, each with what the library does in it. -/
inductive Op where
  | setUseTLS (b : Arg Bool)
  | setCertFile (f : Arg FileArg)
  | setCaCertFile (f : Arg FileArg)
  | setSizeLimit (v : Arg Int)
  | setTimeLimit (v : Arg Int)
  | connect (o : ConnectOptions) (cb : Callbacks) (lib : ConnectLib)
  | simpleBind (o : SimpleBindOptions) (cb : Callbacks) (lib : BindLib)
  | saslBind (o : SaslBindOptions) (cb : Callbacks) (lib : BindLib)
  | search (o : SearchOptions) (cb : Callbacks) (lib : SearchLib)
  | disconnect
  | destroy
  | abandon (r : RequestId) (ok : Bool) (errno : Int)
  | resultCall (i : Nat) (c : ResultCall)
  | entryCall (i : Nat) (c : EntryCall) (errno : Int)

namespace World

/-- A call in a process that is still running; only a search can wait for a response. -/
def perform (w : World) : Op → World
  | .setUseTLS b => { w with connection := { w.connection with useTLS := b } }
  | .setCertFile f => { w with connection := { w.connection with certFile := f } }
  | .setCaCertFile f => { w with connection := { w.connection with caCertFile := f } }
  | .setSizeLimit v => { w with connection := { w.connection with sizeLimit := v } }
  | .setTimeLimit v => { w with connection := { w.connection with timeLimit := v } }
  | .connect o cb lib => w.sendRequest .connect cb (o.async.getD false) .timedOut
      fun w _ q => Connect.execute w q o lib
  | .simpleBind o cb lib => w.sendRequest .simpleBind cb (o.async.getD false) .timedOut
      fun w _ q => w.bindOn q o.password lib
  | .saslBind o cb lib => w.sendRequest .saslBind cb (o.async.getD false) .timedOut
      fun w _ q => SaslBind.execute w q o lib
  | .search o cb lib => w.sendRequest .search cb (o.async.getD false) lib.wait
      fun w r q => Search.execute w r q o lib
  | .disconnect => w.disconnect
  | .destroy => w.disconnect
  | .abandon r ok errno => w.abandon r ok errno
  | .resultCall i c => w.resultCall i c
  | .entryCall i c errno => w.entryCall i c errno

end World

def step (w : World) (op : Op) : World := if w.aborted then w else w.perform op

/-- A new connection proxy, before the properties of its creation dictionary are set. -/
def init : World := {}

end TiLdap.Ios
