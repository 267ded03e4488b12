import TiLdap.Framework.Heap
import TiLdap.Ios.Process
import TiLdap.Ios.Steps

namespace TiLdap.Ios

open Framework OpenLdap

namespace World

/-- What the library stores in `_ldapMessage`, and the verdict that `sendRequest:` then handles if
it comes to that. -/
def settled (async : Bool) (wait : Wait) (x : Executed) : Option Chain × Option Verdict :=
  match x.result with
  | .error _ => (x.request.ldapMessage,none)
  | .ok code =>
    if async && decide (0≤x.request.messageId) then
      let a := ldapResult x.world.session.errno wait
      match waitVerdict a with
      | .error _ => (a.chain,none)
      | .ok y => (a.chain,some y.1)
    else (x.request.ldapMessage,some (verdictOf code))

def obtains (w : World) (o : SearchOptions) (cb : Callbacks) (lib : SearchLib) :
    Option Chain × Option Verdict :=
  let q : Request := { method := .search, callbacks := cb }
  settled (o.async.getD false) lib.wait (Search.execute (w.note q) w.requests.length q o lib)

/-- The chain of a search after its outcome is handled: the request has it unless that was
success, and then a result proxy, which the application sees if it passed a callback. -/
theorem handle_search (w : World) (r : RequestId) {q : Request} (hq : q.method=.search)
    (v : Verdict) :
    ((w.enroll (q.release v)).handle r q v).requests.map Request.ldapMessage=
      w.requests.map Request.ldapMessage++[if v=.succeeded then none else q.ldapMessage] ∧
    ((w.enroll (q.release v)).handle r q v).results=w.results++
      (if v=.succeeded ∧ q.callbacks.success=true then [⟨q.ldapMessage,none⟩] else []) := by
  cases v with
  | initiated => simp [handle,fire,enroll,Request.release,Request.emit,Callbacks.emit]
  | succeeded =>
    cases hs : q.callbacks.success <;>
      simp [handle,fire,enroll,Request.release,Request.emit,Callbacks.emit,hq,hs,
        Method.isBind,Request.resultProxy,Callback.result?]
  | failed code text =>
    cases he : q.callbacks.error <;>
      simp [handle,fire,enroll,Request.release,Request.emit,Callbacks.emit,he,Callback.result?]

theorem settle_search (r : RequestId) (async : Bool) (wait : Wait) {x : Executed}
    (hm : x.request.method=.search) :
    (settle r async wait x).requests.map Request.ldapMessage=
      x.world.requests.map Request.ldapMessage++
        [if (settled async wait x).2=some .succeeded then none else (settled async wait x).1] ∧
    (settle r async wait x).results=x.world.results++
      (if (settled async wait x).2=some .succeeded ∧ x.request.callbacks.success=true then
        [⟨(settled async wait x).1,none⟩] else []) := by
  cases hr : x.result with
  | error f => simp [settle,settled,hr,enroll,fault]
  | ok code =>
    cases hc : async && decide (0≤x.request.messageId) with
    | false => simpa [settle,settled,hr,hc] using handle_search x.world r hm (verdictOf code)
    | true =>
      simp only [settle,settled,hr,hc,if_true,waitForResult]
      cases waitVerdict (ldapResult x.world.session.errno wait) with
      | error f => simp [enroll,fault]
      | ok y =>
        obtain ⟨v,errno⟩ := y
        simpa [store] using handle_search _ r (q := { x.request with
          ldapMessage := (ldapResult x.world.session.errno wait).chain }) hm v

/-- `execute:async:` of a search makes no object but its request. -/
theorem search_objects (w : World) (r : RequestId) (q : Request) (o : SearchOptions)
    (lib : SearchLib) :
    (Search.execute w r q o lib).world.requests=w.requests ∧
    (Search.execute w r q o lib).world.results=w.results ∧
    (Search.execute w r q o lib).request.method=q.method ∧
    (Search.execute w r q o lib).request.callbacks=q.callbacks := by
  rcases search_cases w r q o lib with ⟨-,hx⟩|⟨-,-,hx⟩|⟨-,names,h,-,-,hx⟩
  · rw [hx]
    refine ⟨rfl,?_,rfl,rfl⟩
    cases he : q.callbacks.error <;>
      simp [fire,Request.emit,Callbacks.emit,he,Callback.result?]
  · rw [hx]
    exact ⟨rfl,rfl,rfl,rfl⟩
  · rw [hx]
    split_ifs <;> exact ⟨rfl,rfl,rfl,rfl⟩

theorem perform_search (w : World) (o : SearchOptions) (cb : Callbacks) (lib : SearchLib) :
    (w.perform (.search o cb lib)).requests.map Request.ldapMessage=
      w.requests.map Request.ldapMessage++
        [if (w.obtains o cb lib).2=some .succeeded then none else (w.obtains o cb lib).1] ∧
    (w.perform (.search o cb lib)).results=w.results++
      (if (w.obtains o cb lib).2=some .succeeded ∧ cb.success=true then
        [⟨(w.obtains o cb lib).1,none⟩] else []) := by
  obtain ⟨os,hn⟩ := note_frame w { method := .search, callbacks := cb }
  obtain ⟨hreq,hres,hm,hcb⟩ := search_objects (w.note { method := .search, callbacks := cb })
    w.requests.length { method := .search, callbacks := cb } o lib
  obtain ⟨h1,h2⟩ := settle_search w.requests.length (o.async.getD false) lib.wait hm
  rw [hreq] at h1
  rw [hres,hcb] at h2
  rw [hn] at h1 h2
  rw [perform,sendRequest,obtains,hn]
  exact ⟨h1,h2⟩

end World

/-- The chains that the library returns, in the order in which it does. -/
abbrev ChainId := Nat

/-- A pointer to the head of a chain. -/
structure Message where
  id : ChainId
  chain : Chain

/-- `pending` is the verdict that the running `sendRequest:` has still to handle; `succeeded`
tells that `handleSuccess:` has run. -/
structure RequestObject where
  connection : Nat
  callbacks : Callbacks
  ldapMessage : Option Message := none
  pending : Option Verdict := none
  succeeded : Bool := false

/-- `searchResult` and `entry` name the chain that the two pointers of the proxy lead into. -/
structure ResultObject where
  connection : Nat
  searchResult : Option ChainId
  entry : Option ChainId := none
  proxy : SearchResultProxy

/-- `searchResult` is the retained result object, `entry` the chain of the bare pointer. -/
structure EntryObject where
  searchResult : Option Nat
  entry : ChainId
  proxy : EntryProxy

inductive Object where
  | request (r : Nat)
  | result (i : Nat)
  | entry (j : Nat)
  deriving DecidableEq, Repr

/-- The objects of a process; `chains` records who owned the chains and how often
`ldap_msgfree` was called on them. -/
structure Memory where
  process : Process
  requests : List (Counted RequestObject) := []
  results : List (Counted ResultObject) := []
  entries : List (Counted EntryObject) := []
  chains : List (Custody Object) := []

def RequestObject.destroy (q : RequestObject) : RequestObject := { q with ldapMessage := none }

/-- The chain has been handed over. -/
def RequestObject.succeed (q : RequestObject) : RequestObject :=
  { q with ldapMessage := none, pending := none, succeeded := true }

/-- An error leaves the chain, if there is one, with the request. -/
def RequestObject.fail (q : RequestObject) : RequestObject := { q with pending := none }

/-- The chain that an accessor reads: the next entry is sought from the current one. -/
def ResultObject.source (x : ResultObject) : ResultCall → Option ChainId
  | .countEntries => none
  | .firstEntry => x.searchResult
  | .nextEntry => x.entry

/-- `p` is the proxy after the accessor. -/
def ResultObject.move (c : ResultCall) (p : SearchResultProxy) (x : ResultObject) : ResultObject :=
  match c with
  | .countEntries => x
  | _ => { x with proxy := p, entry := if p.entry.isSome then x.source c else none }

def ResultObject.destroy (x : ResultObject) : ResultObject :=
  match x.searchResult with
  | none => x
  | some _ => { x with searchResult := none, entry := none, proxy := ⟨none,none⟩ }

def EntryObject.destroy (y : EntryObject) : EntryObject := { y with searchResult := none }

namespace Memory

/-- The chain that an object owns. -/
def pointer (m : Memory) : Object → Option ChainId
  | .request r => m.requests[r]?.bind fun q => q.body.ldapMessage.map Message.id
  | .result i => m.results[i]?.bind fun x => x.body.searchResult
  | .entry _ => none

/-- `ldap_msgfree`, which is called on a pointer that is not null. -/
def msgfree (m : Memory) : Option ChainId → Memory
  | none => m
  | some c => { m with chains := m.chains.modify c Custody.free }

/-- `sendRequest:` up to the point where the outcome is handled. The new request belongs to an
autorelease pool. -/
def send (m : Memory) (connection : Nat) (cb : Callbacks)
    (found : Option Chain × Option Verdict) : Memory :=
  match found.1 with
  | none => { m with requests := m.requests++
      [.new { connection := connection, callbacks := cb, pending := found.2 } 1] }
  | some c => { m with
      requests := m.requests++
        [.new { connection := connection, callbacks := cb,
                ldapMessage := some ⟨m.chains.length,c⟩, pending := found.2 } 1]
      chains := m.chains++[{ keeper := .request m.requests.length }] }

/-- The result proxy takes the chain over before anything else happens. It belongs to an
autorelease pool, and to the event where there is a callback. -/
def handleSuccess (m : Memory) (r : Nat) (q : Counted RequestObject) : Memory :=
  let p := q.body.ldapMessage
  { m with
    requests := m.requests.set r (q.modify RequestObject.succeed)
    results := m.results++
      [.new { connection := q.body.connection, searchResult := p.map Message.id,
              proxy := ⟨p.map Message.chain,none⟩ }
        (if q.body.callbacks.success then 2 else 1)]
    chains := match p with
      | none => m.chains
      | some p => m.chains.modify p.id (Custody.transfer (.result m.results.length)) }

def handleError (m : Memory) (r : Nat) (q : Counted RequestObject) : Memory :=
  { m with requests := m.requests.set r (q.modify RequestObject.fail) }

/-- The end of `sendRequest:`. -/
def handle (m : Memory) (r : Nat) : Memory :=
  match m.requests[r]? with
  | none => m
  | some q => match q.body.pending with
    | none => m
    | some .succeeded => m.handleSuccess r q
    | some _ => m.handleError r q

/-- A request that lost a reference; without references it is destroyed. -/
def putRequest (m : Memory) (r : Nat) (q : Counted RequestObject) : Memory :=
  if q.retainCount=0 then
    { m.msgfree (q.body.ldapMessage.map Message.id) with
      requests := m.requests.set r (q.modify RequestObject.destroy) }
  else { m with requests := m.requests.set r q }

def putResult (m : Memory) (i : Nat) (x : Counted ResultObject) : Memory :=
  if x.retainCount=0 then
    { m.msgfree x.body.searchResult with
      results := m.results.set i (x.modify ResultObject.destroy) }
  else { m with results := m.results.set i x }

/-- A destroyed entry releases its result, which may be destroyed by that. -/
def putEntry (m : Memory) (j : Nat) (y : Counted EntryObject) : Memory :=
  if y.retainCount=0 then
    let m' := { m with entries := m.entries.set j (y.modify EntryObject.destroy) }
    match y.body.searchResult with
    | none => m'
    | some i => match m.results[i]? with
      | none => m'
      | some x => m'.putResult i x.release
  else { m with entries := m.entries.set j y }

/-- The surroundings retain an object that they hold. -/
def retain (m : Memory) : Object → Memory
  | .request r => match m.requests[r]? with
    | none => m
    | some q => if q.held=0 then m else { m with requests := m.requests.set r q.take }
  | .result i => match m.results[i]? with
    | none => m
    | some x => if x.held=0 then m else { m with results := m.results.set i x.take }
  | .entry j => match m.entries[j]? with
    | none => m
    | some y => if y.held=0 then m else { m with entries := m.entries.set j y.take }

/-- The surroundings release an object that they hold. The pool of a running `sendRequest:` is
drained after it. -/
def release (m : Memory) : Object → Memory
  | .request r => match m.requests[r]? with
    | none => m
    | some q => if q.held=0 ∨ q.body.pending.isSome then m else m.putRequest r q.drop
  | .result i => match m.results[i]? with
    | none => m
    | some x => if x.held=0 then m else m.putResult i x.drop
  | .entry j => match m.entries[j]? with
    | none => m
    | some y => if y.held=0 then m else m.putEntry j y.drop

def fault (m : Memory) (f : Fault) : Memory :=
  { m with process := { m.process with aborted := m.process.aborted || fatal f } }

/-- The session that the connection of an object has. -/
def ld (m : Memory) (connection : Nat) : Option Handle :=
  (m.process.worlds connection).connection.ld

/-- An accessor of a result object that the application holds. An entry that it returns retains
the result. -/
def resultCall (m : Memory) (i : Nat) (c : ResultCall) : Memory :=
  match m.results[i]? with
  | none => m
  | some x =>
    if x.held=0 then m
    else match x.body.proxy.call (m.ld x.body.connection) c with
      | .error f => m.fault f
      | .ok (e,p) =>
        let x' := x.modify (ResultObject.move c p)
        match e,x.body.source c with
        | some e,some s => { m with
            results := m.results.set i x'.retain
            entries := m.entries++[.new ⟨some i,s,e⟩ 1] }
        | _,_ => { m with results := m.results.set i x' }

def entryCall (m : Memory) (j : Nat) (c : EntryCall) : Memory :=
  match m.entries[j]? with
  | none => m
  | some y =>
    if y.held=0 then m
    else
      let ld := (y.body.searchResult.bind fun i => m.results[i]?).bind
        fun x => m.ld x.body.connection
      match y.body.proxy.call ld c with
      | .error f => m.fault f
      | .ok p => { m with
          entries := m.entries.set j (y.modify fun e => { e with proxy := p }) }

/-- A call on a connection. The accessors are called on their objects. -/
def call (m : Memory) (x : Call) : Memory :=
  let m' := { m with process := m.process.step x }
  match x.op with
  | .connect _ cb _ => m'.send x.connection cb (none,none)
  | .simpleBind _ cb _ => m'.send x.connection cb (none,none)
  | .saslBind _ cb _ => m'.send x.connection cb (none,none)
  | .search o cb lib =>
    m'.send x.connection cb ((m.process.worlds x.connection).obtains o cb lib)
  | .resultCall _ _ => m
  | .entryCall _ _ _ => m
  | _ => m'

end Memory

/-- What can happen to the objects, in any order. -/
inductive Event where
  | call (x : Call)
  | handle (r : Nat)
  | resultCall (i : Nat) (c : ResultCall)
  | entryCall (j : Nat) (c : EntryCall)
  | retain (o : Object)
  | release (o : Object)

namespace Memory

def perform (m : Memory) : Event → Memory
  | .call x => m.call x
  | .handle r => m.handle r
  | .resultCall i c => m.resultCall i c
  | .entryCall j c => m.entryCall j c
  | .retain o => m.retain o
  | .release o => m.release o

def step (m : Memory) (e : Event) : Memory := if m.process.aborted then m else m.perform e

def start (t : TlsOptions) : Memory := { process := Process.start t }

end Memory

end TiLdap.Ios
