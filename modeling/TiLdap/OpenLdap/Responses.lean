import TiLdap.Framework.Run
import TiLdap.OpenLdap.Results

namespace TiLdap.OpenLdap

open Framework Lber

/-- How much of a response is asked for. -/
inductive LdapMsg where
  | msgOne
  | msgAll
  | msgReceived
  deriving DecidableEq, Repr

/-- Whether a wait is for a message. -/
def wanted (msgid : Int) (m : LdapMessage) : Bool := msgid=ldapResAny || (m.msgid : Int)=msgid

/-- `chkResponseList`: the chain that is waited for, the others and the abandoned ids. What is
found stays where it is as long as all of it is asked for and more is to come. -/
def chkResponseList (msgid : Int) (all : LdapMsg) :
    List (Strand LdapMessage) → List Nat → Option (Strand LdapMessage) ×
      List (Strand LdapMessage) × List Nat
  | [],ab => (none,[],ab)
  | lm::rest,ab =>
    if (bisectFind ab lm.first.msgid).1 then
      chkResponseList msgid all rest
        (if openType lm.first.msgtype then ab else ldapMarkAbandoned lm.first.msgid ab)
    else if wanted msgid lm.first then
      if all=.msgAll ∧ msgid≠ldapResUnsolicited ∧ openType lm.last.msgtype then (none,lm::rest,ab)
      else if all=.msgOne then
        match lm.next with
        | some next => (some ⟨lm.first,[]⟩,next::rest,ab)
        | none => (some lm,rest,ab)
      else (some lm,rest,ab)
    else
      let p := chkResponseList msgid all rest ab
      (p.1,lm::p.2.1,p.2.2)

/-- A new message is handed out, with its chain if that is complete, or queued. -/
def queueMessage (msgid : Int) (all : LdapMsg) (new : LdapMessage)
    (cs : List (Strand LdapMessage)) :
    Option (Strand LdapMessage) × List (Strand LdapMessage) :=
  if wanted msgid new ∧ (all=.msgOne ∨ searchType new.msgtype=false) then (some ⟨new,[]⟩,cs)
  else if wanted msgid new ∧ new.msgtype=ldapResSearchResult then
    match takeKey LdapMessage.msgid new.msgid cs with
    | none => (some ⟨new,[]⟩,cs)
    | some (l,cs) => (some (l.add new),cs)
  else (none,push LdapMessage.msgid new cs)

/-- What `ber_get_next` comes back with: nothing yet, an error, the failure of its last assertion,
or an element, with what becomes of the referrals in it. -/
inductive Arrival where
  | wouldBlock
  | failed
  | broken
  | element (tag : Nat) (contents : List UInt8) (hops : List Hop)
  deriving DecidableEq, Repr

/-- One pass of `try_read1msg` over a connection. -/
structure Read where
  conn : Nat
  arrival : Arrival
  deriving DecidableEq, Repr

/-- What `ldap_result` comes back with, if it does. -/
inductive Got where
  | blocked
  | keepLooking
  | code (rc : Int)
  | chain (c : Strand LdapMessage)
  | crash
  deriving DecidableEq, Repr

section Waiting

variable (w : Word) (msgid : Int) (all : LdapMsg)

/-- What the arrival of something on connection `c` comes to. An element with another tag than a
message stays where it is. -/
def takeArrival (c : Nat) (a : Arrival) (ld : Ld) : Got × Ld :=
  match a with
  | .wouldBlock => (.keepLooking,ld)
  | .failed => (.code (-1),{ ld with errno := ldapServerDown })
  | .broken => (.crash,ld)
  | .element tag contents hops =>
    if tag≠ldapTagMessage then
      (.code (-1),{ ld with errno := ldapLocalError, stuck := c::ld.stuck })
    else
      match readMessage w msgid contents hops ld with
      | (.keepLooking,ld) => (.keepLooking,ld)
      | (.code rc,ld) => (.code rc,ld)
      | (.crash,ld) => (.crash,ld)
      | (.message m,ld) =>
        let ld := { ld with accepted := ld.accepted++[m] }
        match queueMessage msgid all m ld.responses with
        | (none,cs) => (.keepLooking,{ ld with responses := cs })
        | (some c,cs) => (.chain c,{ ld with responses := cs, errno := 0 })

/-- What one pass of `try_read1msg` does. Where an element was left behind, `ber_get_next` starts
with a buffer that is not empty, which fails an assertion. -/
def tryRead (r : Read) (ld : Ld) : Got × Ld :=
  if r.conn∈ld.stuck then (.crash,ld) else takeArrival w msgid all r.conn r.arrival ld

/-- `try_read1msg` on one connection after the other, as long as there is something to read and
nothing to hand out. -/
def tryRead1msg : List Read → Ld → Got × Ld
  | [],ld => (.keepLooking,ld)
  | r::rs,ld =>
    match tryRead w msgid all r ld with
    | (.keepLooking,ld) => tryRead1msg rs ld
    | (g,ld) => (g,ld)

/-- What `select` comes back with, and whether the time is up afterwards. -/
inductive Round where
  | timeout
  | failed
  | interrupted (expired : Bool)
  | ready (reads : List Read) (buffered expired : Bool)
  deriving DecidableEq, Repr

/-- One round of `wait4msg` that found nothing among the responses. -/
def waitRound (r : Round) (ld : Ld) : Got × Ld :=
  let expire (expired : Bool) (ld : Ld) : Got × Ld :=
    if expired then (.code 0,{ ld with errno := ldapTimeout }) else (.keepLooking,ld)
  match r with
  | .timeout => (.code 0,{ ld with errno := ldapTimeout })
  | .failed => (.code (-1),{ ld with errno := ldapServerDown })
  | .interrupted expired =>
    if ld.restart then expire expired ld else (.code (-1),{ ld with errno := ldapServerDown })
  | .ready reads buffered expired =>
    if reads=[] ∧ buffered=false then (.code (-1),ld)
    else
      match tryRead1msg w msgid all reads ld with
      | (.keepLooking,ld) => expire expired ld
      | (g,ld) => (g,ld)

/-- `wait4msg`. Without a further round, it waits. -/
def wait4msg : List Round → Ld → Got × Ld
  | rs,ld =>
    match chkResponseList msgid all ld.responses ld.abandoned with
    | (some c,cs,ab) => (.chain c,{ ld with responses := cs, abandoned := ab })
    | (none,cs,ab) =>
      match rs with
      | [] => (.blocked,{ ld with responses := cs, abandoned := ab })
      | r::rs =>
        match waitRound w msgid all r { ld with responses := cs, abandoned := ab } with
        | (.keepLooking,ld) => wait4msg rs ld
        | (g,ld) => (g,ld)

/-- `ldap_result`, with a record of what is handed out. -/
def ldapResultOf (rs : List Round) (ld : Ld) : Got × Ld :=
  match wait4msg w msgid all rs ld with
  | (.chain c,ld) => (.chain c,{ ld with returned := ld.returned++c.items })
  | (g,ld) => (g,ld)

end Waiting

section Abandoning

/-- `ldap_msgdelete`: whether the whole response was there. -/
def ldapMsgdelete (m : Nat) (cs : List (Strand LdapMessage)) :
    Bool × List (Strand LdapMessage) :=
  match takeKey LdapMessage.msgid m cs with
  | none => (false,cs)
  | some (c,cs) => (!openType c.last.msgtype,cs)

/-- What becomes of an abandon request: whether there is a connection, and how far it gets. -/
inductive AbandonSent where
  | unconnected
  | unencoded
  | unflushed
  | sent
  deriving DecidableEq, Repr

/-- The abandon request takes a message id of its own. -/
def sendAbandon (e : AbandonSent) (ld : Ld) : Bool × Ld :=
  match e with
  | .unconnected => (false,{ ld with errno := ldapServerDown })
  | .unencoded => (false,{ ldapNextMsgid ld with errno := -3 })
  | .unflushed => (false,{ ldapNextMsgid ld with errno := ldapServerDown })
  | .sent => (true,ldapNextMsgid ld)

/-- The request goes, with those below it. A child is only marked. -/
def strikeRequest (origid msgid : Nat) (lr : Option Request) (ld : Ld) : Ld :=
  match lr with
  | none => ld
  | some lr =>
    if origid=msgid then ldapFreeRequest lr ld
    else ld.setRequest msgid fun r => { r with abandoned := true }

/-- The id is kept among those that are abandoned. -/
def strikeId (msgid : Nat) (ab : List Nat) : List Nat :=
  match bisectFind ab msgid with
  | (true,_) => ab
  | (false,i) => bisectInsert ab msgid i

/-- `do_abandon` once the children of the request are dealt with. -/
def abandonMessage (e : AbandonSent) (origid msgid : Nat) (ld : Ld) : Int × Ld :=
  let lr := ld.request? msgid
  if origid=msgid ∧ lr.any (·.parent≠none) then
    (ldapParamError,{ ld with errno := ldapParamError })
  else
    match ldapMsgdelete msgid ld.responses with
    | (true,cs) => (0,{ ld with responses := cs, errno := 0 })
    | (false,cs) =>
      let ld := { ld with responses := cs }
      let p := if lr.all (·.status=.inprogress) then sendAbandon e ld else (true,ld)
      let ld := strikeRequest origid msgid lr p.2
      let errno := if p.1 then 0 else ld.errno
      (errno,{ ld with abandoned := strikeId msgid ld.abandoned, errno := errno })

/-- The requests that stand before the one that is abandoned, on its behalf. -/
def abandonedChildren (m : Nat) (l : List Request) : List Request :=
  (l.takeWhile (·.msgid≠m)).filter fun r => r.origid=m ∧ r.abandoned=false

/-- `do_abandon`, from the outside, with what becomes of each abandon request. A child is marked,
so that it is passed over when the search for children starts again; under the id of a child there
are no further requests. -/
def doAbandon (es : List AbandonSent) (m : Nat) (ld : Ld) : Int × Ld :=
  let children := abandonedChildren m ld.requests
  abandonMessage (es.getD children.length .sent) m m (children.zipIdx.foldl
    (fun ld c => (abandonMessage (es.getD c.2 .sent) c.1.origid c.1.msgid ld).2) ld)

end Abandoning

/-- The calls that a program makes on a session. -/
inductive LdCall where
  | request (encoded : Bool) (s : Sending)
  | result (msgid : Int) (all : LdapMsg) (rounds : List Round)
  | abandon (es : List AbandonSent) (m : Nat)
  deriving DecidableEq, Repr

/-- A request takes its id before it is encoded. -/
def sendRequest (encoded : Bool) (s : Sending) (ld : Ld) : Ld :=
  if encoded then (ldapSendServerRequest s (ld.msgid+1) none (ldapNextMsgid ld)).2
  else { ldapNextMsgid ld with errno := -3 }

/-- A session before its first request. -/
def ldapCreate (version : Nat) (referrals restart : Bool) (refhoplimit : Int) : Ld where
  version := version
  referrals := referrals
  restart := restart
  refhoplimit := refhoplimit

def ldStep (w : Word) (ld : Ld) : LdCall → Ld
  | .request encoded s => sendRequest encoded s ld
  | .result msgid all rounds => (ldapResultOf w msgid all rounds ld).2
  | .abandon es m => (doAbandon es m ld).2

end TiLdap.OpenLdap
