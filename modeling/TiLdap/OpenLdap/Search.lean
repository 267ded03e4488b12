import TiLdap.Interface.Observations

namespace TiLdap.OpenLdap

def resBind : Int := 0x61
def resSearchEntry : Int := 0x64
def resSearchResult : Int := 0x65
def resSearchReference : Int := 0x73
def resIntermediate : Int := 0x79

/-- The messages of a search up to and including the final result; `none` stands for a final
result that cannot be decoded. -/
structure Chain where
  items : List Item
  final : Option Int
  deriving DecidableEq, Repr

def itemType : Item → Int
  | .entry _ => resSearchEntry
  | .reference _ => resSearchReference
  | .intermediate => resIntermediate

/-- `lm_msgtype` of the head of a chain. -/
def Chain.msgtype (c : Chain) : Int :=
  match c.items with
  | [] => resSearchResult
  | i::_ => itemType i

structure Timeval where
  sec : Int
  usec : Int
  deriving DecidableEq, Repr

/-- What becomes of a search request on its way out. `busy` tells that part of it is still to
be written; `skip` counts the message ids used up since the last search. -/
inductive Send where
  | buildFailed (e : ErrorCode)
  | sendFailed (e : ErrorCode)
  | sent (skip : Nat) (busy : Bool)
  deriving DecidableEq, Repr

/-- How a wait for the whole response ends. The chain may lie complete in the response list
(`queued`) or be completed by a message that the wait reads itself (`read`). A failed wait
returns a negative value and stores a result code or leaves the old one. -/
inductive Wait where
  | queued (c : Chain)
  | read (c : Chain)
  | timedOut
  | failed (rc : {n : Int // n<0}) (stored : Option Int)
  deriving DecidableEq, Repr

/-- A return value with the output parameter and the result code left in the session. -/
structure Reply where
  rc : Int
  chain : Option Chain
  errno : Int
  deriving DecidableEq, Repr

/-- How long `wait4msg` waits at most, if there is a bound. A null timeout gives way to the API
timeout of the session unless that is negative; a number of seconds of -1 is no bound. -/
def waitBound (api : Timeval) (timeout : Option Timeval) : Option Timeval :=
  let timeout := match timeout with
    | none => if 0≤api.sec then some api else none
    | some t => some t
  match timeout with
  | none => none
  | some t => if t.sec≠ -1 then some t else none

def ldapResult (errno : Int) : Wait → Reply
  | .queued c => ⟨c.msgtype,some c,errno⟩
  | .read c => ⟨resSearchResult,some c,ldapSuccess⟩
  | .timedOut => ⟨0,none,ldapTimeout⟩
  | .failed rc stored => ⟨rc,none,stored.getD errno⟩

/-- The return value and the code read from the last message of the chain. -/
def ldapParseResult (c : Chain) : Int × Int :=
  match c.final with
  | none => (ldapDecodingError,ldapDecodingError)
  | some code => (ldapSuccess,code)

def ldapResult2Error (c : Chain) : Int :=
  if (ldapParseResult c).2≠ldapSuccess then (ldapParseResult c).2 else (ldapParseResult c).1

/-- The return value, the message id and the result code left in the session. -/
structure Posted where
  rc : Int
  msgid : Int
  errno : Int
  deriving DecidableEq, Repr

/-- `id` is the number the request gets when it is sent. -/
def ldapPvtSearch (errno msgid : Int) (timeout : Timeval) (id : Nat) (send : Send) : Posted :=
  if timeout.sec=0 ∧ timeout.usec=0 then ⟨ldapParamError,msgid,errno⟩
  else match send with
    | .buildFailed e => ⟨e,msgid,e⟩
    | .sendFailed e => ⟨e,-1,e⟩
    | .sent _ busy => ⟨ldapSuccess,id,if busy then ldapBusy else ldapSuccess⟩

def ldapPvtSearchS (errno : Int) (timeout : Timeval) (id : Nat) (send : Send) (wait : Wait) :
    Reply :=
  let p := ldapPvtSearch errno (-1) timeout id send
  if p.rc≠ldapSuccess then ⟨p.rc,none,p.errno⟩
  else
    let a := ldapResult p.errno wait
    if a.rc≤0 then ⟨a.errno,a.chain,a.errno⟩
    else if a.rc=resSearchReference ∨ a.rc=resIntermediate then ⟨a.errno,a.chain,a.errno⟩
    else match a.chain with
      | none => ⟨ldapParamError,none,a.errno⟩
      | some c => ⟨ldapResult2Error c,some c,(ldapParseResult c).2⟩

end TiLdap.OpenLdap
