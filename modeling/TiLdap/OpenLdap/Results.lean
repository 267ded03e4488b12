import TiLdap.OpenLdap.Requests

namespace TiLdap.OpenLdap

open Framework Lber

def ldapTagMessage : Nat := 0x30
def ldapTagReferral : Nat := 0xa3
def ldapTagExopResOid : Nat := 0x8a
def ldapTagExopResValue : Nat := 0x8b
def ldapResBind : Nat := 0x61
def ldapResSearchEntry : Nat := 0x64
def ldapResSearchResult : Nat := 0x65
def ldapResSearchReference : Nat := 0x73
def ldapResExtended : Nat := 0x78
def ldapResIntermediate : Nat := 0x79

def ldapResAny : Int := -1
def ldapResUnsolicited : Int := 0

def ldapNoticeOfDisconnection : List UInt8 := utf8 "1.3.6.1.4.1.1466.20036"

/-- `LBER_DEFAULT` as a tag. -/
def lberDefault (w : Word) : Nat := 256^w.size-1

/-- The types that leave an operation open. -/
def openType (t : Nat) : Bool :=
  t=ldapResSearchEntry || t=ldapResSearchReference || t=ldapResIntermediate

/-- The types of the messages that a search is answered with. -/
def searchType (t : Nat) : Bool := openType t || t=ldapResSearchResult

section Abandoned

def ldapAbandoned (ld : Ld) (m : Nat) : Bool := (bisectFind ld.abandoned m).1

def ldapMarkAbandoned (m : Nat) (ab : List Nat) : List Nat :=
  match bisectFind ab m with
  | (true,i) => bisectDelete ab i
  | (false,_) => ab

end Abandoned

section Reading

variable (w : Word)

/-- A string that a conversion allocated, up to its end. -/
def outString : Out → Option (List UInt8)
  | .bytes l => some (l.takeWhile (·≠0))
  | _ => none

def outStrings : Out → List (List UInt8)
  | .list ls => ls.map (·.takeWhile (·≠0))
  | _ => []

/-- The code, the matched name and the text that a result begins with. -/
def resultFields (b : Reader) :
    Option (Int × Option (List UInt8) × Option (List UInt8)) × Reader :=
  match berScanf w [.beginSeq,.int,.stringOrNull,.stringOrNull] b with
  | (some [.int e,matched,text],b) => (some (e.toInt,outString matched,outString text),b)
  | (_,b) => (none,b)

/-- A list of referrals. -/
def referralList (b : Reader) : Option (List (List UInt8)) × Reader :=
  match berScanf w [.beginSeq,.strings,.finish] b with
  | (some os,b) => (some (os.flatMap outStrings),b)
  | (none,b) => (none,b)

/-- What `try_read1msg` knows of a result once it has looked for referrals. -/
structure Scanned where
  tmpber : Reader
  lderr : Int := 0
  referCnt : Int := 0
  hadref : Bool := false
  undecoded : Bool := false
  deriving DecidableEq, Repr

def completed (r : Request) : Request := { r with status := .completed }

/-- Referrals of version 3 follow the text of a result, those of version 2 are in it. -/
def chaseResult (lr : Request) (tag : Nat) (hops : List Hop) (s : Scanned) (ld : Ld) :
    Option (Scanned × Ld) :=
  if tag=ldapResBind ∨ (ld.referrals=false ∧ lr.parent=none) then some (s,ld)
  else if (berPeekTag w s.tmpber).map Prod.fst=some ldapTagReferral then
    if ld.version≤2 then some (s,ld)
    else
      match referralList w s.tmpber with
      | (none,tmp) => some ({ s with tmpber := tmp, undecoded := true },
          ld.setRequest lr.msgid completed)
      | (some refs,tmp) =>
        (ldapChaseV3referrals lr refs hops ld).map fun ((n,hadref),ld) =>
          ({ s with tmpber := tmp, referCnt := max n 0, hadref := hadref },
            ld.setRequest lr.msgid completed)
  else if s.lderr=0 ∨ s.lderr=5 ∨ s.lderr=6 then some (s,ld)
  else
    match lr.resError with
    | none => some (s,ld)
    | some [] => some (s,ld.setRequest lr.msgid fun r => { r with resError := none })
    | some _ =>
      (ldapChaseReferrals lr hops ld).map fun ((n,hadref),ld) =>
        ({ s with referCnt := n, hadref := hadref },ld.setRequest lr.msgid completed)

/-- The code that is kept for the end. -/
def saveErrno (s : Scanned) (errno : Int) (r : Request) : Request :=
  { r with resErrno :=
      if s.hadref=false ∨ r.resError=none then
        if s.lderr=ldapPartialResults then 0 else s.lderr
      else if errno≠0 then errno
      else ldapPartialResults }

/-- The text of a result is added to what there is. -/
def addText : Option (List UInt8) → Option (List UInt8) → Option (List UInt8)
  | none,e => e
  | some t,none => some t
  | some t,some e => some (ldapAppendReferral (some e) t)

/-- A result as far as its referrals; `none` where a null pointer is read. -/
def readResult (lr : Request) (tag : Nat) (b : Reader) (hops : List Hop) (ld : Ld) :
    Option (Scanned × Ld) :=
  match resultFields w b with
  | (none,tmp) =>
    -- `ber_scanf` has cleared the matched name if it got as far.
    let matched := if (berScanf w [.beginSeq,.int] b).1.isSome then none else lr.resMatched
    some ({ tmpber := tmp },ld.setRequest lr.msgid fun _ => { lr with resMatched := matched })
  | (some (lderr,matched,text),tmp) =>
    let lr := { lr with resMatched := matched, resError := addText text lr.resError }
    (chaseResult w lr tag hops { tmpber := tmp, lderr := lderr }
      (ld.setRequest lr.msgid fun _ => lr)).map fun (s,ld) =>
        (s,ld.setRequest lr.msgid (saveErrno s ld.errno))

/-- `build_result_ber`. -/
def buildResultBer (lr : Request) : Option Reader :=
  match (berPrintf w { der := true } [.beginSeq,.int (Int32.ofNat lr.msgid),.tag lr.resMsgtype,
      .beginSeq,.enum (Int32.ofInt lr.resErrno),.octets (lr.resMatched.getD []),
      .octets (lr.resError.getD []),.finish,.finish]).bind berFlatten2 with
  | none => none
  | some l =>
    match berSkipTag w ⟨true,0,l⟩ with
    | (none,_) => none
    | (some _,b) =>
      match berGetInt w b with
      | (none,_) => none
      | (some _,b) => if (berPeekTag w b).isSome then some b else none

/-- What has come of a message. -/
inductive Outcome where
  | keepLooking
  | code (rc : Int)
  | message (m : LdapMessage)
  | crash
  deriving DecidableEq, Repr

/-- A request that is done tells its parent, which counts one less. -/
def reportTo (parent lr : Request) (ld : Ld) : Ld :=
  let merged := mergeErrorInfo parent lr
  (ld.setRequest lr.msgid fun _ => merged.2).setRequest parent.msgid fun _ =>
    { merged.1 with outrefcnt := merged.1.outrefcnt-1 }

/-- A request that is done tells its parents, as long as it was the last one they waited for. -/
def mergeUp : Nat → Nat → Ld → Nat × Ld
  | 0,m,ld => (m,ld)
  | n+1,m,ld =>
    match ld.request? m with
    | none => (m,ld)
    | some lr =>
      match lr.parent.bind ld.request? with
      | none => (m,ld)
      | some parent =>
        let ld := reportTo parent lr ld
        if 0<parent.outrefcnt-1 then (parent.msgid,ld) else mergeUp n parent.msgid ld

/-- Whether nothing more will come for a request. -/
def requestDone (r : Request) (ld : Ld) : Bool :=
  r.outrefcnt≤0 && r.parent=none && r.status=.completed &&
    ld.requests.all fun c => c.parent≠some r.msgid || c.status=.completed

/-- A result without referrals to follow. -/
def finishResult (lr : Request) (tag : Nat) (b : Reader) (s : Scanned) (ld : Ld) :
    Outcome × Ld :=
  match ld.request? lr.msgid with
  | none => (.crash,ld)
  | some r =>
    let kept := r.outrefcnt≤0 ∧ r.parent=none
    match mergeUp ld.requests.length lr.msgid (ld.setRequest lr.msgid completed) with
    | (m,ld) =>
      match ld.request? m with
      | none => (.crash,ld)
      | some top =>
        if requestDone top ld then
          if kept ∧ s.hadref=false then
            (.message ⟨top.msgid,top.resMsgtype,b⟩,ldapFreeRequest top ld)
          else
            match buildResultBer w top with
            | none => (.code (-1),ldapFreeRequest top { ld with errno := -3 })
            | some b => (.message ⟨top.msgid,top.resMsgtype,b⟩,ldapFreeRequest top ld)
        else if kept then (.message ⟨lr.origid,tag,b⟩,ld)
        else (if s.undecoded then .code ldapDecodingError else .keepLooking,ld)

/-- Any message that is not data. -/
def takeResult (lr : Request) (tag : Nat) (b : Reader) (hops : List Hop) (ld : Ld) :
    Outcome × Option Scanned × Ld :=
  match readResult w lr tag b hops ld with
  | none => (.crash,none,ld)
  | some (s,ld) =>
    if s.referCnt<0 then (.code (-1),some s,ld)
    else if s.referCnt=0 then
      let p := finishResult w lr tag b s ld
      (p.1,some s,p.2)
    else (.keepLooking,some s,
      ld.setRequest lr.msgid fun r => { r with resErrno := 0, resMatched := none })

/-- Where a search reference leads to. -/
def chaseReference (lr : Request) (b : Reader) (hops : List Hop) (ld : Ld) : Option Ld :=
  if ld.version≤2 ∨ (ld.referrals=false ∧ lr.parent=none) then some ld
  else
    match referralList w b with
    | (none,_) => some ld
    | (some refs,_) =>
      (ldapChaseV3referrals lr refs hops ld).map fun ((n,_),ld) =>
        if 0<n then ld.setRequest lr.msgid fun r =>
          if r.status=.completed then r else { r with status := .chasingrefs }
        else ld

/-- A message for a request. -/
def takeMessage (lr : Request) (tag : Nat) (b : Reader) (hops : List Hop) (ld : Ld) :
    Outcome × Ld :=
  let lr := { lr with resMsgtype := tag }
  let ld := ld.setRequest lr.msgid fun _ => lr
  if tag=ldapResSearchReference then
    match chaseReference w lr b hops ld with
    | none => (.crash,ld)
    | some ld => (.message ⟨lr.origid,tag,b⟩,ld)
  else if openType tag then (.message ⟨lr.origid,tag,b⟩,ld)
  else
    let p := takeResult w lr tag b hops ld
    (p.1,p.2.2)

/-- The request that an unsolicited notification is taken to answer. -/
def dummyLr : Request := { msgid := 0, origid := 0, status := .completed }

/-- A notice of disconnection is dealt with at once. Any other notification is given the type of
what comes after the fields that were read. -/
def notice (s : Scanned) (m : LdapMessage) (ld : Ld) : Outcome × Ld :=
  match berPeekTag w s.tmpber with
  | none => (.message { m with msgtype := lberDefault w },ld)
  | some (tag,_) =>
    if tag=ldapTagExopResOid then
      match berGetStringbv w false false s.tmpber with
      | (none,_) => (.code (-1),{ ld with errno := ldapDecodingError })
      | (some oid,tmp) =>
        if oid=[] then (.crash,ld)
        else
          let tag := ((berPeekTag w tmp).map Prod.fst).getD (lberDefault w)
          if oid=ldapNoticeOfDisconnection then
            if tag=ldapTagExopResValue then (.code (-1),{ ld with errno := ldapDecodingError })
            else (.code (-1),{ ld with errno := s.lderr })
          else (.message { m with msgtype := tag },ld)
    else (.message { m with msgtype := tag },ld)

/-- An unsolicited notification. `dummy_lr` stands behind the requests while it is read. -/
def takeUnsolicited (msgid : Int) (b : Reader) (hops : List Hop) (ld : Ld) : Outcome × Ld :=
  let lr := { dummyLr with resMsgtype := ldapResExtended }
  match takeResult w lr ldapResExtended b hops { ld with requests := ld.requests++[lr] } with
  | (o,s,ld) =>
    let ld := { ld with requests := ld.requests.filter (·.origid≠0) }
    match o,s with
    | .message m,some s => if ldapResUnsolicited< msgid then notice w s m ld else (.message m,ld)
    | o,_ => (o,ld)

/-- `try_read1msg` from the point where it has the contents of a message to the point where it
makes an `LDAPMessage` of it. -/
def readMessage (msgid : Int) (contents : List UInt8) (hops : List Hop) (ld : Ld) :
    Outcome × Ld :=
  match berGetInt w ⟨true,0,contents⟩ with
  | (none,_) => (.code (-1),{ ld with errno := ldapDecodingError })
  | (some id,b) =>
    if id<0 then (.keepLooking,ld)
    else
      let id := id.toInt.toNat
      if id≠0 ∧ ldapAbandoned ld id then
        match berPeekTag w b with
        | none => (.keepLooking,ld)
        | some (tag,_) =>
          if openType tag then (.keepLooking,ld)
          else (.keepLooking,{ ld with abandoned := ldapMarkAbandoned id ld.abandoned })
      else if id=0 then
        match berPeekTag w b with
        | none => (.code (-1),{ ld with errno := ldapDecodingError })
        | some (tag,_) =>
          if tag≠ldapResExtended then (.keepLooking,ld)
          else takeUnsolicited w msgid b hops ld
      else
        match ldapFindRequestByMsgid ld id with
        | none => (.keepLooking,ld)
        | some lr =>
          match berPeekTag w b with
          | none => (.code (-1),{ ld with errno := ldapDecodingError })
          | some (tag,_) => takeMessage w lr tag b hops ld

end Reading

end TiLdap.OpenLdap
