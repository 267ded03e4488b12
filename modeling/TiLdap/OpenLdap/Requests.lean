import TiLdap.Framework.Bisect
import TiLdap.Framework.CString
import TiLdap.Framework.Strands
import TiLdap.Interface.Observations
import TiLdap.Lber.RoundTrip

namespace TiLdap.OpenLdap

open Framework Lber

def ldapServerDown : Int := -1
def ldapLocalError : Int := -2
def ldapNotSupported : Int := -12
def ldapClientLoop : Int := -16
def ldapReferralLimitExceeded : Int := -17
def ldapPartialResults : Int := 0x09
def ldapReferral : Int := 0x0a

/-- `LDAP_NAME_ERROR`. -/
def ldapNameError (n : Int) : Bool := 0x20≤n && n≤0x24

def ldapRefStr : List UInt8 := utf8 "Referral:\n"

/-- `lr_status`. A request is written at once: `LDAP_REQST_WRITING` needs a socket that does not
block. -/
inductive RequestStatus where
  | completed
  | inprogress
  | chasingrefs
  deriving DecidableEq, Repr

/-- `LDAPRequest`. A child names its parent, and `lr_child` and `lr_refnext` list the children of
a request in the order of `ld_requests`. -/
structure Request where
  msgid : Nat
  status : RequestStatus := .inprogress
  outrefcnt : Int := 0
  abandoned : Bool := false
  origid : Nat
  parentcnt : Int := 0
  parent : Option Nat := none
  resMsgtype : Nat := 0
  resErrno : Int := 0
  resError : Option (List UInt8) := none
  resMatched : Option (List UInt8) := none
  deriving DecidableEq, Repr

/-- `LDAPMessage`, whose chain is kept beside it. -/
structure LdapMessage where
  msgid : Nat
  msgtype : Nat
  ber : Reader
  deriving DecidableEq, Repr

/-- What a session keeps of its requests and responses. `stuck` are the connections whose
`lconn_ber` still holds an element. The last two fields are not in the source: they record what was
made into a message and what was handed out, in order. -/
structure Ld where
  version : Nat := 3
  referrals : Bool := true
  restart : Bool := false
  refhoplimit : Int := 5
  msgid : Nat := 0
  requests : List Request := []
  responses : List (Strand LdapMessage) := []
  abandoned : List Nat := []
  stuck : List Nat := []
  errno : Int := 0
  accepted : List LdapMessage := []
  returned : List LdapMessage := []
  deriving DecidableEq, Repr

/-- The request under an id changes, and no other. -/
def setRequest (m : Nat) (f : Request → Request) (l : List Request) : List Request :=
  l.map fun r => if r.msgid=m then f r else r

def Ld.setRequest (m : Nat) (f : Request → Request) (ld : Ld) : Ld :=
  { ld with requests := OpenLdap.setRequest m f ld.requests }

def Ld.request? (ld : Ld) (m : Nat) : Option Request := ld.requests.find? (·.msgid=m)

/-- A request and those below it. Parents stand behind their children. -/
def lineage (m : Nat) : List Request → List Nat
  | [] => []
  | r::l =>
    let ids := lineage m l
    if r.msgid=m ∨ r.parent.any (·∈ids) then r.msgid::ids else ids

/-- `ldap_free_request` frees the children first, and the parent counts one less. -/
def ldapFreeRequest (lr : Request) (ld : Ld) : Ld :=
  let ld := { ld with requests := ld.requests.filter (·.msgid∉ lineage lr.msgid ld.requests) }
  match lr.parent with
  | none => ld
  | some p => ld.setRequest p fun r => { r with outrefcnt := r.outrefcnt-1 }

/-- `LDAP_NEXT_MSGID`. -/
def ldapNextMsgid (ld : Ld) : Ld := { ld with msgid := ld.msgid+1 }

/-- What becomes of a request: whether there is a connection to its server, and whether it is
written there. For a referral, `connected` means a connection that is there already. One that has
to be opened first, with a bind and a wait for its result, is not part of the model. -/
structure Sending where
  connected : Bool
  flushed : Bool
  deriving DecidableEq, Repr

/-- A request that is about to be sent. -/
def newRequest (msgid : Nat) : Option Request → Request
  | none => { msgid := msgid, origid := msgid }
  | some p => { msgid := msgid, origid := p.origid, parentcnt := p.parentcnt+1,
                parent := some p.msgid }

def ldapSendServerRequest (s : Sending) (msgid : Nat) (parent : Option Request) (ld : Ld) :
    Int × Ld :=
  let ld := { ld with errno := 0 }
  if s.connected=false then (-1,{ ld with errno := ldapServerDown })
  else
    let lr := newRequest msgid parent
    let ld := match parent with
      | none => ld
      | some p => ld.setRequest p.msgid fun r =>
          { r with outrefcnt := r.outrefcnt+1, parentcnt := r.parentcnt+1 }
    let ld := { ld with requests := lr::ld.requests }
    if s.flushed then (msgid,ld)
    else (-1,ldapFreeRequest lr { ld with errno := ldapServerDown })

/-- `ldap_append_referral`. -/
def ldapAppendReferral (referrals : Option (List UInt8)) (s : List UInt8) : List UInt8 :=
  match referrals with
  | none => ldapRefStr++s
  | some l => l++0x0a::s

/-- What the URL of a referral and its server come to. No connection has a bind under way, so that
no referral has to wait for one. -/
inductive Hop where
  | badUrl
  | critical
  | looped
  | unencoded
  | request (s : Sending)
  deriving DecidableEq, Repr

/-- Where following referrals has got to. -/
structure Chasing where
  rc : Int := 0
  count : Int := 0
  hadref : Bool := false
  unfollowed : Option (List UInt8) := none
  deriving DecidableEq, Repr

/-- The loop of `ldap_chase_v3referrals`. Without a request that it could encode anew, as it is
with `dummy_lr`, it reads from a null pointer. -/
def chaseV3Loop (origid : Nat) : List Hop → List (List UInt8) → Chasing → Ld →
    Option (Chasing × Ld)
  | _,[],c,ld => some (c,ld)
  | [],_::_,c,ld => some ({ c with rc := -1 },ld)
  | .badUrl::_,_::_,c,ld => some ({ c with rc := -1 },{ ld with errno := ldapParamError })
  | .critical::_,_::_,c,ld => some ({ c with rc := -1 },{ ld with errno := ldapNotSupported })
  | .looped::hops,_::refs,c,ld =>
    chaseV3Loop origid hops refs { c with rc := -1 } { ld with errno := ldapClientLoop }
  | .unencoded::_,_::_,c,ld =>
    if origid=0 then none
    else some ({ c with rc := -1 },{ ldapNextMsgid ld with errno := -3 })
  | .request s::hops,ref::refs,c,ld =>
    match ld.request? origid with
    | none => none
    | some origreq =>
      if origid=0 then none
      else
        let id := ld.msgid+1
        match ldapSendServerRequest s id (some origreq) (ldapNextMsgid ld) with
        | (rc,ld) =>
          if rc<0 then
            chaseV3Loop origid hops refs
              { c with rc := rc, unfollowed := some (ldapAppendReferral c.unfollowed ref) }
              { ld with errno := ldapReferral }
          else some ({ c with rc := 0, count := c.count+1, hadref := true },ld)

/-- `ldap_chase_v3referrals`: the number of referrals followed, or a negative number, and whether
there was one. It replaces `lr_res_error`. -/
def ldapChaseV3referrals (lr : Request) (refs : List (List UInt8)) (hops : List Hop) (ld : Ld) :
    Option ((Int × Bool) × Ld) :=
  let ld := { ld with errno := 0 }
  let done := if refs=[] then some ({},ld)
    else if ld.refhoplimit≤ lr.parentcnt then
      some ({ rc := -1 },{ ld with errno := ldapReferralLimitExceeded })
    else chaseV3Loop lr.origid hops refs {} ld
  done.map fun (c,ld) =>
    ((if c.rc=0 then c.count else c.rc,c.hadref),ld.setRequest lr.msgid fun r =>
      { r with resError := if c.rc=0 then none else c.unfollowed })

/-- What stands before and after `LDAP_REF_STR`, in upper or lower case. -/
def cutReferral : List UInt8 → Option (List UInt8 × List UInt8)
  | [] => none
  | c::l =>
    if strcaseeq ((c::l).take ldapRefStr.length) ldapRefStr then
      some ([],(c::l).drop ldapRefStr.length)
    else (cutReferral l).map fun p => (c::p.1,p.2)

/-- The loop of `ldap_chase_referrals`, with what it leaves in `lr_res_error`. A request that was
sent ends it: its id is then `rc`. -/
def chaseLoop (lr : Request) (before : List UInt8) : List Hop → List (List UInt8) → Chasing →
    Ld → Option ((Int × Bool × Option (List UInt8)) × Ld)
  | _,[],c,ld => some ((if c.rc=0 then c.count else c.rc,c.hadref,c.unfollowed),ld)
  | [],_::_,c,ld => some ((-1,c.hadref,c.unfollowed),ld)
  | .looped::_,_::_,c,ld => some ((-1,true,c.unfollowed),{ ld with errno := ldapClientLoop })
  | .unencoded::_,_::_,_,ld =>
    if lr.origid=0 then none
    else some ((-1,true,some before),{ ldapNextMsgid ld with errno := -3 })
  | .request s::hops,ref::refs,c,ld =>
    match ld.request? lr.msgid with
    | none => none
    | some lr' =>
      if lr.origid=0 then none
      else
        let id := ld.msgid+1
        match ldapSendServerRequest s id (some lr') (ldapNextMsgid ld) with
        | (rc,ld) =>
          if rc<0 then
            chaseLoop lr before hops refs { c with
              hadref := true
              unfollowed := some (ldapAppendReferral c.unfollowed ref) } ld
          else some ((rc,true,c.unfollowed),ld)
  | _::hops,ref::refs,c,ld =>
    chaseLoop lr before hops refs { c with
      hadref := true
      unfollowed := some (ldapAppendReferral c.unfollowed ref) } ld

/-- `ldap_chase_referrals` takes the referrals from the error string. Past the limit, it has cut
the string already. -/
def ldapChaseReferrals (lr : Request) (hops : List Hop) (ld : Ld) :
    Option ((Int × Bool) × Ld) :=
  let ld := { ld with errno := 0 }
  match lr.resError.bind cutReferral with
  | none => some ((0,false),ld)
  | some (before,after) =>
    if ld.refhoplimit≤ lr.parentcnt then
      some ((0,false),ld.setRequest lr.msgid fun r => { r with resError := some before })
    else
      (chaseLoop lr before hops (after.splitOn 0x0a) {} ld).map fun ((rc,hadref,err),ld) =>
        ((rc,hadref),ld.setRequest lr.msgid fun r => { r with resError := err })

/-- `ldap_find_request_by_msgid`. -/
def ldapFindRequestByMsgid (ld : Ld) (m : Nat) : Option Request :=
  ld.requests.find? fun r => r.status≠.completed ∧ r.msgid=m

/-- `merge_error_info`, for the parent and for the child. -/
def mergeErrorInfo (parent lr : Request) : Request × Request :=
  if lr.resErrno=ldapPartialResults then
    ({ parent with
      resErrno := lr.resErrno
      resError := match lr.resError with
        | none => parent.resError
        | some e => some (ldapAppendReferral parent.resError e) },lr)
  else if lr.resErrno≠0 ∧ parent.resErrno=0 then
    if ldapNameError lr.resErrno then
      ({ parent with resErrno := lr.resErrno, resError := lr.resError,
                     resMatched := lr.resMatched },
        { lr with resError := none, resMatched := none })
    else ({ parent with resErrno := lr.resErrno, resError := lr.resError },
      { lr with resError := none })
  else (parent,lr)

end TiLdap.OpenLdap
