import TiLdap.Framework.CString
import TiLdap.Framework.Octets
import TiLdap.OpenLdap.Requests
import TiLdap.OpenLdap.Tls

namespace TiLdap.OpenLdap

open Framework

def ldapConnectError : Int := -11

def noCommonName : String := "TLS: unable to get CN from peer certificate"
def wrongCommonName : String := "TLS: hostname does not match CN in peer certificate"

def dot : UInt8 := 0x2e
def asterisk : UInt8 := 0x2a

/-- The names in a certificate that are looked at. -/
inductive GeneralName where
  | dns (sn : List UInt8)
  | ipadd (sn : List UInt8)
  | other
  deriving DecidableEq, Repr

/-- The certificate of a server: its alternative names, if it has the extension, and the common
names of its subject. -/
structure X509 where
  altNames : Option (List GeneralName)
  commonNames : List (List UInt8)
  deriving DecidableEq, Repr

/-- What the check reads of a session: `SSL_get_verify_result`, which is 0 where the certificate of
the server was verified, and the certificate itself. -/
structure TlsSession where
  verifyResult : Int
  peerCertificate : Option X509
  deriving DecidableEq, Repr

/-- A certificate that was not verified is treated as if none was sent. -/
def tlsoGetCert (s : TlsSession) : Option X509 :=
  if s.verifyResult≠0 then none else s.peerCertificate

/-- `ntype`, with the address if the name is one. -/
inductive HostType where
  | dns
  | ip4 (addr : List UInt8)
  | ip6 (addr : List UInt8)
  deriving DecidableEq, Repr

/-- What follows the last dot of a name, as with `strrchr`. -/
def afterLastDot (name : List UInt8) : Option (List UInt8) :=
  (cut dot name.reverse).map fun p => p.1.reverse

/-- A name from its first dot on. -/
def domain (name : List UInt8) : Option (List UInt8) := (cut dot name).map fun p => dot::p.2

/-- A pattern that starts with an asterisk and a dot stands for names with one more label. -/
def wildcardMatch (name sn : List UInt8) : Bool :=
  match domain name with
  | none => false
  | some d => decide (sn.take 2=[asterisk,dot]) && strcaseeq d (sn.drop 1)

section Checking

variable (inetPton inetAton : List UInt8 → Option (List UInt8))

/-- A name is only tried as an IPv4 address if its last part starts with a digit. -/
def hostType (name : List UInt8) : HostType :=
  match inetPton name with
  | some addr => .ip6 addr
  | none =>
    if ((afterLastDot name).getD []).head?.any (fun c => 0x30≤ c && c≤0x39) then
      match inetAton name with
      | some addr => .ip4 addr
      | none => .dns
    else .dns

/-- Whether an alternative name is that of the host. Empty ones are ignored. -/
def altNameMatch (ntype : HostType) (name : List UInt8) : GeneralName → Bool
  | .dns sn => decide (ntype=.dns) && decide (sn≠[]) && (strcaseeq name sn || wildcardMatch name sn)
  | .ipadd sn =>
    match ntype with
    | .dns => false
    | .ip4 addr => decide (sn.length=4) && decide (sn=addr)
    | .ip6 addr => decide (sn.length=16) && decide (sn=addr)
  | .other => false

/-- The name of this host takes the place of a missing name and of `localhost`. -/
def checkedName (hostname nameIn : Option (List UInt8)) : Option (List UInt8) :=
  if hostname≠none ∧ nameIn.all (strcaseeq · (utf8 "localhost")) then hostname else nameIn

/-- Without a certificate there is nothing to check. The last common name is tried when no
alternative name was right. The text is what `ld_error` is set to. -/
def checkCertificate (name : List UInt8) : Option X509 → Int × Option String
  | none => (0,none)
  | some x =>
    if (x.altNames.getD []).any (altNameMatch (hostType inetPton inetAton name) name) then (0,none)
    else
      match x.commonNames.getLast? with
      | none => (ldapConnectError,some noCommonName)
      | some cn =>
        if strcaseeq name cn || wildcardMatch name cn then (0,none)
        else (ldapConnectError,some wrongCommonName)

/-- `tlso_session_chkhost`, with what `inet_pton` and `inet_aton` make of a name. Without a name it
reads from a null pointer. -/
def tlsoSessionChkhost (hostname nameIn : Option (List UInt8)) (s : TlsSession) :
    Option (Int × Option String) :=
  (checkedName hostname nameIn).map (checkCertificate inetPton inetAton · (tlsoGetCert s))

end Checking

/-- The names that a pattern stands for: itself, and, after an asterisk, any one label before the
rest of it. Upper and lower case are the same. -/
inductive Covers : List UInt8 → List UInt8 → Prop
  | same {sn name : List UInt8} (h : strcaseeq name sn=true) : Covers sn name
  | label {l : List UInt8} (hl : dot∉ l) {sn rest : List UInt8}
    (h : strcaseeq rest sn=true) : Covers (asterisk::dot::sn) (l++dot::rest)

/-- The alternative names that are right for a host. -/
inductive Names : HostType → List UInt8 → GeneralName → Prop
  | dns {sn name : List UInt8} (hne : sn≠[]) (h : Covers sn name) : Names .dns name (.dns sn)
  | ip4 {addr name : List UInt8} (h : addr.length=4) : Names (.ip4 addr) name (.ipadd addr)
  | ip6 {addr name : List UInt8} (h : addr.length=16) : Names (.ip6 addr) name (.ipadd addr)

/-- The certificates that are right for a host. -/
def StandsFor (inetPton inetAton : List UInt8 → Option (List UInt8)) (name : List UInt8)
    (x : X509) : Prop :=
  (∃g∈x.altNames.getD [],Names (hostType inetPton inetAton name) name g) ∨
    ∃cn,x.commonNames.getLast?=some cn ∧ Covers cn name

/-- The sessions that the check of a host name lets through. -/
def Passes (inetPton inetAton : List UInt8 → Option (List UInt8)) (name : List UInt8)
    (s : TlsSession) : Prop :=
  s.verifyResult=0 → ∀x,s.peerCertificate=some x → StandsFor inetPton inetAton name x

section Lemmas

variable {name sn : List UInt8}

theorem domain_eq_some_iff {d : List UInt8} :
    domain name=some d ↔ ∃l rest,dot∉ l ∧ name=l++dot::rest ∧ d=dot::rest := by
  rw [domain,Option.map_eq_some_iff]
  constructor
  · rintro ⟨⟨l,rest⟩,hc,rfl⟩
    obtain ⟨hn,hl⟩ := cut_eq_some_iff.mp hc
    exact ⟨l,rest,hl,hn,rfl⟩
  · rintro ⟨l,rest,hl,hn,rfl⟩
    exact ⟨(l,rest),cut_eq_some_iff.mpr ⟨hn,hl⟩,rfl⟩

theorem strcaseeq_cons (c : UInt8) (a b : List UInt8) :
    strcaseeq (c::a) (c::b)=strcaseeq a b := by simp [strcaseeq]

theorem wildcardMatch_iff : wildcardMatch name sn=true ↔ ∃l rest sn',dot∉ l ∧
    name=l++dot::rest ∧ sn=asterisk::dot::sn' ∧ strcaseeq rest sn'=true := by
  rw [wildcardMatch]
  constructor
  · intro h
    split at h
    · cases h
    · rename_i d hd
      obtain ⟨l,rest,hl,hn,rfl⟩ := domain_eq_some_iff.mp hd
      simp only [Bool.and_eq_true,decide_eq_true_eq] at h
      obtain ⟨htake,hcase⟩ := h
      have hsn : sn=asterisk::dot::sn.drop 2 := by
        have hcut := List.take_append_drop 2 sn
        rw [htake] at hcut
        exact hcut.symm
      rw [hsn] at hcase
      exact ⟨l,rest,sn.drop 2,hl,hn,hsn,(strcaseeq_cons dot _ _).symm.trans hcase⟩
  · rintro ⟨l,rest,sn',hl,hn,rfl,hcase⟩
    rw [domain_eq_some_iff.mpr ⟨l,rest,hl,hn,rfl⟩]
    simp only [Bool.and_eq_true,decide_eq_true_eq]
    exact ⟨rfl,(strcaseeq_cons dot _ _).trans hcase⟩

theorem covers_iff : Covers sn name ↔ (strcaseeq name sn || wildcardMatch name sn)=true := by
  rw [Bool.or_eq_true,wildcardMatch_iff]
  constructor
  · intro h
    cases h with
    | same h => exact .inl h
    | label hl h => exact .inr ⟨_,_,_,hl,rfl,rfl,h⟩
  · rintro (h|⟨l,rest,sn',hl,rfl,rfl,h⟩)
    · exact .same h
    · exact .label hl h

theorem names_iff {ntype : HostType} {g : GeneralName} :
    Names ntype name g ↔ altNameMatch ntype name g=true := by
  constructor
  · intro h
    cases h with
    | @dns sn name hne h =>
      have hc := covers_iff.mp h
      simp [altNameMatch,hne,hc]
    | ip4 h => simp [altNameMatch,h]
    | ip6 h => simp [altNameMatch,h]
  · intro h
    cases g with
    | dns sn =>
      simp only [altNameMatch,Bool.and_eq_true,decide_eq_true_eq] at h
      obtain ⟨⟨rfl,hne⟩,hc⟩ := h
      exact .dns hne (covers_iff.mpr hc)
    | ipadd sn =>
      cases ntype with
      | dns => cases h
      | ip4 addr =>
        simp only [altNameMatch,Bool.and_eq_true,decide_eq_true_eq] at h
        obtain ⟨hl,rfl⟩ := h
        exact .ip4 hl
      | ip6 addr =>
        simp only [altNameMatch,Bool.and_eq_true,decide_eq_true_eq] at h
        obtain ⟨hl,rfl⟩ := h
        exact .ip6 hl
    | other => cases h

theorem toLowerOctet_eq_dot (c : UInt8) : toLowerOctet c=dot ↔ c=dot := by
  rw [toLowerOctet,dot]
  split
  · rename_i h
    simp only [UInt8.le_iff_toNat_le,← UInt8.toNat_inj,UInt8.toNat_add,UInt8.reduceToNat] at h ⊢
    omega
  · rfl

theorem count_map_toLowerOctet (l : List UInt8) : (l.map toLowerOctet).count dot=l.count dot := by
  induction l with
  | nil => rfl
  | cons c l ih =>
    rw [List.map_cons,List.count_cons,List.count_cons,ih]
    simp only [beq_iff_eq,toLowerOctet_eq_dot]

theorem count_of_strcaseeq (h : strcaseeq name sn=true) : name.count dot=sn.count dot := by
  have hmap : name.map toLowerOctet=sn.map toLowerOctet := by simpa [strcaseeq] using h
  rw [← count_map_toLowerOctet name,hmap,count_map_toLowerOctet]

/-- A pattern only stands for names with as many labels as it has. -/
theorem Covers.count (h : Covers sn name) : name.count dot=sn.count dot := by
  cases h with
  | same h => exact count_of_strcaseeq h
  | @label l hl sn rest h =>
    have hc := count_of_strcaseeq h
    have hz : l.count dot=0 := List.count_eq_zero.mpr hl
    have hne : asterisk≠dot := by decide
    rw [List.count_append,hz,List.count_cons_self,List.count_cons_of_ne hne,List.count_cons_self,hc]
    omega

variable {inetPton inetAton : List UInt8 → Option (List UInt8)} {cert : Option X509}

theorem tlsoGetCert_eq_some_iff {s : TlsSession} {x : X509} :
    tlsoGetCert s=some x ↔ s.verifyResult=0 ∧ s.peerCertificate=some x := by
  rw [tlsoGetCert]
  split
  · rename_i h
    simp [h]
  · rename_i h
    simp [not_not.mp h]

theorem checkCertificate_accepts_iff : checkCertificate inetPton inetAton name cert=(0,none) ↔
    ∀x,cert=some x → StandsFor inetPton inetAton name x := by
  cases cert with
  | none => simp [checkCertificate]
  | some x =>
    have hany :
        (x.altNames.getD []).any (altNameMatch (hostType inetPton inetAton name) name)=true ↔
        ∃g∈x.altNames.getD [],Names (hostType inetPton inetAton name) name g := by
      rw [List.any_eq_true]
      exact exists_congr fun g => and_congr_right fun _ => names_iff.symm
    simp only [checkCertificate,Option.some.injEq,forall_eq',StandsFor,← hany]
    split
    · rename_i h
      simp [h]
    · rename_i h
      simp only [h,Bool.false_eq_true,false_or]
      cases x.commonNames.getLast? with
      | none => simp
      | some cn =>
        simp only [Option.some.injEq,exists_eq_left',covers_iff]
        split
        · rename_i hc
          simp [hc]
        · rename_i hc
          simp [hc]

theorem checkCertificate_cases : checkCertificate inetPton inetAton name cert=(0,none) ∨
    ∃text,checkCertificate inetPton inetAton name cert=(ldapConnectError,some text) := by
  cases cert with
  | none => exact .inl rfl
  | some x =>
    rw [checkCertificate]
    split
    · exact .inl rfl
    · split
      · exact .inr ⟨_,rfl⟩
      · split
        · exact .inl rfl
        · exact .inr ⟨_,rfl⟩

theorem checkCertificate_passes_iff {s : TlsSession} :
    checkCertificate inetPton inetAton name (tlsoGetCert s)=(0,none) ↔
      Passes inetPton inetAton name s := by
  simp only [checkCertificate_accepts_iff,tlsoGetCert_eq_some_iff,Passes,and_imp]
  exact ⟨fun h hv x => h x hv,fun h x hv => h hv x⟩

end Lemmas

end TiLdap.OpenLdap
