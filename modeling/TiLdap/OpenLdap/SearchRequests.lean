import TiLdap.Lber.RoundTrip
import TiLdap.OpenLdap.FilterParsing
import TiLdap.OpenLdap.Message

namespace TiLdap.OpenLdap

open Framework Lber

def ldapEncodingError : Int := -3
def ldapFilterError : Int := -7
def ldapReqSearch : Nat := 0x63

/-- What a session hands to its searches. -/
structure SearchDefaults where
  deref : Int32
  sizelimit : Int32
  timelimit : Int32
  deriving DecidableEq, Repr

/-- The arguments of a search, with strings as the octets before their end. -/
structure SearchArgs where
  base : List UInt8
  scope : Int32
  filter : Option (List UInt8)
  attrs : List (List UInt8)
  attrsonly : Bool
  timelimit : Int32
  sizelimit : Int32
  deref : Int32
  deriving DecidableEq, Repr

/-- A null pointer stands for `(objectclass=*)`. -/
def SearchArgs.filterString (a : SearchArgs) : List UInt8 :=
  a.filter.getD (utf8 "(objectclass=*)")

/-- `ldap_build_search_req`, without controls. -/
def ldapBuildSearchReqBer (w : Word) (below : List UInt8 → UInt8) (ld : SearchDefaults)
    (id : Int32) (a : SearchArgs) : Except Int Writer :=
  match berPrintf w { der := true } [.beginSeq,.int id,.tag ldapReqSearch,.beginSeq,
      .octets a.base,.enum a.scope,.enum (if a.deref<0 then ld.deref else a.deref),
      .int (if a.sizelimit<0 then ld.sizelimit else a.sizelimit),
      .int (if a.timelimit<0 then ld.timelimit else a.timelimit),.boolean a.attrsonly] with
  | none => .error ldapEncodingError
  | some b =>
    match ldapPvtPutFilter w below a.filterString b with
    | none => .error ldapFilterError
    | some b =>
      match berPrintf w b [.beginSeq,.vector a.attrs,.finish,.debugNull,.finish] with
      | none => .error ldapEncodingError
      | some b =>
        match berPrintf w b [.debugNull,.finish] with
        | none => .error ldapEncodingError
        | some b => .ok b

/-- The fields of a search request before the filter. -/
def SearchArgs.header (ld : SearchDefaults) (a : SearchArgs) : List Field :=
  [.prim none (.octets a.base),.prim none (.enum a.scope),
    .prim none (.enum (if a.deref<0 then ld.deref else a.deref)),
    .prim none (.int (if a.sizelimit<0 then ld.sizelimit else a.sizelimit)),
    .prim none (.int (if a.timelimit<0 then ld.timelimit else a.timelimit)),
    .prim none (.boolean a.attrsonly)]

/-- A search request with the fields of its filter. -/
def SearchArgs.field (ld : SearchDefaults) (id : Int32) (a : SearchArgs) (fs : List Field) :
    Field :=
  .group false none [.prim none (.int id),
    .group false (some ldapReqSearch) (a.header ld++(fs++[.strings none a.attrs]))]

/-- The arguments that a request comes to in C; aliases are left to the session. -/
def searchArgs (rq : SearchRequest) : SearchArgs where
  base := utf8 (cString rq.base)
  scope := Int32.ofInt rq.scope
  filter := some (utf8 (cString rq.filter))
  attrs := (rq.attrs.getD []).map fun s => utf8 (cString s)
  attrsonly := rq.typesOnly
  timelimit := Int32.ofInt rq.timeLimit
  sizelimit := Int32.ofInt rq.sizeLimit
  deref := -1

/-- What a server reads of a message before its filter. -/
def messageOuts (id deref : Int32) (m : SearchMessage) : List Out :=
  [.int id,.bytes (utf8 m.base),.int (Int32.ofInt m.scope),.int deref,
    .int (Int32.ofInt m.sizeLimit),.int (Int32.ofInt m.timeLimit),
    .int (if m.typesOnly then -1 else 0)]

section Lemmas

variable {w : Word} {below : List UInt8 → UInt8}

/-- The calls of `ber_printf` come to one that writes the whole request. -/
theorem puts_searchField (ld : SearchDefaults) (id : Int32) (a : SearchArgs) (fs : List Field) :
    (a.field ld id fs).puts=
      ([.beginSeq,.int id,.tag ldapReqSearch,.beginSeq]++Field.putsAll (a.header ld))++
        (Field.putsAll fs++([.beginSeq,.vector a.attrs,.finish]++([.finish]++[.finish]))) := by
  simp [SearchArgs.field,Field.puts,Field.putsAll,putsAll_append,setTag,beginGroup,Prim.put]

theorem berPrintf_new {f : Field} (hr : f.room w≤ maxintBersize w) :
    berPrintf w { der := true } f.puts=some { der := true, buf := f.encode w true } := by
  have h := (Field.appends (w := w) f).run { der := true } (by simp [Writer.Sound]) rfl
    (by simpa using hr)
  simpa using h

/-- What a request without fields in the place of its filter takes is no more. -/
theorem ldapBuildSearchReqBer_fields {ld : SearchDefaults} {id : Int32} {a : SearchArgs}
    {fs : List Field}
    (hf : ∀b,ldapPvtPutFilter w below a.filterString b=berPrintf w b (Field.putsAll fs))
    (hr : (a.field ld id fs).room w≤ maxintBersize w) :
    ldapBuildSearchReqBer w below ld id a=
      .ok { der := true, buf := (a.field ld id fs).encode w true } := by
  have h := berPrintf_new hr
  rw [puts_searchField,berPrintf_append] at h
  obtain ⟨b₁,h1,h⟩ := Option.bind_eq_some_iff.mp h
  rw [berPrintf_append] at h
  obtain ⟨b₂,h2,h⟩ := Option.bind_eq_some_iff.mp h
  rw [berPrintf_append] at h
  obtain ⟨b₃,h3,h⟩ := Option.bind_eq_some_iff.mp h
  rw [berPrintf_append] at h
  obtain ⟨b₄,h4,h5⟩ := Option.bind_eq_some_iff.mp h
  have h34 : berPrintf w b₂ [.beginSeq,.vector a.attrs,.finish,.debugNull,.finish]=some b₄ := by
    show berPrintf w b₂ ([.beginSeq,.vector a.attrs,.finish]++[.debugNull,.finish])=some b₄
    rw [berPrintf_append,h3]
    exact (berPrintf_debugNull _ _).trans h4
  have h5' := (berPrintf_debugNull b₄ []).trans h5
  rw [ldapBuildSearchReqBer]
  simp only [SearchArgs.header,Field.putsAll,Field.puts,setTag,Prim.put,List.nil_append,
    List.cons_append] at h1
  rw [h1]
  simp only [hf,h2,h34,h5']

/-- A filter that is an error is found out after what comes before it is written. -/
theorem ldapBuildSearchReqBer_filterError {ld : SearchDefaults} {id : Int32} {a : SearchArgs}
    (hf : ∀b,ldapPvtPutFilter w below a.filterString b=none)
    (hr : (a.field ld id []).room w≤ maxintBersize w) :
    ldapBuildSearchReqBer w below ld id a=.error ldapFilterError := by
  have h := berPrintf_new hr
  rw [puts_searchField,berPrintf_append] at h
  obtain ⟨b₁,h1,-⟩ := Option.bind_eq_some_iff.mp h
  rw [ldapBuildSearchReqBer]
  simp only [SearchArgs.header,Field.putsAll,Field.puts,setTag,Prim.put,List.nil_append,
    List.cons_append] at h1
  rw [h1]
  simp only [hf]

theorem validAll_append (fs gs : List Field) :
    Field.validAll w (fs++gs)=(Field.validAll w fs && Field.validAll w gs) := by
  induction fs with
  | nil => rfl
  | cons f fs ih => simp [Field.validAll,ih,Bool.and_assoc]

theorem validAll_optionalField {t : Nat} (ht : validTag w t=true) (l : List UInt8) :
    Field.validAll w (optionalField t l)=true := by
  rw [optionalField]
  split
  · rfl
  · simp [Field.validAll,Field.valid,ht]

theorem valid_pieceFields (initial : List UInt8) (any : List (List UInt8))
    (final : List UInt8) : Field.validAll w (pieceFields initial any final)=true := by
  have hany : Field.validAll w
      (any.map (fun l => .prim (some ldapSubstringAny) (.octets l)))=true := by
    induction any with
    | nil => rfl
    | cons l any ih =>
      have ht : validTag w ldapSubstringAny=true := by cases w <;> decide
      simpa [Field.validAll,Field.valid,ht] using ih
  simp only [pieceFields,validAll_append,hany,Bool.and_eq_true,true_and]
  exact ⟨validAll_optionalField (by cases w <;> decide) _,
    validAll_optionalField (by cases w <;> decide) _⟩

theorem valid_extFields (x : ExtName) (value : List UInt8) :
    Field.validAll w (extFields x value)=true := by
  have ht : validTag w ldapFilterExtValue=true ∧ validTag w ldapFilterExtDnattrs=true := by
    cases w <;> decide
  have h1 := validAll_optionalField (w := w) (t := ldapFilterExtOid) (by cases w <;> decide) x.rule
  have h2 := validAll_optionalField (w := w) (t := ldapFilterExtType) (by cases w <;> decide)
    x.type
  cases hd : x.dn <;>
    simp [extFields,validAll_append,h1,h2,hd,Field.validAll,Field.valid,ht]

mutual

/-- The tags of filters can be read. -/
theorem Filter.valid_field : ∀f : Filter,f.field.valid w=true
  | .and fs => by
    have ht : validTag w ldapFilterAnd=true := by cases w <;> decide
    simp [Filter.field,Field.valid,ht,Filter.valid_fields fs]
  | .or fs => by
    have ht : validTag w ldapFilterOr=true := by cases w <;> decide
    simp [Filter.field,Field.valid,ht,Filter.valid_fields fs]
  | .not f => by
    have ht : validTag w ldapFilterNot=true := by cases w <;> decide
    simp [Filter.field,Field.valid,Field.validAll,ht,Filter.valid_field f]
  | .compare k type value => by
    have ht : validTag w k.tag=true := by cases k <;> cases w <;> decide
    simp [Filter.field,Field.valid,Field.validAll,ht]
  | .present type => by
    have ht : validTag w ldapFilterPresent=true := by cases w <;> decide
    simp [Filter.field,Field.valid,ht]
  | .substrings type initial any final => by
    have ht : validTag w ldapFilterSubstrings=true := by cases w <;> decide
    simp [Filter.field,Field.valid,Field.validAll,ht,valid_pieceFields]
  | .extensible x value => by
    have ht : validTag w ldapFilterExt=true := by cases w <;> decide
    simp [Filter.field,Field.valid,ht,valid_extFields]

theorem Filter.valid_fields : ∀fs : List Filter,Field.validAll w (Filter.fields fs)=true
  | [] => rfl
  | f::fs => by simp [Filter.fields,Field.validAll,Filter.valid_field f,Filter.valid_fields fs]

end

theorem valid_searchField (ld : SearchDefaults) (id : Int32) (a : SearchArgs) {fs : List Field}
    (h : Field.validAll w fs=true) : (a.field ld id fs).valid w=true := by
  have ht : validTag w ldapReqSearch=true := by cases w <;> decide
  simp [SearchArgs.field,SearchArgs.header,Field.valid,Field.validAll,validAll_append,h,ht]

theorem outsAll_append (fs gs : List Field) :
    Field.outsAll (fs++gs)=Field.outsAll fs++Field.outsAll gs := by
  induction fs with
  | nil => rfl
  | cons f fs ih => simp [Field.outsAll,ih]

theorem ofInt_lt_zero {n : Int} (h1 : -2^31≤n) (h2 : n<2^31) : Int32.ofInt n<0 ↔ n<0 := by
  rw [Int32.lt_iff_toInt_lt,Int32.toInt_ofInt_of_le h1 h2]
  rfl

/-- A negative limit gives way to that of the session. -/
theorem ofInt_limit {n : Int} (h1 : -2^31≤n) (h2 : n<2^31) (d : Int32) :
    (if Int32.ofInt n<0 then d else Int32.ofInt n)=
      Int32.ofInt (if n<0 then d.toInt else n) := by
  by_cases hn : n<0
  · rw [if_pos ((ofInt_lt_zero h1 h2).mpr hn),if_pos hn,Int32.ofInt_toInt]
  · rw [if_neg (mt (ofInt_lt_zero h1 h2).mp hn),if_neg hn]

/-- What the conversions for a search request store is the message that it stands for. -/
theorem outs_searchField {ld : SearchDefaults} {rq : SearchRequest} (id : Int32)
    (fs : List Field) (hs1 : -2^31≤ rq.sizeLimit) (hs2 : rq.sizeLimit<2^31)
    (ht1 : -2^31≤ rq.timeLimit) (ht2 : rq.timeLimit<2^31) :
    let m := ldapBuildSearchReq ld.sizelimit.toInt ld.timelimit.toInt rq
    ((searchArgs rq).field ld id fs).outs=messageOuts id ld.deref m++
      (Field.outsAll fs++[vectorOut (m.attributes.map utf8)]) := by
  have hd : (-1 : Int32)<0 := by decide
  simp [SearchArgs.field,SearchArgs.header,Field.outs,Field.outsAll,outsAll_append,Prim.out,
    searchArgs,messageOuts,ldapBuildSearchReq,hd]
  exact ⟨ofInt_limit hs1 hs2 _,ofInt_limit ht1 ht2 _,rfl,rfl⟩

end Lemmas

end TiLdap.OpenLdap
