import TiLdap.OpenLdap.Entries
import TiLdap.OpenLdap.Results

namespace TiLdap.OpenLdap

open Framework Lber

/-- A zero-terminated string ends at its first zero octet. -/
def cOctets (l : List UInt8) : List UInt8 := l.takeWhile (·≠0)

/-- `LBER_OPT_BER_REMAINING_BYTES`: the end of the buffer is moved. -/
def setRemaining (n : Nat) (b : Reader) : Reader := { b with rest := b.rest.take n }

section Accessors

variable (w : Word)

def ldapGetDn (ber : Reader) : Option (List UInt8) :=
  match berScanf w [.beginSeq,.string] ber with
  | (some [.bytes dn],_) => some dn
  | _ => none

/-- The type of an attribute, whose values are passed over. -/
def ldapNextAttribute (ber : Reader) : Option (List UInt8 × Reader) :=
  if ber.rest=[] then none
  else
    match berScanf w [.beginSeq,.string,.skip,.finish] ber with
    | (some [.bytes attr],ber) => some (attr,ber)
    | _ => none

/-- The first attribute is read with the end of the list for the end of the buffer. -/
def ldapFirstAttribute (ber : Reader) : Option (List UInt8 × Reader) :=
  match berScanf w [.beginSeq,.skip,.length,.beginSeq] ber with
  | (some [.length len],ber) => ldapNextAttribute w (setRemaining len ber)
  | _ => none

/-- The calls of `ldap_next_attribute` up to the one that returns a null pointer. -/
def attributesFrom : Nat → Reader → List (List UInt8)
  | 0,_ => []
  | k+1,ber =>
    match ldapNextAttribute w ber with
    | none => []
    | some (attr,ber) => attr::attributesFrom k ber

def ldapAttributes (ber : Reader) : List (List UInt8) :=
  match ldapFirstAttribute w ber with
  | none => []
  | some (attr,ber) => attr::attributesFrom w ber.rest.length ber

/-- The loop of `ldap_get_values` stops behind the type that is looked for. It does not know where
the attributes end. Each round takes octets off the buffer. -/
def seekValues (target : List UInt8) : Nat → List UInt8 → Reader → Option Reader
  | 0,attr,ber => if strcaseeq target (cOctets attr) then some ber else none
  | k+1,attr,ber =>
    if strcaseeq target (cOctets attr) then some ber
    else
      match berScanf w [.skip,.finish,.beginSeq,.string] ber with
      | (some [.bytes attr],ber) => seekValues target k attr ber
      | _ => none

/-- A set without values is a null pointer, too. -/
def ldapGetValuesAs (g : Get) (target : List UInt8) (ber : Reader) :
    Option (List (List UInt8)) :=
  match berScanf w [.beginSeq,.skip,.beginSeq,.beginSeq,.string] ber with
  | (some [.bytes attr],b) =>
    match seekValues w target ber.rest.length attr b with
    | none => none
    | some b =>
      match berScanf w [.beginSet,g,.finish] b with
      | (some [.list vals],_) => some vals
      | _ => none
  | _ => none

def ldapGetValues (target : List UInt8) (ber : Reader) : Option (List (List UInt8)) :=
  ldapGetValuesAs w .strings target ber

def ldapGetValuesLen (target : List UInt8) (ber : Reader) : Option (List (List UInt8)) :=
  ldapGetValuesAs w .vector target ber

end Accessors

/-- An attribute of an entry, as octets. -/
structure RawAttribute where
  name : List UInt8
  values : List (List UInt8)
  deriving DecidableEq, Repr

/-- An entry as octets. -/
structure RawEntry where
  dn : List UInt8
  attributes : List RawAttribute
  deriving DecidableEq, Repr

/-- Attributes in a row, whatever the forms of their lengths. -/
inductive AttributesIn (w : Word) : List RawAttribute → List UInt8 → Prop
  | nil : AttributesIn w [] []
  | cons {a : RawAttribute} {as : List RawAttribute} {t₁ t₂ t₃ : Nat}
    {n v c l ls : List UInt8} (hn : Element w t₁ a.name n) (hv : Elements w a.values c)
    (hs : Element w t₂ c v) (ha : Element w t₃ (n++v) l) (h : AttributesIn w as ls) :
    AttributesIn w (a::as) (l++ls)

/-- An entry: its name and its attributes. -/
inductive EntryIn (w : Word) (e : RawEntry) : List UInt8 → Prop
  | mk {t₁ t₂ t₃ : Nat} {d c l m : List UInt8} (hd : Element w t₁ e.dn d)
    (ha : AttributesIn w e.attributes c) (hl : Element w t₂ c l) (h : Element w t₃ (d++l) m) :
    EntryIn w e m

/-- Names that are taken for strings as they are. -/
def RawEntry.Textual (e : RawEntry) : Prop :=
  0∉e.dn.dropLast ∧ ∀a∈e.attributes,0∉a.name.dropLast

instance (e : RawEntry) : Decidable e.Textual := inferInstanceAs (Decidable (_ ∧ _))

section Scanning

variable {w : Word} {b : Reader} {t : Nat} {c l r : List UInt8}

theorem view_setRemaining (n : Nat) (b : Reader) : (setRemaining n b).view=b.view.take n := by
  obtain ⟨fresh,tag,rest⟩ := b
  cases fresh with
  | true => rfl
  | false =>
    cases rest with
    | nil => simp [setRemaining,Reader.view]
    | cons x rest =>
      cases n with
      | zero => rfl
      | succ n => rfl

/-- An opening bracket leads to the contents of an element. -/
theorem berScanf_open (h : Element w t c l) (hv : b.view=l++r) (fmt : List Get)
    (hp : Plain fmt) : berScanf w (.beginSeq::fmt) b=berScanf w fmt (b.moveTo (c++r)) := by
  have hg : berGet w fmt.head? b .beginSeq=(some [],b.moveTo (c++r)) := by
    rw [berGet,if_neg (not_or.mpr hp),berSkipTag_element h hv]
    rfl
  rw [berScanf_cons hg,storeFirst_nil]

theorem reads_skip (h : Element w t c l) : Reads w [.skip] l [] := by
  apply reads_one
  intro b r hv
  refine ⟨b.moveTo r,b.view_moveTo r,?_⟩
  intro next
  rw [berGet,berSkipElement_element h hv]
  rfl

theorem reads_string (h : Element w t c l) (hz : 0∉ c.dropLast) :
    Reads w [.string] l [.bytes c] := by
  apply reads_one
  intro b r hv
  refine ⟨b.moveTo r,b.view_moveTo r,?_⟩
  intro next
  rw [berGet,berGetStringbv_element h hv true fun _ => hz]
  rfl

theorem reads_finish : Reads w [.finish] [] [] := by
  apply reads_one
  intro b r hv
  exact ⟨b,hv,fun _ => rfl⟩

/-- A format on its own. -/
theorem berScanf_of_reads {gets : List Get} {os : List Out} (h : Reads w gets l os)
    (hv : b.view=l++r) : ∃b',b'.view=r ∧ berScanf w gets b=(some os,b') := by
  obtain ⟨b',hb,hs⟩ := h b r hv []
  refine ⟨b',hb,?_⟩
  rw [List.append_nil] at hs
  rw [hs]
  simp [berScanf,storeFirst,andThen]

/-- Where nothing is left, nothing is opened. -/
theorem berScanf_open_nil (hv : b.view=[]) (fmt : List Get) (hp : Plain fmt) :
    (berScanf w (.beginSeq::fmt) b).1=none := by
  rw [berScanf,berGet,if_neg (not_or.mpr hp),berSkipTag,hv]
  rfl

end Scanning

section Entries

variable {w : Word} {b : Reader} {a : RawAttribute} {as : List RawAttribute} {e : RawEntry}
  {t t₁ t₂ t₃ : Nat} {n v c l ls m r : List UInt8}

theorem rest_ne_nil {b : Reader} (hv : b.view=l++r) (hl : l≠[]) : b.rest≠[] := by
  intro h0
  have hlen := b.length_view
  rw [hv,h0,List.length_append,List.length_nil] at hlen
  exact hl (List.eq_nil_of_length_eq_zero (by omega))

theorem rest_eq_nil {b : Reader} (hv : b.view=[]) : b.rest=[] := by
  have hlen := b.length_view
  rw [hv] at hlen
  exact List.eq_nil_of_length_eq_zero hlen.symm

/-- The type of the next attribute, and the place behind its values. -/
theorem ldapNextAttribute_in (hn : Element w t₁ a.name n) (hs : Element w t₂ c v)
    (ha : Element w t₃ (n++v) l) (hz : 0∉a.name.dropLast) (hv : b.view=l++r) :
    ∃b',b'.view=r ∧ ldapNextAttribute w b=some (a.name,b') := by
  have hread : Reads w [.string,.skip,.finish] (n++v) [.bytes a.name] := by
    simpa using (reads_string hn hz).then ((reads_skip hs).then reads_finish)
  obtain ⟨b',hb,hscan⟩ := berScanf_of_reads hread (b.view_moveTo (n++v++r))
  refine ⟨b',hb,?_⟩
  have hopen := berScanf_open ha hv [.string,.skip,.finish] (by simp [Plain])
  rw [ldapNextAttribute,if_neg (rest_ne_nil hv ha.ne_nil),hopen,hscan]

theorem attributesFrom_in (h : AttributesIn w as c) (hz : ∀a∈as,0∉a.name.dropLast)
    {b : Reader} (hv : b.view=c) {k : Nat} (hk : c.length≤k) :
    attributesFrom w k b=as.map RawAttribute.name := by
  induction h generalizing b k with
  | nil =>
    cases k with
    | zero => rfl
    | succ k =>
      rw [attributesFrom,ldapNextAttribute,if_pos (rest_eq_nil hv)]
      rfl
  | @cons a as t₁ t₂ t₃ n v c l ls hn hvs hs ha h ih =>
    have hpos := List.length_pos_iff.mpr ha.ne_nil
    rw [List.length_append] at hk
    obtain ⟨k,rfl⟩ := Nat.exists_eq_succ_of_ne_zero (by omega : k≠0)
    obtain ⟨b',hb,hnext⟩ := ldapNextAttribute_in hn hs ha (hz a List.mem_cons_self) hv
    have hrest := ih (fun d hd => hz d (List.mem_cons_of_mem a hd)) hb (k := k) (by omega)
    rw [attributesFrom,hnext,List.map_cons,← hrest]

/-- The first attribute is looked for among the attributes only. -/
theorem ldapFirstAttribute_in (hd : Element w t₁ e.dn n) (hl : Element w t₂ c l)
    (h : Element w t₃ (n++l) m) (hv : b.view=m++r) :
    ∃b',b'.view=c ∧ ldapFirstAttribute w b=ldapNextAttribute w b' := by
  have hopen := berScanf_open h hv [.skip,.length,.beginSeq] (by simp [Plain])
  obtain ⟨b₁,hb₁,hskip⟩ := reads_skip hd (b.moveTo (n++l++r)) (l++r) (by simp) [.length,.beginSeq]
  have hlen : berGet w [Get.beginSeq].head? b₁ .length=(some [.length c.length],b₁) := by
    rw [berGet,berPeekTag_element hl hb₁]
    rfl
  have hlist := berScanf_open hl hb₁ [] (by simp [Plain])
  refine ⟨setRemaining c.length (b₁.moveTo (c++r)),?_,?_⟩
  · rw [view_setRemaining,Reader.view_moveTo,List.take_left]
  · have hscan : berScanf w [.beginSeq,.skip,.length,.beginSeq] b=
        (some [.length c.length],b₁.moveTo (c++r)) := by
      rw [hopen]
      refine hskip.trans ?_
      rw [storeFirst_nil,berScanf_cons hlen,hlist]
      rfl
    rw [ldapFirstAttribute,hscan]

theorem ldapAttributes_in (he : EntryIn w e m) (hz : ∀a∈e.attributes,0∉a.name.dropLast)
    (hv : b.view=m++r) : ldapAttributes w b=e.attributes.map RawAttribute.name := by
  obtain ⟨hd,ha,hl,h⟩ := he
  obtain ⟨b₁,hb₁,hfirst⟩ := ldapFirstAttribute_in hd hl h hv
  rw [ldapAttributes,hfirst]
  generalize e.attributes=as at ha hz ⊢
  cases ha with
  | nil =>
    rw [ldapNextAttribute,if_pos (rest_eq_nil hb₁)]
    rfl
  | @cons a as t₁ t₂ t₃ n v c l ls hn hvs hs ha has =>
    obtain ⟨b₂,hb₂,hnext⟩ := ldapNextAttribute_in hn hs ha (hz a List.mem_cons_self) hb₁
    have hlen : ls.length=b₂.rest.length := by rw [← b₂.length_view,hb₂]
    have hrest := attributesFrom_in has (fun d hd => hz d (List.mem_cons_of_mem a hd)) hb₂ hlen.le
    rw [hnext,List.map_cons,← hrest]

theorem ldapGetDn_in (he : EntryIn w e m) (hz : 0∉e.dn.dropLast) (hv : b.view=m++r) :
    ldapGetDn w b=some e.dn := by
  obtain ⟨hd,ha,hl,h⟩ := he
  have hopen := berScanf_open h hv [.string] (by simp [Plain])
  obtain ⟨b',hb,hscan⟩ := berScanf_of_reads (reads_string hd hz)
    ((b.view_moveTo _).trans (List.append_assoc ..))
  rw [ldapGetDn,hopen,hscan]

/-- From behind the type of an attribute to behind that of the next one. -/
theorem scanf_behind (hs : Element w t c v) (hn : Element w t₁ a.name n)
    (ha : Element w t₃ (n++ls) l) (hz : 0∉a.name.dropLast) (hv : b.view=v++(l++r)) :
    ∃b',b'.view=ls++r ∧
      berScanf w [.skip,.finish,.beginSeq,.string] b=(some [.bytes a.name],b') := by
  obtain ⟨b₁,hb₁,hskip⟩ := reads_skip hs b (l++r) hv [.finish,.beginSeq,.string]
  obtain ⟨b₂,hb₂,hfin⟩ := reads_finish (w := w) b₁ (l++r) hb₁ [.beginSeq,.string]
  have hopen := berScanf_open ha hb₂ [.string] (by simp [Plain])
  obtain ⟨b',hb',hstring⟩ := berScanf_of_reads (reads_string hn hz)
    ((b₂.view_moveTo _).trans (List.append_assoc n ls r))
  refine ⟨b',hb',?_⟩
  rw [storeFirst_nil] at hskip hfin
  exact hskip.trans (hfin.trans (hopen.trans hstring))

theorem scanf_behind_last (hs : Element w t c v) (hv : b.view=v) :
    (berScanf w [.skip,.finish,.beginSeq,.string] b).1=none := by
  obtain ⟨b₁,hb₁,hskip⟩ := reads_skip hs b [] (by rw [hv,List.append_nil])
    [.finish,.beginSeq,.string]
  obtain ⟨b₂,hb₂,hfin⟩ := reads_finish (w := w) b₁ [] hb₁ [.beginSeq,.string]
  rw [storeFirst_nil] at hskip hfin
  have hend := berScanf_open_nil (w := w) hb₂ [.string] (by simp [Plain])
  have heq := hskip.trans hfin
  exact (congrArg Prod.fst heq).trans hend

/-- The attribute that a name is taken for. -/
def RawAttribute.named (target : List UInt8) (a : RawAttribute) : Bool :=
  strcaseeq target (cOctets a.name)

/-- What the loop comes to among some attributes, from behind the type of the first one: it stops
at the values of the first attribute of the name. -/
def Sought (w : Word) (target : List UInt8) (as : List RawAttribute) (r : List UInt8)
    (x : Option Reader) : Prop :=
  (∀a,as.find? (RawAttribute.named target)=some a → ∃b t c v r',x=some b ∧ b.view=v++r' ∧
    Element w t c v ∧ Elements w a.values c) ∧
  (as.find? (RawAttribute.named target)=none → r=[] → x=none)

theorem sought_here {target : List UInt8} (hm : a.named target=true) (hs : Element w t c v)
    (hvs : Elements w a.values c) (hv : b.view=v++ls) (k : Nat) :
    Sought w target (a::as) r (seekValues w target k a.name b) := by
  have hc : strcaseeq target (cOctets a.name)=true := hm
  have hseek : seekValues w target k a.name b=some b := by
    cases k with
    | zero => rw [seekValues,if_pos hc]
    | succ k => rw [seekValues,if_pos hc]
  rw [Sought,List.find?_cons_of_pos hm]
  refine ⟨?_,by simp⟩
  rintro x ⟨⟩
  exact ⟨b,t,c,v,ls,hseek,hv,hs,hvs⟩

theorem seekValues_in (target : List UInt8) (h : AttributesIn w as ls)
    (hz : ∀a∈as,0∉a.name.dropLast) (hs : Element w t c v) (hvs : Elements w a.values c)
    (hv : b.view=v++(ls++r)) {k : Nat} (hk : ls.length≤k) :
    Sought w target (a::as) r (seekValues w target k a.name b) := by
  induction h generalizing a b t c v k with
  | nil =>
    by_cases hm : a.named target=true
    · exact sought_here hm hs hvs hv k
    · have hc : ¬strcaseeq target (cOctets a.name)=true := hm
      rw [Sought,List.find?_cons_of_neg hm]
      refine ⟨by simp,?_⟩
      rintro - rfl
      cases k with
      | zero => rw [seekValues,if_neg hc]
      | succ k =>
        have hend := scanf_behind_last hs (hv.trans (List.append_nil v))
        rw [seekValues,if_neg hc]
        cases hscan : berScanf w [.skip,.finish,.beginSeq,.string] b with
        | mk os b' =>
          rw [hscan] at hend
          cases hend
          rfl
  | @cons a' as t₁ t₂ t₃ n v' c' l ls hn hvs' hs' ha h ih =>
    by_cases hm : a.named target=true
    · exact sought_here hm hs hvs hv k
    · have hc : ¬strcaseeq target (cOctets a.name)=true := hm
      have hpos := List.length_pos_iff.mpr ha.ne_nil
      rw [List.length_append] at hk
      obtain ⟨k,rfl⟩ := Nat.exists_eq_succ_of_ne_zero (by omega : k≠0)
      rw [List.append_assoc l] at hv
      obtain ⟨b',hb',hscan⟩ := scanf_behind hs hn ha (hz a' List.mem_cons_self) hv
      have hi := ih (fun d hd => hz d (List.mem_cons_of_mem a' hd)) hs' hvs' hb' (k := k)
        (by omega)
      have hseek : seekValues w target (k+1) a.name b=seekValues w target k a'.name b' := by
        rw [seekValues,if_neg hc,hscan]
      rw [Sought,List.find?_cons_of_neg hm,hseek]
      exact hi

/-- The conversion of `ldap_get_values` or `ldap_get_values_len`, and what comes of it. -/
def valuesGet (string : Bool) : Get := if string then .strings else .vector

def valuesRead (string : Bool) (vs : List (List UInt8)) : Option (List (List UInt8)) :=
  if string then stringsOut vs else valuesOut vs

theorem berGet_valuesGet (string : Bool) (next : Option Get) (b : Reader) :
    berGet w next b (valuesGet string)=
      stored (fun cs => [vectorOut cs]) (berGetStringbvl w string b) := by
  cases string with
  | false => rfl
  | true => rfl

theorem scanf_values (string : Bool) (hs : Element w t c v) {vs : List (List UInt8)}
    (hvs : Elements w vs c) (hv : b.view=v++r) :
    (match berScanf w [.beginSet,valuesGet string,.finish] b with
      | (some [.list vals],_) => some vals
      | _ => none)=valuesRead string vs := by
  have h1 : berGet w [valuesGet string,.finish].head? b .beginSet=(some [],b) := by
    cases string with
    | false => rfl
    | true => rfl
  rw [berScanf_cons h1]
  by_cases hz : string=true ∧ ∃x∈vs,0∈x.dropLast
  · obtain ⟨rfl,hx⟩ := hz
    have hnone := berGetStringbvl_refused hs hvs hv hx
    rw [valuesRead,if_pos rfl,stringsOut,if_pos hx,berScanf,berGet_valuesGet]
    cases hg : berGetStringbvl w true b with
    | mk os b' =>
      rw [hg] at hnone
      cases hnone
      rfl
  · have hok : string=true → ∀x∈vs,0∉x.dropLast := fun h x hx h0 => hz ⟨h,x,hx,h0⟩
    obtain ⟨b',-,hget⟩ := berGetStringbvl_element hs hvs hv string hok
    have h2 : berGet w [Get.finish].head? b (valuesGet string)=(some [vectorOut vs],b') := by
      rw [berGet_valuesGet,hget]
      rfl
    rw [berScanf_cons h2]
    have hread : valuesRead string vs=valuesOut vs := by
      cases string with
      | false => rfl
      | true =>
        rw [valuesRead,if_pos rfl,stringsOut,if_neg]
        rintro ⟨x,hx,h0⟩
        exact hok rfl x hx h0
    rw [hread]
    cases vs with
    | nil => rfl
    | cons x xs => rfl

theorem ldapGetValuesAs_in (he : EntryIn w e m) (hz : ∀a∈e.attributes,0∉a.name.dropLast)
    (hv : b.view=m++r) (string : Bool) (target : List UInt8) :
    (∀a,e.attributes.find? (RawAttribute.named target)=some a →
      ldapGetValuesAs w (valuesGet string) target b=valuesRead string a.values) ∧
    (e.attributes.find? (RawAttribute.named target)=none → r=[] →
      ldapGetValuesAs w (valuesGet string) target b=none) := by
  obtain ⟨hd,has,hl,h⟩ := he
  rename_i t₁ t₂ t₃ d c l
  have hopen := berScanf_open h hv [.skip,.beginSeq,.beginSeq,.string] (by simp [Plain])
  obtain ⟨b₁,hb₁,hskip⟩ := reads_skip hd (b.moveTo (d++l++r)) (l++r) (by simp)
    [.beginSeq,.beginSeq,.string]
  have hlist := berScanf_open hl hb₁ [.beginSeq,.string] (by simp [Plain])
  rw [storeFirst_nil] at hskip
  have hscan := hopen.trans (hskip.trans hlist)
  have hmlen : c.length≤b.rest.length := by
    have h1 := h.length_lt
    have h2 := hl.length_lt
    rw [← b.length_view,hv]
    simp only [List.length_append] at h1 ⊢
    omega
  generalize e.attributes=as at has hz ⊢
  cases has with
  | nil =>
    refine ⟨by simp,?_⟩
    rintro - rfl
    have hend := berScanf_open_nil (w := w) (b₁.view_moveTo ([]++[])) [.string] (by simp [Plain])
    rw [ldapGetValuesAs,hscan]
    cases hs : berScanf w [.beginSeq,.string] (b₁.moveTo ([]++[])) with
    | mk os b' =>
      rw [hs] at hend
      cases hend
      rfl
  | @cons a as t₁ t₂ t₃ n v c' l' ls hn hvs hs ha has =>
    have hview : (b₁.moveTo (l'++ls++r)).view=l'++(ls++r) :=
      (b₁.view_moveTo _).trans (List.append_assoc ..)
    have hattr := berScanf_open ha hview [.string] (by simp [Plain])
    obtain ⟨b₂,hb₂,hstring⟩ := berScanf_of_reads (reads_string hn (hz a List.mem_cons_self))
      ((Reader.view_moveTo _ _).trans (List.append_assoc n v (ls++r)))
    have hscan := hscan.trans (hattr.trans hstring)
    rw [List.length_append] at hmlen
    obtain ⟨hfound,hnone⟩ := seekValues_in target has
      (fun d hd => hz d (List.mem_cons_of_mem a hd)) hs hvs hb₂ (k := b.rest.length) (by omega)
    refine ⟨?_,?_⟩
    · intro x hx
      obtain ⟨b₃,t',c'',v',r',hseek,hb₃,hs',hvs'⟩ := hfound x hx
      rw [ldapGetValuesAs,hscan]
      dsimp only
      rw [hseek]
      exact scanf_values string hs' hvs' hb₃
    · intro hfind hr
      rw [ldapGetValuesAs,hscan]
      dsimp only
      rw [hnone hfind hr]

end Entries

end TiLdap.OpenLdap
