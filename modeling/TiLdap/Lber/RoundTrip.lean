import TiLdap.Lber.Decode
import TiLdap.Lber.Fields

namespace TiLdap.Lber

open Framework

def Prim.get : Prim → Get
  | .boolean _ => .boolean
  | .int _ => .int
  | .enum _ => .int
  | .null => .null
  | .octets _ => .octets

/-- A true boolean is read as the number that its octet stands for. -/
def Prim.out : Prim → List Out
  | .boolean b => [.int (if b then -1 else 0)]
  | .int n => [.int n]
  | .enum n => [.int n]
  | .null => []
  | .octets l => [.bytes l]

mutual

def Field.gets : Field → List Get
  | .prim _ p => [p.get]
  | .strings _ _ => [.beginSeq,.vector,.finish]
  | .group set _ fs => (if set then .beginSet else .beginSeq)::(Field.getsAll fs++[.finish])

def Field.getsAll : List Field → List Get
  | [] => []
  | f::fs => f.gets++Field.getsAll fs

end

mutual

def Field.outs : Field → List Out
  | .prim _ p => p.out
  | .strings _ ls => [vectorOut ls]
  | .group _ _ fs => Field.outsAll fs

def Field.outsAll : List Field → List Out
  | [] => []
  | f::fs => f.outs++Field.outsAll fs

end

mutual

/-- Every tag that is set is one that can be read. -/
def Field.valid (w : Word) : Field → Bool
  | .prim t _ => t.all (validTag w)
  | .strings t _ => t.all (validTag w)
  | .group _ t fs => t.all (validTag w) && Field.validAll w fs

def Field.validAll (w : Word) : List Field → Bool
  | [] => true
  | f::fs => f.valid w && Field.validAll w fs

end

section Lemmas

variable {w : Word}

/-- What is stored in front of a result. -/
def storeFirst (os : List Out) (x : Option (List Out) × Reader) : Option (List Out) × Reader :=
  andThen x fun os' b => (some (os++os'),b)

theorem berScanf_cons {g : Get} {fmt : List Get} {b b' : Reader} {os : List Out}
    (h : berGet w fmt.head? b g=(some os,b')) :
    berScanf w (g::fmt) b=storeFirst os (berScanf w fmt b') := by
  rw [berScanf,h]
  rfl

theorem storeFirst_storeFirst (a b : List Out) (x : Option (List Out) × Reader) :
    storeFirst a (storeFirst b x)=storeFirst (a++b) x := by
  obtain ⟨_|o,r⟩ := x
  · rfl
  · simp [storeFirst,andThen]

@[simp] theorem storeFirst_nil (x : Option (List Out) × Reader) : storeFirst [] x=x := by
  obtain ⟨_|o,r⟩ := x
  · rfl
  · rfl

/-- A format reads octets: it stores what they hold and goes on after them. -/
def Reads (w : Word) (gets : List Get) (l : List UInt8) (os : List Out) : Prop :=
  ∀(b : Reader) (r : List UInt8),b.view=l++r → ∀fmt,
    ∃b',b'.view=r ∧ berScanf w (gets++fmt) b=storeFirst os (berScanf w fmt b')

theorem reads_nil : Reads w [] [] [] := by
  intro b r hv fmt
  exact ⟨b,hv,by simp⟩

theorem Reads.then {a c : List Get} {l k : List UInt8} {os ps : List Out} (h : Reads w a l os)
    (h' : Reads w c k ps) : Reads w (a++c) (l++k) (os++ps) := by
  intro b r hv fmt
  rw [List.append_assoc] at hv
  obtain ⟨b₁,hv₁,h₁⟩ := h b (k++r) hv (c++fmt)
  obtain ⟨b₂,hv₂,h₂⟩ := h' b₁ r hv₁ fmt
  refine ⟨b₂,hv₂,?_⟩
  rw [List.append_assoc,h₁,h₂,storeFirst_storeFirst]

/-- One conversion that does not look at the next one. -/
theorem reads_one {g : Get} {l : List UInt8} {os : List Out}
    (h : ∀(b : Reader) (r : List UInt8),b.view=l++r →
      ∃b',b'.view=r ∧ ∀next,berGet w next b g=(some os,b')) : Reads w [g] l os := by
  intro b r hv fmt
  obtain ⟨b',hb,hg⟩ := h b r hv
  exact ⟨b',hb,berScanf_cons (hg _)⟩

theorem element_tlv {t : Nat} {c : List UInt8} (ht : validTag w t=true)
    (hc : c.length<256^w.size) : Element w t c (tlv w t c) :=
  .mk _ ht (lengthForm_berPrependLen hc)

theorem element_groupTlv {t : Nat} {c : List UInt8} (ht : validTag w t=true)
    (hc : c.length<256^4) (d : Bool) : Element w t c (groupTlv w d t c) := by
  have hp : 256^4≤256^w.size := Nat.pow_le_pow_right (by decide) (by cases w <;> decide)
  rw [groupTlv,groupLength]
  cases d with
  | false => exact .mk _ ht (lengthForm_fixedOctets hc)
  | true => exact .mk _ ht (lengthForm_berPrependLen (by omega))

theorem elements_flatMap_tlv {t : Nat} (ht : validTag w t=true) {cs : List (List UInt8)}
    (hc : ∀c∈cs,c.length<256^w.size) : Elements w cs (cs.flatMap (tlv w t)) := by
  induction cs with
  | nil => exact .nil
  | cons c cs ih =>
    rw [List.flatMap_cons]
    exact .cons (element_tlv ht (hc c List.mem_cons_self))
      (ih fun d hd => hc d (List.mem_cons_of_mem c hd))

theorem int32_signedOctets (n : Int32) :
    Int32.ofInt (ofSignedOctets (signedOctets 4 n.toInt))=n := by
  have hl := n.le_toInt
  have hu := n.toInt_lt
  rw [ofSignedOctets_signedOctets (k := 3) (by omega) (by omega),Int32.ofInt_toInt]

theorem validTag_prim (p : Prim) : validTag w p.tag=true := by
  have h : ∀t∈[lberBoolean,lberInteger,lberEnumerated,lberNull,lberOctetString],
      validTag w t=true := by cases w <;> decide
  cases p <;> exact h _ (by simp [Prim.tag])

theorem validTag_getD {t : Option Nat} {u : Nat} (ht : t.all (validTag w)=true)
    (hu : validTag w u=true) : validTag w (t.getD u)=true := by
  cases t with
  | none => exact hu
  | some t => exact ht

theorem reads_prim {t : Nat} (ht : validTag w t=true) (p : Prim)
    (hp : p.contents.length<256^w.size) : Reads w [p.get] (tlv w t p.contents) p.out := by
  have he := element_tlv ht hp
  apply reads_one
  intro b r hv
  refine ⟨b.moveTo r,b.view_moveTo r,?_⟩
  intro next
  cases p with
  | boolean v =>
    have hi := berGetInt_element he hv (by simp [Prim.contents])
    simp only [Prim.get,berGet,hi]
    cases v <;> rfl
  | int n =>
    have hi := berGetInt_element he hv (length_signedOctets_le 4 n.toInt)
    simp only [Prim.get,berGet,hi,Prim.contents,int32_signedOctets]
    rfl
  | enum n =>
    have hi := berGetInt_element he hv (length_signedOctets_le 4 n.toInt)
    simp only [Prim.get,berGet,hi,Prim.contents,int32_signedOctets]
    rfl
  | null =>
    have hs := berSkipTag_element he hv
    simp only [Prim.get,berGet,berGetNull,hs]
    rfl
  | octets l =>
    have hg := berGetStringbv_element he hv false (by simp)
    simp only [Prim.get,berGet,hg]
    rfl

theorem reads_strings {t : Nat} (ht : validTag w t=true) (d : Bool) (cs : List (List UInt8))
    (hc : (cs.flatMap (tlv w lberOctetString)).length<256^4) :
    Reads w [.beginSeq,.vector,.finish]
      (groupTlv w d t (cs.flatMap (tlv w lberOctetString))) [vectorOut cs] := by
  have hp : 256^4≤256^w.size := Nat.pow_le_pow_right (by decide) (by cases w <;> decide)
  have hcs : ∀c∈cs,c.length<256^w.size := by
    intro c hm
    have hle : c.length≤(cs.flatMap (tlv w lberOctetString)).length := by
      have hs := List.sublist_flatten_of_mem (List.mem_map_of_mem (f := tlv w lberOctetString) hm)
      have hl := hs.length_le
      rw [← List.flatMap_def] at hl
      have ht : c.length≤(tlv w lberOctetString c).length := by
        simp [tlv]
        omega
      omega
    omega
  have he := element_groupTlv ht hc d
  have hes := elements_flatMap_tlv (w := w) (t := lberOctetString) (by cases w <;> decide) hcs
  intro b r hv fmt
  obtain ⟨b',hb,hg⟩ := berGetStringbvl_element he hes hv false (by simp)
  refine ⟨b',hb,?_⟩
  have h1 : berGet w (some .vector) b .beginSeq=(some [],b) := rfl
  have h2 : berGet w (some .finish) b .vector=(some [vectorOut cs],b') := by
    rw [berGet,hg]
    rfl
  have h3 : berGet w fmt.head? b' .finish=(some [],b') := rfl
  simp only [List.cons_append,List.nil_append]
  rw [berScanf_cons h1,berScanf_cons h2,berScanf_cons h3,storeFirst_nil,storeFirst_nil]

/-- A format that does not start with the strings of a vector. -/
def Plain (gets : List Get) : Prop := gets.head?≠some .strings ∧ gets.head?≠some .vector

theorem Reads.group {gets : List Get} {c : List UInt8} {os : List Out} (h : Reads w gets c os)
    (hp : Plain gets) {t : Nat} (ht : validTag w t=true) (hc : c.length<256^4) (d set : Bool) :
    Reads w ((if set then .beginSet else .beginSeq)::(gets++[.finish])) (groupTlv w d t c) os := by
  have he := element_groupTlv ht hc d
  intro b r hv fmt
  have hs := berSkipTag_element he hv
  obtain ⟨b',hb,hg⟩ := h (b.moveTo (c++r)) r (b.view_moveTo _) ([.finish]++fmt)
  refine ⟨b',hb,?_⟩
  have hn : ¬((gets++([Get.finish]++fmt)).head?=some .strings ∨
      (gets++([Get.finish]++fmt)).head?=some .vector) := by
    cases gets with
    | nil => simp
    | cons g gs =>
      obtain ⟨h1,h2⟩ := hp
      simp only [List.head?_cons,ne_eq,Option.some.injEq] at h1 h2
      simp [h1,h2]
  have hbegin : berGet w (gets++([Get.finish]++fmt)).head? b
      (if set then .beginSet else .beginSeq)=(some [],b.moveTo (c++r)) := by
    cases set with
    | false =>
      simp only [Bool.false_eq_true,↓reduceIte,berGet,if_neg hn,hs]
      rfl
    | true =>
      simp only [↓reduceIte,berGet,if_neg hn,hs]
      rfl
  have hfinish : berGet w fmt.head? b' .finish=(some [],b') := rfl
  rw [List.cons_append,List.append_assoc,berScanf_cons hbegin,storeFirst_nil,hg,
    List.singleton_append,berScanf_cons hfinish,storeFirst_nil]

theorem Field.plain_getsAll (fs : List Field) : Plain (Field.getsAll fs) := by
  cases fs with
  | nil => simp [Plain,Field.getsAll]
  | cons f fs =>
    cases f with
    | prim t p => cases p <;> simp [Plain,Field.getsAll,Field.gets,Prim.get]
    | strings t ls => simp [Plain,Field.getsAll,Field.gets]
    | group set t fs => cases set <;> simp [Plain,Field.getsAll,Field.gets]

theorem tlv_length_lt {t n : Nat} {c : List UInt8} (h : (tlv w t c).length≤n) : c.length<n := by
  have ho := List.length_pos_iff.mpr (octets_ne_nil w.size_pos t)
  simp only [tlv,List.length_append] at h
  omega

mutual

/-- What a field is written as is read back by its conversions. -/
theorem Field.reads : ∀(f : Field) (d : Bool),f.valid w=true → f.room w≤ maxintBersize w →
    Reads w f.gets (f.encode w d) f.outs
  | .prim t p,d => by
    intro hv hr
    rw [Field.valid] at hv
    rw [Field.room] at hr
    have hp : maxintBersize w<256^w.size := by cases w <;> decide
    have hl := tlv_length_lt hr
    simp only [Field.gets,Field.encode,Field.outs]
    exact reads_prim (validTag_getD hv (validTag_prim p)) p (by omega)
  | .strings t ls,d => by
    intro hv hr
    rw [Field.valid] at hv
    rw [Field.room] at hr
    have hmax := maxintBersize_lt w
    simp only [Field.gets,Field.encode,Field.outs]
    exact reads_strings (validTag_getD hv (by cases w <;> decide)) d ls (by omega)
  | .group set t fs,d => by
    intro hv hr
    rw [Field.valid,Bool.and_eq_true] at hv
    rw [Field.room] at hr
    have hmax := maxintBersize_lt w
    have hl := (Field.appendsAll (w := w) fs).length_le (by omega) d
    simp only [Field.gets,Field.encode,Field.outs]
    exact (Field.readsAll fs d hv.2 (by omega)).group (Field.plain_getsAll fs)
      (validTag_getD hv.1 (by cases set <;> cases w <;> decide)) (by omega) d set

theorem Field.readsAll : ∀(fs : List Field) (d : Bool),Field.validAll w fs=true →
    Field.roomAll w fs≤ maxintBersize w →
      Reads w (Field.getsAll fs) (Field.encodeAll w d fs) (Field.outsAll fs)
  | [],d => by
    intro hv hr
    simp only [Field.getsAll,Field.encodeAll,Field.outsAll]
    exact reads_nil
  | f::fs,d => by
    intro hv hr
    rw [Field.validAll,Bool.and_eq_true] at hv
    rw [Field.roomAll] at hr
    simp only [Field.getsAll,Field.encodeAll,Field.outsAll]
    exact (Field.reads f d hv.1 (by omega)).then (Field.readsAll fs d hv.2 (by omega))

end

end Lemmas

end TiLdap.Lber
