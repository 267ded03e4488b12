import TiLdap.Framework.Octets

namespace TiLdap.Lber

open Framework

/-- The platforms differ in `sizeof(long)`, the size of tags and lengths. -/
inductive Word where
  | long4
  | long8
  deriving DecidableEq, Repr

def Word.size : Word → Nat
  | .long4 => 4
  | .long8 => 8

/-- `(ber_tag_t)-1`, which is also `LBER_DEFAULT`. -/
def Word.max (w : Word) : Nat := 256^w.size-1

theorem Word.size_pos (w : Word) : 0<w.size := by cases w <;> decide

theorem Word.max_div (w : Word) : w.max/256=256^(w.size-1)-1 := by cases w <;> decide

-- Tags are numbers; where `LBER_DEFAULT` can stand for one, it is `none`.
def lberBoolean : Nat := 0x01
def lberInteger : Nat := 0x02
def lberOctetString : Nat := 0x04
def lberNull : Nat := 0x05
def lberEnumerated : Nat := 0x0a
def lberSequence : Nat := 0x30
def lberSet : Nat := 0x31

section Tags

variable (w : Word)

def berPrependTag (tag : Nat) (l : List UInt8) : List UInt8 := octetsOnto w.size tag l

def berPrependLen (len : Nat) (l : List UInt8) : List UInt8 :=
  if len<0x80 then UInt8.ofNat len::l
  else
    let length := octets w.size len
    UInt8.ofNat (length.length+0x80)::(length++l)

/-- The octets of a tag after the first one. -/
def moreTag : Nat → List UInt8 → Option Nat × List UInt8
  | _,[] => (none,[])
  | t,b::l =>
    let t := t*256+b.toNat
    if b &&& 0x80=0 then (some t,l)
    else if t≤w.max/256 then moreTag t l else (none,l)

/-- The tag in front and what follows it; without a tag, how far the search for it went. -/
def berTagAndRest : List UInt8 → Option Nat × List UInt8
  | [] => (none,[])
  | b::l => if b &&& 0x1f=0x1f then moreTag w b.toNat l else (some b.toNat,l)

/-- The octets of a tag after the first one, with the top bit on all but the last. -/
def continued : List UInt8 → Bool
  | [] => false
  | [b] => decide (b &&& 0x80=0)
  | b::l => decide (b &&& 0x80≠0) && continued l

def validTag (t : Nat) : Bool :=
  decide (t<256^w.size) && match octets w.size t with
    | [] => false
    | b::l => if b &&& 0x1f=0x1f then continued l else l.isEmpty

end Tags

/-- The next element: its tag, the length of its contents and what lies from its contents on. -/
structure Peeked where
  tag : Option Nat
  len : Nat
  data : List UInt8
  deriving DecidableEq, Repr

/-- Lengths are definite, fit a `ber_len_t` and do not exceed what is there. -/
def berPeekElement (w : Word) (l : List UInt8) : Peeked :=
  let enough t len (r : List UInt8) : Peeked := ⟨if r.length<len then none else some t,len,r⟩
  match berTagAndRest w l with
  | (none,r) => ⟨none,0,r⟩
  | (some _,[]) => ⟨none,0,[]⟩
  | (some t,b::r) =>
    if b &&& 0x80=0 then enough t b.toNat r
    else
      let len := (b &&& 0x7f).toNat
      if len=0 ∨ w.size<len ∨ r.length<len then ⟨none,len,r⟩
      else enough t (ofOctets (r.take len)) (r.drop len)

section Lemmas

variable {w : Word}

theorem le_ofOctets {b : UInt8} (hb : b≠0) (l : List UInt8) : 256^l.length≤ofOctets (b::l) := by
  induction l using List.reverseRecOn with
  | nil =>
    have h0 : b.toNat≠0 := fun h => hb (UInt8.toNat_inj.mp h)
    simp [ofOctets]
    omega
  | append_singleton l c ih =>
    rw [← List.cons_append,ofOctets_concat,List.length_append,List.length_singleton,pow_succ]
    omega

theorem continued_cons {b : UInt8} {l : List UInt8} (hl : l≠[]) :
    continued (b::l)=(decide (b &&& 0x80≠0) && continued l) := by
  cases l with
  | nil => exact absurd rfl hl
  | cons c l => rfl

/-- With `p` read so far, the rest of a tag that fits is read to its end. -/
theorem moreTag_continued {p l : List UInt8} (hl : continued l=true)
    (hs : p.length+l.length≤w.size) (r : List UInt8) :
    moreTag w (ofOctets p) (l++r)=(some (ofOctets (p++l)),r) := by
  induction l generalizing p with
  | nil => cases hl
  | cons b l ih =>
    have hp : ofOctets p*256+b.toNat=ofOctets (p++[b]) := (ofOctets_concat p b).symm
    cases l with
    | nil =>
      have hb : b &&& 0x80=0 := by simpa [continued] using hl
      rw [List.cons_append,moreTag]
      simp only [hb,↓reduceIte,hp,List.nil_append]
    | cons c l =>
      rw [continued_cons (by simp),Bool.and_eq_true] at hl
      have hb : ¬(b &&& 0x80=0) := by simpa using hl.1
      have hlt := ofOctets_lt (p++[b])
      have hpow : 256^(p++[b]).length≤256^(w.size-1) := by
        apply Nat.pow_le_pow_right (by decide)
        simp only [List.length_append,List.length_cons,List.length_nil] at hs ⊢
        omega
      have hfit : ofOctets (p++[b])≤w.max/256 := by
        rw [w.max_div]
        omega
      rw [List.cons_append,moreTag]
      simp only [hb,↓reduceIte,hp,if_pos hfit]
      rw [ih hl.2 (by simp at hs ⊢; omega),List.append_assoc]
      rfl

/-- A tag that is read is made of the octets that were passed over. -/
theorem moreTag_some {b : UInt8} (hb : b≠0) {p l r : List UInt8} {t : Nat}
    (hs : p.length+1<w.size) (h : moreTag w (ofOctets (b::p)) l=(some t,r)) :
    ∃m,l=m++r ∧ continued m=true ∧ p.length+1+m.length≤w.size ∧ t=ofOctets (b::p++m) := by
  induction l generalizing p with
  | nil => simp [moreTag] at h
  | cons c l ih =>
    have hp : ofOctets (b::p)*256+c.toNat=ofOctets (b::(p++[c])) := by
      rw [← List.cons_append,ofOctets_concat]
    rw [moreTag] at h
    simp only [hp] at h
    split at h
    · rename_i hc
      obtain ⟨ht,rfl⟩ := Prod.mk.inj h
      refine ⟨[c],rfl,by simpa [continued] using hc,by simp; omega,?_⟩
      rw [← Option.some.inj ht]
      rfl
    · rename_i hc
      split at h
      · rename_i hfit
        have hle := le_ofOctets hb (p++[c])
        have hlen : (p++[c]).length<w.size-1 := by
          by_contra hge
          have hpow : 256^(w.size-1)≤256^(p++[c]).length :=
            Nat.pow_le_pow_right (by decide) (by omega)
          have hpos : 0<256^(w.size-1) := Nat.pow_pos (by decide)
          rw [w.max_div] at hfit
          omega
        rw [List.length_append,List.length_singleton] at hlen
        obtain ⟨m,rfl,hm,hms,rfl⟩ := ih (p := p++[c]) (by simp; omega) h
        have hne : m≠[] := by
          intro h0
          rw [h0] at hm
          cases hm
        refine ⟨c::m,rfl,?_,?_,by simp⟩
        · rw [continued_cons hne,hm,Bool.and_true]
          simpa using hc
        · simp at hms ⊢
          omega
      · simp at h

/-- What is written as a tag is read as that tag, whatever follows. -/
theorem berTagAndRest_append {t : Nat} (ht : validTag w t=true) (r : List UInt8) :
    berTagAndRest w (octets w.size t++r)=(some t,r) := by
  rw [validTag,Bool.and_eq_true,decide_eq_true_eq] at ht
  obtain ⟨hlt,ht⟩ := ht
  have hv := ofOctets_octets hlt
  have hlen := length_octets_le w.size t
  cases ho : octets w.size t with
  | nil =>
    rw [ho] at ht
    cases ht
  | cons b l =>
    rw [ho] at ht hv hlen
    rw [List.cons_append,berTagAndRest]
    by_cases hb : b &&& 0x1f=0x1f
    · simp only [hb,↓reduceIte] at ht ⊢
      have h1 : ofOctets [b]=b.toNat := by simp [ofOctets]
      have hm := moreTag_continued (w := w) (p := [b]) ht (by simp at hlen ⊢; omega) r
      rw [h1] at hm
      rw [hm,List.singleton_append,hv]
    · simp only [hb,↓reduceIte] at ht ⊢
      have hl : l=[] := by simpa using ht
      have hbt : b.toNat=t := by simpa [hl,ofOctets] using hv
      rw [hl,hbt]
      rfl

/-- Whatever is read as a tag is a tag as it would be written. -/
theorem berTagAndRest_some {l r : List UInt8} {t : Nat} (h : berTagAndRest w l=(some t,r)) :
    validTag w t=true ∧ l=octets w.size t++r := by
  have hpow : 256≤256^w.size := by cases w <;> decide
  cases l with
  | nil => simp [berTagAndRest] at h
  | cons b l =>
    rw [berTagAndRest] at h
    by_cases hb : b &&& 0x1f=0x1f
    · have hb0 : b≠0 := by
        intro h0
        rw [h0] at hb
        cases hb
      have h1 : ofOctets [b]=b.toNat := by simp [ofOctets]
      rw [if_pos hb,← h1] at h
      have hw : 1<w.size := by cases w <;> decide
      obtain ⟨m,rfl,hm,hms,rfl⟩ := moreTag_some hb0 (by simpa using hw) h
      have ho := octets_ofOctets (k := w.size) hb0 (l := m) (by simp at hms; omega)
      have hlt : ofOctets (b::m)<256^w.size := by
        refine Nat.lt_of_lt_of_le (ofOctets_lt _) (Nat.pow_le_pow_right (by decide) ?_)
        simp at hms ⊢
        omega
      simp only [List.cons_append,List.nil_append]
      exact ⟨by simp [validTag,hlt,ho,hb,hm],by rw [ho]; rfl⟩
    · rw [if_neg hb] at h
      obtain ⟨ht,rfl⟩ := Prod.mk.inj h
      have hlt := b.toNat_lt
      have ho : octets w.size b.toNat=[b] := by
        obtain ⟨k,hk⟩ := Nat.exists_eq_succ_of_ne_zero (Nat.ne_of_gt w.size_pos)
        rw [hk,octets_succ,if_pos (by omega),ofNat_toNat_octet]
      rw [← Option.some.inj ht]
      have hs : b.toNat<256^w.size := by omega
      exact ⟨by simp [validTag,ho,hb,hs],by rw [ho]; rfl⟩

/-- The octets that a length can have: one below 128, or a count and that many octets. -/
inductive LengthForm (w : Word) (len : Nat) : List UInt8 → Prop
  | short (h : len<128) : LengthForm w len [UInt8.ofNat len]
  | long (l : List UInt8) (hl : l≠[]) (hs : l.length≤w.size) (hv : ofOctets l=len) :
    LengthForm w len (UInt8.ofNat (l.length+0x80)::l)

/-- The octets of an element with a given tag and given contents. -/
inductive Element (w : Word) (t : Nat) (contents : List UInt8) : List UInt8 → Prop
  | mk (length : List UInt8) (ht : validTag w t=true)
    (hl : LengthForm w contents.length length) :
    Element w t contents (octets w.size t++(length++contents))

theorem lengthForm_berPrependLen {len : Nat} (h : len<256^w.size) :
    LengthForm w len (berPrependLen w len []) := by
  rw [berPrependLen]
  split
  · rename_i hs
    exact .short hs
  · simp only [List.append_nil]
    exact .long _ (octets_ne_nil w.size_pos _) (length_octets_le _ _) (ofOctets_octets h)

theorem lengthForm_fixedOctets {len : Nat} (h : len<256^4) :
    LengthForm w len (0x84::fixedOctets 4 len) := by
  have hl : (fixedOctets 4 len).length=4 := length_fixedOctets 4 len
  have hw : 4≤w.size := by cases w <;> decide
  have hf := LengthForm.long (w := w) (fixedOctets 4 len) (by intro h0; simp [h0] at hl)
    (by rw [hl]; exact hw) (ofOctets_fixedOctets h)
  rw [hl] at hf
  exact hf

/-- The octet in front of a length in its long form. -/
theorem longForm_octet {n : Nat} (h1 : 0<n) (h : n≤w.size) :
    ¬(UInt8.ofNat (n+0x80) &&& 0x80=0) ∧ (UInt8.ofNat (n+0x80) &&& 0x7f).toNat=n := by
  have hw : w.size≤8 := by cases w <;> decide
  rw [and_0x80_eq_zero,toNat_and_0x7f,UInt8.toNat_ofNat']
  omega

theorem berPeekElement_element {t len : Nat} {length : List UInt8} (ht : validTag w t=true)
    (hl : LengthForm w len length) {r : List UInt8} (hr : len≤ r.length) :
    berPeekElement w (octets w.size t++(length++r))=⟨some t,len,r⟩ := by
  have hn : ¬r.length<len := by omega
  rw [berPeekElement,berTagAndRest_append ht]
  cases hl with
  | short h =>
    have h80 : UInt8.ofNat len &&& 0x80=0 := by
      rw [and_0x80_eq_zero,UInt8.toNat_ofNat']
      omega
    have hv : (UInt8.ofNat len).toNat=len := by
      rw [UInt8.toNat_ofNat']
      omega
    simp only [List.cons_append,List.nil_append,h80,↓reduceIte,hv,if_neg hn]
  | long l hne hs hv =>
    obtain ⟨h80,h7f⟩ := longForm_octet (List.length_pos_iff.mpr hne) hs
    have hno : ¬(l.length=0 ∨ w.size<l.length ∨ (l++r).length<l.length) := by
      have hpos := List.length_pos_iff.mpr hne
      rw [List.length_append]
      omega
    simp only [List.cons_append,h80,↓reduceIte,h7f,if_neg hno,List.take_left',List.drop_left',
      hv,if_neg hn]

/-- A successful look at the next element has found one. -/
theorem berPeekElement_some {l r : List UInt8} {t len : Nat}
    (h : berPeekElement w l=⟨some t,len,r⟩) :
    validTag w t=true ∧ len≤ r.length ∧
      ∃length,LengthForm w len length ∧ l=octets w.size t++(length++r) := by
  rw [berPeekElement] at h
  split at h
  · simp at h
  · simp at h
  · rename_i t' b r' ht
    obtain ⟨hv,rfl⟩ := berTagAndRest_some ht
    split at h
    · rename_i h80
      rw [and_0x80_eq_zero] at h80
      simp only [Peeked.mk.injEq] at h
      obtain ⟨h1,rfl,rfl⟩ := h
      split at h1
      · cases h1
      · rename_i hn
        cases h1
        refine ⟨hv,by omega,[b],?_,rfl⟩
        have hf := LengthForm.short (w := w) h80
        rwa [ofNat_toNat_octet] at hf
    · rename_i h80
      dsimp only at h
      split at h
      · simp at h
      · rename_i hno
        simp only [Peeked.mk.injEq] at h
        obtain ⟨h1,rfl,rfl⟩ := h
        split at h1
        · cases h1
        · rename_i hn
          cases h1
          have hk : (r'.take (b &&& 0x7f).toNat).length=(b &&& 0x7f).toNat := by
            rw [List.length_take]
            omega
          have hb : UInt8.ofNat ((b &&& 0x7f).toNat+0x80)=b := by
            rw [and_0x80_eq_zero] at h80
            have hlt := b.toNat_lt
            rw [← UInt8.toNat_inj,UInt8.toNat_ofNat',toNat_and_0x7f]
            omega
          refine ⟨hv,by omega,b::r'.take (b &&& 0x7f).toNat,?_,?_⟩
          · have hf := LengthForm.long (w := w) (r'.take (b &&& 0x7f).toNat)
              (by intro h0; rw [h0,List.length_nil] at hk; omega) (by omega) rfl
            rw [hk,hb] at hf
            exact hf
          · rw [List.cons_append,List.take_append_drop]

theorem Element.peek {t : Nat} {c l : List UInt8} (h : Element w t c l) (r : List UInt8) :
    berPeekElement w (l++r)=⟨some t,c.length,c++r⟩ := by
  obtain ⟨length,ht,hl⟩ := h
  rw [List.append_assoc,List.append_assoc]
  exact berPeekElement_element ht hl (by simp)

theorem Element.ne_nil {t : Nat} {c l : List UInt8} (h : Element w t c l) : l≠[] := by
  obtain ⟨length,ht,hl⟩ := h
  have ho := octets_ne_nil w.size_pos t
  intro h0
  exact ho (List.append_eq_nil_iff.mp h0).1

/-- What is left when the contents of an element are passed over is less. -/
theorem Element.length_lt {t : Nat} {c l : List UInt8} (h : Element w t c l) :
    c.length<l.length := by
  obtain ⟨length,ht,hl⟩ := h
  have ho := List.length_pos_iff.mpr (octets_ne_nil w.size_pos t)
  simp
  omega

end Lemmas

end TiLdap.Lber
