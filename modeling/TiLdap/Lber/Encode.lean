import TiLdap.Lber.Elements

namespace TiLdap.Lber

open Framework

/-- The most octets of contents: `INT_MAX` less a tag and a length. -/
def maxintBersize (w : Word) : Nat := 2147483647-(w.size+(1+w.size))

/-- A `BerElement` that is written to: what lies before the write cursor, the offset of the length
octets of the innermost open sequence or set, if any, and the tag set for the next element. -/
structure Writer where
  der : Bool
  buf : List UInt8 := []
  sosInner : Option Nat := none
  tag : Option Nat := none
  deriving DecidableEq, Repr

/-- The conversions of `ber_printf` with their arguments. -/
inductive Put where
  | tag (t : Nat)
  | boolean (b : Bool)
  | int (n : Int32)
  | enum (n : Int32)
  | null
  | debugNull
  | octets (l : List UInt8)
  | vector (ls : List (List UInt8))
  | beginSeq
  | beginSet
  | finish
  deriving DecidableEq, Repr

section Functions

variable (w : Word)

def berWrite (s : Writer) (l : List UInt8) : Writer := { s with buf := s.buf++l }

def berPutIntOrEnum (s : Writer) (num : Int32) (tag : Nat) : Writer :=
  let data := signedOctets 4 num.toInt
  berWrite s (berPrependTag w tag (UInt8.ofNat data.length::data))

def berPutEnum (s : Writer) (num : Int32) (tag : Option Nat) : Writer :=
  berPutIntOrEnum w s num (tag.getD lberEnumerated)

def berPutInt (s : Writer) (num : Int32) (tag : Option Nat) : Writer :=
  berPutIntOrEnum w s num (tag.getD lberInteger)

def berPutOstring (s : Writer) (str : List UInt8) (tag : Option Nat) : Option Writer :=
  if maxintBersize w< str.length then none
  else
    let header := berPrependTag w (tag.getD lberOctetString) (berPrependLen w str.length [])
    some (berWrite (berWrite s header) str)

def berPutNull (s : Writer) (tag : Option Nat) : Writer :=
  berWrite s (berPrependTag w (tag.getD lberNull) [0])

def berPutBoolean (s : Writer) (boolval : Bool) (tag : Option Nat) : Writer :=
  berWrite s (berPrependTag w (tag.getD lberBoolean) [1,if boolval then 0xff else 0])

/-- The offset of the enclosing sequence is stored as it lies in memory, low octets first. -/
def storeOffset (n : Nat) : List UInt8 := (fixedOctets 4 n).reverse

def loadOffset (l : List UInt8) : Nat := ofOctets l.reverse

/-- The tag and five octets reserved for the length. For now these hold the length of the tag and
the offset of the enclosing sequence or set, zero for none. -/
def berStartSeqorset (s : Writer) (tag : Nat) : Option Writer :=
  let offset := s.sosInner.getD 0
  if 256^4-1<w.max ∧ 256^4-1<offset then none
  else
    let tagOctets := berPrependTag w tag []
    some { s with
      buf := s.buf++(tagOctets++(UInt8.ofNat tagOctets.length::storeOffset offset))
      sosInner := some (s.buf.length+tagOctets.length) }

/-- The reserved octets give way to the length: five octets, or under DER as few as it takes. -/
def berPutSeqorset (s : Writer) : Option Writer :=
  match s.sosInner with
  | none => none
  | some inner =>
    let xlen := s.buf.length-inner
    if maxintBersize w+5<xlen then none
    else
      let contents := s.buf.drop (inner+5)
      let offset := loadOffset ((s.buf.drop (inner+1)).take 4)
      let length := if s.der then berPrependLen w (xlen-5) []
        else 0x84::fixedOctets 4 (xlen-5)
      some { s with
        buf := s.buf.take inner++(length++contents)
        sosInner := if offset=0 then none else some offset }

/-- One conversion; every one but that for a tag leaves no tag set. -/
def berPut (s : Writer) : Put → Option Writer
  | .tag t => some { s with tag := some t }
  | .boolean b => some { berPutBoolean w s b s.tag with tag := none }
  | .int n => some { berPutInt w s n s.tag with tag := none }
  | .enum n => some { berPutEnum w s n s.tag with tag := none }
  | .null => some { berPutNull w s s.tag with tag := none }
  | .debugNull => some { s with tag := none }
  | .octets l => (berPutOstring w s l s.tag).map fun s => { s with tag := none }
  | .vector ls => (ls.foldlM (fun s' l => berPutOstring w s' l s.tag) s).map
      fun s => { s with tag := none }
  | .beginSeq => (berStartSeqorset w s (s.tag.getD lberSequence)).map
      fun s => { s with tag := none }
  | .beginSet => (berStartSeqorset w s (s.tag.getD lberSet)).map fun s => { s with tag := none }
  | .finish => (berPutSeqorset w s).map fun s => { s with tag := none }

/-- `ber_printf`, which stops at the first conversion that fails. -/
def berPrintf (s : Writer) (fmt : List Put) : Option Writer := fmt.foldlM (berPut w) s

/-- `ber_flatten2`: an open sequence or set is an error. -/
def berFlatten2 (s : Writer) : Option (List UInt8) :=
  match s.sosInner with
  | none => some s.buf
  | some _ => none

end Functions

section Rules

variable {w : Word}

/-- The offset of the innermost open sequence lies within what is written, and is not zero. -/
def Writer.Sound (s : Writer) : Prop := ∀i,s.sosInner=some i → 0< i ∧ i< s.buf.length

/-- `f` does nothing but add octets, whatever is open, where they fit. `room` is what they take
with all lengths of five octets. -/
structure Appends (w : Word) (f : Writer → Option Writer) (room : Nat)
    (l : Bool → List UInt8) : Prop where
  length_le : room≤ maxintBersize w → ∀d,(l d).length≤ room
  run : ∀s : Writer,s.Sound → s.tag=none → s.buf.length+room≤ maxintBersize w →
    f s=some { s with buf := s.buf++l s.der }

theorem Writer.Sound.append {s : Writer} (h : s.Sound) (l : List UInt8) :
    ({ s with buf := s.buf++l } : Writer).Sound := by
  intro i hi
  obtain ⟨h0,hlt⟩ := h i hi
  refine ⟨h0,?_⟩
  simp
  omega

theorem appends_nil : Appends w (fun s => berPrintf w s []) 0 (fun _ => []) := by
  refine ⟨by simp,?_⟩
  intro s hs ht hr
  simp [berPrintf]

theorem Appends.then {a b : List Put} {n m : Nat} {l k : Bool → List UInt8}
    (ha : Appends w (fun s => berPrintf w s a) n l)
    (hb : Appends w (fun s => berPrintf w s b) m k) :
    Appends w (fun s => berPrintf w s (a++b)) (n+m) (fun d => l d++k d) := by
  constructor
  · intro hr d
    have h1 := ha.length_le (by omega) d
    have h2 := hb.length_le (by omega) d
    simp
    omega
  · intro s hs ht hr
    have hl := ha.length_le (by omega) s.der
    have h1 := ha.run s hs ht (by omega)
    have h2 := hb.run _ (hs.append (l s.der)) ht (by simp; omega)
    simp only [berPrintf,List.foldlM_append] at h1 h2 ⊢
    rw [h1]
    simpa using h2

theorem berPrependTag_eq (t : Nat) (l : List UInt8) :
    berPrependTag w t l=octets w.size t++l := octetsOnto_eq _ _ _

end Rules

end TiLdap.Lber
