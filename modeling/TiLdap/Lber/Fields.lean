import TiLdap.Lber.Encode

namespace TiLdap.Lber

open Framework

/-- The values of elements without elements in them. -/
inductive Prim where
  | boolean (b : Bool)
  | int (n : Int32)
  | enum (n : Int32)
  | null
  | octets (l : List UInt8)
  deriving DecidableEq, Repr

/-- What a message is made of, each part with a tag of its own or with that of its kind. -/
inductive Field where
  | prim (t : Option Nat) (p : Prim)
  | strings (t : Option Nat) (ls : List (List UInt8))
  | group (set : Bool) (t : Option Nat) (fs : List Field)
  deriving Repr

namespace Prim

def tag : Prim → Nat
  | .boolean _ => lberBoolean
  | .int _ => lberInteger
  | .enum _ => lberEnumerated
  | .null => lberNull
  | .octets _ => lberOctetString

def contents : Prim → List UInt8
  | .boolean b => [if b then 0xff else 0]
  | .int n => signedOctets 4 n.toInt
  | .enum n => signedOctets 4 n.toInt
  | .null => []
  | .octets l => l

def put : Prim → Put
  | .boolean b => .boolean b
  | .int n => .int n
  | .enum n => .enum n
  | .null => .null
  | .octets l => .octets l

end Prim

def setTag : Option Nat → List Put
  | none => []
  | some t => [.tag t]

def beginGroup (set : Bool) : Put := if set then .beginSet else .beginSeq

def groupTag (set : Bool) : Nat := if set then lberSet else lberSequence

/-- The length octets of a sequence or set. -/
def groupLength (w : Word) (der : Bool) (n : Nat) : List UInt8 :=
  if der then berPrependLen w n [] else 0x84::fixedOctets 4 n

/-- An element with as few length octets as it takes. -/
def tlv (w : Word) (t : Nat) (c : List UInt8) : List UInt8 :=
  octets w.size t++(berPrependLen w c.length []++c)

/-- A sequence or set. -/
def groupTlv (w : Word) (der : Bool) (t : Nat) (c : List UInt8) : List UInt8 :=
  octets w.size t++(groupLength w der c.length++c)

mutual

def Field.puts : Field → List Put
  | .prim t p => setTag t++[p.put]
  | .strings t ls => setTag t++(.beginSeq::([.vector ls]++[.finish]))
  | .group set t fs => setTag t++(beginGroup set::(Field.putsAll fs++[.finish]))

def Field.putsAll : List Field → List Put
  | [] => []
  | f::fs => f.puts++Field.putsAll fs

end

mutual

def Field.encode (w : Word) (der : Bool) : Field → List UInt8
  | .prim t p => tlv w (t.getD p.tag) p.contents
  | .strings t ls => groupTlv w der (t.getD lberSequence)
      (ls.flatMap (tlv w lberOctetString))
  | .group set t fs => groupTlv w der (t.getD (groupTag set)) (Field.encodeAll w der fs)

def Field.encodeAll (w : Word) (der : Bool) : List Field → List UInt8
  | [] => []
  | f::fs => f.encode w der++Field.encodeAll w der fs

end

mutual

/-- The octets that a field takes while it is written, with five for the length of each group. -/
def Field.room (w : Word) : Field → Nat
  | .prim t p => (tlv w (t.getD p.tag) p.contents).length
  | .strings t ls => (octets w.size (t.getD lberSequence)).length+5+
      (ls.flatMap (tlv w lberOctetString)).length
  | .group set t fs => (octets w.size (t.getD (groupTag set))).length+5+Field.roomAll w fs

def Field.roomAll (w : Word) : List Field → Nat
  | [] => 0
  | f::fs => f.room w+Field.roomAll w fs

end

section Lemmas

variable {w : Word}

theorem berPrintf_setTag (s : Writer) (hs : s.tag=none) (t : Option Nat) (fmt : List Put) :
    berPrintf w s (setTag t++fmt)=berPrintf w { s with tag := t } fmt := by
  cases t with
  | none =>
    have he : ({ s with tag := none } : Writer)=s := by rw [← hs]
    rw [he]
    rfl
  | some t => rfl

theorem length_berPrependLen_le {n : Nat} (h : n<256^4) : (berPrependLen w n []).length≤5 := by
  rw [berPrependLen]
  split
  · simp
  · have hl := length_octets_le_of_lt (k := w.size) (by decide) h
    simp
    omega

theorem length_groupLength_le {n : Nat} (h : n<256^4) (d : Bool) :
    (groupLength w d n).length≤5 := by
  rw [groupLength]
  split
  · exact length_berPrependLen_le h
  · simp

theorem maxintBersize_lt (w : Word) : maxintBersize w<256^4-1 := by cases w <;> decide

/-- A length that fits one octet is that octet. -/
theorem berPrependLen_short {n : Nat} (h : n<128) : berPrependLen w n []=[UInt8.ofNat n] := by
  rw [berPrependLen,if_pos h]

theorem appends_prim (t : Option Nat) (p : Prim) :
    Appends w (fun s => berPrintf w s (setTag t++[p.put]))
      (tlv w (t.getD p.tag) p.contents).length (fun _ => tlv w (t.getD p.tag) p.contents) := by
  refine ⟨fun _ _ => Nat.le_refl _,?_⟩
  intro s hs ht hr
  rw [berPrintf_setTag s ht]
  have hint : ∀n : Int32,(signedOctets 4 n.toInt).length<128 := by
    intro n
    have h := length_signedOctets_le 4 n.toInt
    omega
  cases p with
  | boolean b =>
    simp [berPrintf,berPut,Prim.put,berPutBoolean,berWrite,tlv,Prim.tag,Prim.contents,
      berPrependTag_eq,berPrependLen_short,ht]
  | int n =>
    simp [berPrintf,berPut,Prim.put,berPutInt,berPutIntOrEnum,berWrite,tlv,Prim.tag,
      Prim.contents,berPrependTag_eq,berPrependLen_short (hint n),ht]
  | enum n =>
    simp [berPrintf,berPut,Prim.put,berPutEnum,berPutIntOrEnum,berWrite,tlv,Prim.tag,
      Prim.contents,berPrependTag_eq,berPrependLen_short (hint n),ht]
  | null =>
    simp [berPrintf,berPut,Prim.put,berPutNull,berWrite,tlv,Prim.tag,Prim.contents,
      berPrependTag_eq,berPrependLen_short,ht]
  | octets l =>
    have hl : ¬maxintBersize w<l.length := by
      simp only [tlv,Prim.contents,List.length_append] at hr
      omega
    simp [berPrintf,berPut,Prim.put,berPutOstring,berWrite,tlv,Prim.tag,Prim.contents,
      berPrependTag_eq,if_neg hl,ht]

theorem appends_vector (ls : List (List UInt8)) :
    Appends w (fun s => berPrintf w s [.vector ls])
      (ls.flatMap (tlv w lberOctetString)).length
      (fun _ => ls.flatMap (tlv w lberOctetString)) := by
  refine ⟨fun _ _ => Nat.le_refl _,?_⟩
  intro s hs ht hr
  have hfold : ∀s : Writer,s.buf.length+(ls.flatMap (tlv w lberOctetString)).length≤
      maxintBersize w → ls.foldlM (fun s' l => berPutOstring w s' l none) s=
        some { s with buf := s.buf++ls.flatMap (tlv w lberOctetString) } := by
    clear hr ht hs s
    induction ls with
    | nil =>
      intro s hr
      simp
    | cons l ls ih =>
      intro s hr
      have hl : ¬maxintBersize w<l.length := by
        simp only [tlv,List.flatMap_cons,List.length_append] at hr
        omega
      have hp : berPutOstring w s l none=
          some { s with buf := s.buf++tlv w lberOctetString l } := by
        simp [berPutOstring,if_neg hl,berWrite,tlv,berPrependTag_eq]
      rw [List.foldlM_cons,hp]
      simp only [Option.bind_eq_bind,Option.bind_some]
      rw [ih]
      · simp
      · simp only [List.flatMap_cons,List.length_append] at hr ⊢
        omega
  simp only [berPrintf,List.foldlM_cons,List.foldlM_nil,berPut,ht,hfold s hr]
  simp

theorem loadOffset_storeOffset {n : Nat} (h : n<256^4) : loadOffset (storeOffset n)=n := by
  rw [loadOffset,storeOffset,List.reverse_reverse,ofOctets_fixedOctets h]

@[simp] theorem length_storeOffset (n : Nat) : (storeOffset n).length=4 := by simp [storeOffset]

theorem berPrintf_beginGroup {s : Writer} {t : Option Nat} (set : Bool) (hs : s.Sound)
    (hr : s.buf.length≤ maxintBersize w) :
    berPrintf w { s with tag := t } [beginGroup set]=
      some { s with
        buf := s.buf++(octets w.size (t.getD (groupTag set))++
          (UInt8.ofNat (octets w.size (t.getD (groupTag set))).length::
            storeOffset (s.sosInner.getD 0)))
        sosInner := some (s.buf.length+(octets w.size (t.getD (groupTag set))).length)
        tag := none } := by
  have hmax := maxintBersize_lt w
  have hoff : s.sosInner.getD 0≤ s.buf.length := by
    cases hi : s.sosInner with
    | none => simp
    | some i =>
      have h := (hs i hi).2
      simp only [Option.getD_some]
      omega
  have hg : 4294967295<w.max → s.sosInner.getD 0≤4294967295 := by omega
  cases set <;>
    simpa [berPrintf,berPut,beginGroup,groupTag,berStartSeqorset,berPrependTag_eq] using hg

/-- The end of a group whose reserved octets hold `o` and whose contents are `c`. -/
theorem berPutSeqorset_eq {s : Writer} {p c : List UInt8} {b : UInt8} {o : Nat}
    (hbuf : s.buf=p++(b::(storeOffset o++c))) (hi : s.sosInner=some p.length)
    (hoff : o<256^4) (hc : c.length≤ maxintBersize w) :
    berPutSeqorset w s=some { s with
      buf := p++(groupLength w s.der c.length++c)
      sosInner := if o=0 then none else some o } := by
  have hx : s.buf.length-p.length=c.length+5 := by
    rw [hbuf]
    simp
    omega
  have hdrop : s.buf.drop (p.length+1)=storeOffset o++c := by
    rw [hbuf,← List.drop_drop,List.drop_left']
    · rfl
    · rfl
  have hc5 : s.buf.drop (p.length+5)=c := by
    rw [show p.length+5=(p.length+1)+4 from rfl,← List.drop_drop,hdrop]
    exact List.drop_left' (length_storeOffset o)
  have htake : s.buf.take p.length=p := by
    rw [hbuf]
    exact List.take_left' rfl
  have hload : loadOffset ((s.buf.drop (p.length+1)).take 4)=o := by
    rw [hdrop,List.take_left' (length_storeOffset o),loadOffset_storeOffset hoff]
  rw [berPutSeqorset,hi]
  simp only [hx,hc5,htake,hload,Nat.add_sub_cancel]
  rw [if_neg (by omega)]
  rfl

/-- While a group is open, its reserved octets tell what encloses it. -/
theorem Appends.group {body : List Put} {n : Nat} {l : Bool → List UInt8}
    (hb : Appends w (fun s => berPrintf w s body) n l) (set : Bool) (t : Option Nat) :
    Appends w (fun s => berPrintf w s (setTag t++(beginGroup set::(body++[.finish]))))
      ((octets w.size (t.getD (groupTag set))).length+5+n)
      (fun d => groupTlv w d (t.getD (groupTag set)) (l d)) := by
  have hmax := maxintBersize_lt w
  have hne := List.length_pos_iff.mpr (octets_ne_nil w.size_pos (t.getD (groupTag set)))
  constructor
  · intro hr d
    have hl := hb.length_le (by omega) d
    have hg := length_groupLength_le (w := w) (n := (l d).length) (by omega) d
    simp only [groupTlv,List.length_append]
    omega
  · intro s hs ht hr
    have hl := hb.length_le (by omega) s.der
    have hoff : s.sosInner.getD 0<256^4 ∧
        (if s.sosInner.getD 0=0 then none else some (s.sosInner.getD 0))=s.sosInner := by
      cases hi : s.sosInner with
      | none => simp
      | some i =>
        obtain ⟨h0,hlt⟩ := hs i hi
        simp only [Option.getD_some]
        exact ⟨by omega,if_neg (by omega)⟩
    have h1 := berPrintf_beginGroup (w := w) (t := t) set hs (by omega)
    have h2 := hb.run { s with
        buf := s.buf++(octets w.size (t.getD (groupTag set))++
          (UInt8.ofNat (octets w.size (t.getD (groupTag set))).length::
            storeOffset (s.sosInner.getD 0)))
        sosInner := some (s.buf.length+(octets w.size (t.getD (groupTag set))).length)
        tag := none } (by
      intro i hi
      cases hi
      simp
      omega) rfl (by simp; omega)
    rw [berPrintf_setTag s ht]
    rw [show beginGroup set::(body++[Put.finish])=[beginGroup set]++(body++[.finish]) from rfl]
    simp only [berPrintf,List.foldlM_append] at h1 h2 ⊢
    rw [h1]
    simp only [Option.bind_eq_bind,Option.bind_some]
    rw [h2]
    simp only [Option.bind_some,List.foldlM_cons,List.foldlM_nil,berPut]
    rw [berPutSeqorset_eq (p := s.buf++octets w.size (t.getD (groupTag set)))
      (b := UInt8.ofNat (octets w.size (t.getD (groupTag set))).length)
      (o := s.sosInner.getD 0) (c := l s.der) (by simp) (by simp) hoff.1 (by omega),hoff.2]
    simp [groupTlv,ht]

mutual

theorem Field.appends : ∀f : Field,
    Appends w (fun s => berPrintf w s f.puts) (f.room w) (fun d => f.encode w d)
  | .prim t p => by
    simpa only [Field.puts,Field.room,Field.encode] using appends_prim t p
  | .strings t ls => by
    simp only [Field.puts,Field.room,Field.encode]
    exact (appends_vector ls).group false t
  | .group set t fs => by
    simpa only [Field.puts,Field.room,Field.encode] using (Field.appendsAll fs).group set t

theorem Field.appendsAll : ∀fs : List Field,
    Appends w (fun s => berPrintf w s (Field.putsAll fs)) (Field.roomAll w fs)
      (fun d => Field.encodeAll w d fs)
  | [] => by
    simpa only [Field.putsAll,Field.roomAll,Field.encodeAll] using appends_nil
  | f::fs => by
    simpa only [Field.putsAll,Field.roomAll,Field.encodeAll] using
      (Field.appends f).then (Field.appendsAll fs)

end

end Lemmas

end TiLdap.Lber
