import TiLdap.Lber.RoundTrip

namespace TiLdap.Lber

open Framework

namespace Field

def tag : Field → Nat
  | .prim t p => t.getD p.tag
  | .strings t _ => t.getD lberSequence
  | .group set t _ => t.getD (groupTag set)

/-- What stands after the length of a field. -/
def contents (w : Word) : Field → List UInt8
  | .prim _ p => p.contents
  | .strings _ ls => ls.flatMap (tlv w lberOctetString)
  | .group _ _ fs => encodeAll w true fs

/-- What the octets of a field show without its contents being looked into. -/
def part (w : Word) (f : Field) : Nat × List UInt8 := (f.tag,f.contents w)

end Field

section Lemmas

variable {w : Word}

/-- An element is told from what follows it. -/
theorem Element.append_inj {t t' : Nat} {c c' e e' r r' : List UInt8} (h : Element w t c e)
    (h' : Element w t' c' e') (he : e++r=e'++r') : t=t' ∧ c=c' ∧ r=r' := by
  have hp : berPeekElement w (e++r)=berPeekElement w (e'++r') := by rw [he]
  rw [h.peek,h'.peek] at hp
  injection hp with ht hl hd
  obtain ⟨hc,hr⟩ := List.append_inj hd hl
  exact ⟨Option.some.inj ht,hc,hr⟩

/-- A tag that can be read and contents whose length can be. -/
def Readable (w : Word) (x : Nat × List UInt8) : Prop :=
  validTag w x.1=true ∧ x.2.length<256^w.size

theorem flatMap_tlv_inj : ∀{xs ys : List (Nat × List UInt8)},(∀x∈xs,Readable w x) →
    (∀y∈ys,Readable w y) → xs.flatMap (fun x => tlv w x.1 x.2)=ys.flatMap (fun y => tlv w y.1 y.2) →
      xs=ys
  | [],[],_,_,_ => rfl
  | [],y::ys,_,hy,h => by
    obtain ⟨ht,hc⟩ := hy y List.mem_cons_self
    rw [List.flatMap_nil,List.flatMap_cons] at h
    exact absurd (List.append_eq_nil_iff.mp h.symm).1 (element_tlv ht hc).ne_nil
  | x::xs,[],hx,_,h => by
    obtain ⟨ht,hc⟩ := hx x List.mem_cons_self
    rw [List.flatMap_nil,List.flatMap_cons] at h
    exact absurd (List.append_eq_nil_iff.mp h).1 (element_tlv ht hc).ne_nil
  | x::xs,y::ys,hx,hy,h => by
    obtain ⟨ht,hc⟩ := hx x List.mem_cons_self
    obtain ⟨ht',hc'⟩ := hy y List.mem_cons_self
    rw [List.flatMap_cons,List.flatMap_cons] at h
    obtain ⟨h1,h2,hr⟩ := (element_tlv ht hc).append_inj (element_tlv ht' hc') h
    have ih := flatMap_tlv_inj (fun a ha => hx a (List.mem_cons_of_mem x ha))
      (fun a ha => hy a (List.mem_cons_of_mem y ha)) hr
    rw [ih,Prod.ext h1 h2]

theorem Field.encode_der (f : Field) : f.encode w true=tlv w f.tag (f.contents w) := by
  cases f <;> rfl

theorem Field.encodeAll_der (fs : List Field) :
    Field.encodeAll w true fs=(fs.map (Field.part w)).flatMap (fun x => tlv w x.1 x.2) := by
  induction fs with
  | nil => rfl
  | cons f fs ih =>
    rw [Field.encodeAll,List.map_cons,List.flatMap_cons,ih,Field.encode_der]
    rfl

theorem Field.roomAll_append (fs gs : List Field) :
    Field.roomAll w (fs++gs)=Field.roomAll w fs+Field.roomAll w gs := by
  induction fs with
  | nil => simp [Field.roomAll]
  | cons f fs ih => simp [Field.roomAll,ih,Nat.add_assoc]

theorem Field.readable_part {f : Field} (hv : f.valid w=true) (hr : f.room w≤ maxintBersize w) :
    Readable w (f.part w) := by
  have hmax : maxintBersize w<256^w.size := by cases w <;> decide
  cases f with
  | prim t p =>
    have hl := tlv_length_lt hr
    exact ⟨validTag_getD hv (validTag_prim p),by simp only [part,contents]; omega⟩
  | strings t ls =>
    rw [Field.room] at hr
    exact ⟨validTag_getD hv (by cases w <;> decide),by simp only [part,contents]; omega⟩
  | group set t fs =>
    rw [Field.valid,Bool.and_eq_true] at hv
    rw [Field.room] at hr
    have hl := (Field.appendsAll (w := w) fs).length_le (by omega) true
    exact ⟨validTag_getD hv.1 (by cases set <;> cases w <;> decide),
      by simp only [part,contents]; omega⟩

/-- The octets of a field in DER tell its tag and its contents. -/
theorem Field.part_of_encode {f g : Field} (hf : f.valid w=true) (hg : g.valid w=true)
    (hr : f.room w≤ maxintBersize w) (hr' : g.room w≤ maxintBersize w)
    (h : f.encode w true=g.encode w true) : f.part w=g.part w := by
  obtain ⟨ht,hc⟩ := Field.readable_part hf hr
  obtain ⟨ht',hc'⟩ := Field.readable_part hg hr'
  rw [Field.encode_der,Field.encode_der] at h
  have he : tlv w f.tag (f.contents w)++[]=tlv w g.tag (g.contents w)++[] := by rw [h]
  obtain ⟨h1,h2,-⟩ := (element_tlv ht hc).append_inj (element_tlv ht' hc') he
  exact Prod.ext h1 h2

theorem Field.readable_parts : ∀{fs : List Field},Field.validAll w fs=true →
    Field.roomAll w fs≤ maxintBersize w → ∀x∈fs.map (Field.part w),Readable w x
  | [],_,_,_,hx => by cases hx
  | f::fs,hv,hr,x,hx => by
    rw [Field.validAll,Bool.and_eq_true] at hv
    rw [Field.roomAll] at hr
    rw [List.map_cons] at hx
    rcases List.mem_cons.mp hx with rfl|hx
    · exact Field.readable_part hv.1 (by omega)
    · exact Field.readable_parts hv.2 (by omega) x hx

/-- So do the octets of fields that follow each other. -/
theorem Field.parts_of_encodeAll {fs gs : List Field} (hf : Field.validAll w fs=true)
    (hg : Field.validAll w gs=true) (hr : Field.roomAll w fs≤ maxintBersize w)
    (hr' : Field.roomAll w gs≤ maxintBersize w)
    (h : Field.encodeAll w true fs=Field.encodeAll w true gs) :
    fs.map (Field.part w)=gs.map (Field.part w) := by
  rw [Field.encodeAll_der,Field.encodeAll_der] at h
  exact flatMap_tlv_inj (Field.readable_parts hf hr) (Field.readable_parts hg hr') h

end Lemmas

end TiLdap.Lber
