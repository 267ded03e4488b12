import TiLdap.Ios.ResultProxies
import TiLdap.OpenLdap.EntryOctets
import Mathlib.Data.List.Find

namespace TiLdap

open Framework Lber OpenLdap

/-- However the server spells an entry whose names are text, and whatever follows it in the message:
the accessors give its name, the types of its attributes in order and no more, and the values under
a name without regard to case, as strings where none has a zero octet before its last one. What the
entry lacks is only found missing where the message ends with it. -/
theorem entry_read_back (w : Word) (e : RawEntry) (m r : List UInt8) (b : Reader)
    (he : EntryIn w e m) (ht : e.Textual) (hv : b.view=m++r) :
    ldapGetDn w b=some e.dn ∧ ldapAttributes w b=e.attributes.map RawAttribute.name ∧
      ∀target,
        (∀a,e.attributes.find? (RawAttribute.named target)=some a →
          ldapGetValuesLen w target b=valuesOut a.values ∧
          ldapGetValues w target b=stringsOut a.values) ∧
        (e.attributes.find? (RawAttribute.named target)=none → r=[] →
          ldapGetValuesLen w target b=none ∧ ldapGetValues w target b=none) := by
  obtain ⟨hdn,hnames⟩ := ht
  refine ⟨ldapGetDn_in he hdn hv,ldapAttributes_in he hnames hv,?_⟩
  intro target
  obtain ⟨hlen,hlen'⟩ := ldapGetValuesAs_in he hnames hv false target
  obtain ⟨hval,hval'⟩ := ldapGetValuesAs_in he hnames hv true target
  refine ⟨?_,?_⟩
  · intro a ha
    exact ⟨hlen a ha,hval a ha⟩
  · intro hnone hr
    exact ⟨hlen' hnone hr,hval' hnone hr⟩

/-- An entry with an attribute of two values, one of which is empty. -/
def sampleEntry : RawEntry where
  dn := [0x64,0x63,0x3d,0x61]
  attributes := [⟨[0x63,0x6e],[[0x78],[]]⟩]

/-- The same with lengths of one and of two octets. -/
def sampleOctets : List UInt8 :=
  [0x64,0x81,23,4,4,0x64,0x63,0x3d,0x61,0x30,15,0x30,0x82,0,11,4,2,0x63,0x6e,0x31,5,4,1,0x78,4,0]

theorem element_of_peek {w : Word} {t : Nat} {c e : List UInt8}
    (h : berPeekElement w e=⟨some t,c.length,c⟩) : Element w t c e := by
  obtain ⟨ht,-,length,hl,rfl⟩ := berPeekElement_some h
  exact .mk length ht hl

theorem entryIn_sampleOctets : EntryIn .long8 sampleEntry sampleOctets := by
  have hx : Element .long8 4 [0x78] [4,1,0x78] := element_of_peek (by rfl)
  have h0 : Element .long8 4 [] [4,0] := element_of_peek (by rfl)
  have hvs : Elements .long8 [[0x78],[]] [4,1,0x78,4,0] := .cons hx (.cons h0 .nil)
  have hs : Element .long8 0x31 [4,1,0x78,4,0] [0x31,5,4,1,0x78,4,0] :=
    element_of_peek (by rfl)
  have hn : Element .long8 4 [0x63,0x6e] [4,2,0x63,0x6e] := element_of_peek (by rfl)
  have ha : Element .long8 0x30 ([4,2,0x63,0x6e]++[0x31,5,4,1,0x78,4,0])
      [0x30,0x82,0,11,4,2,0x63,0x6e,0x31,5,4,1,0x78,4,0] := element_of_peek (by rfl)
  have has : AttributesIn .long8 sampleEntry.attributes
      ([0x30,0x82,0,11,4,2,0x63,0x6e,0x31,5,4,1,0x78,4,0]++[]) :=
    AttributesIn.cons (a := ⟨[0x63,0x6e],[[0x78],[]]⟩) hn hvs hs ha .nil
  have hl : Element .long8 0x30 [0x30,0x82,0,11,4,2,0x63,0x6e,0x31,5,4,1,0x78,4,0]
      [0x30,15,0x30,0x82,0,11,4,2,0x63,0x6e,0x31,5,4,1,0x78,4,0] :=
    element_of_peek (by rfl)
  have hd : Element .long8 4 sampleEntry.dn [4,4,0x64,0x63,0x3d,0x61] :=
    element_of_peek (by rfl)
  have he : Element .long8 0x64 ([4,4,0x64,0x63,0x3d,0x61]++
      [0x30,15,0x30,0x82,0,11,4,2,0x63,0x6e,0x31,5,4,1,0x78,4,0]) sampleOctets :=
    element_of_peek (by rfl)
  exact .mk hd has hl he

theorem entry_read_back_sample :
    let b : Reader := ⟨true,0,sampleOctets++[0xa0,0]⟩
    ldapGetDn .long8 b=some [0x64,0x63,0x3d,0x61] ∧ ldapAttributes .long8 b=[[0x63,0x6e]] ∧
      ldapGetValuesLen .long8 [0x43,0x4e] b=some [[0x78],[]] ∧
      ldapGetValues .long8 [0x43,0x4e] b=some [[0x78],[]] := by
  intro b
  obtain ⟨hdn,hnames,hvalues⟩ := entry_read_back .long8 sampleEntry sampleOctets [0xa0,0] b
    entryIn_sampleOctets (by decide) rfl
  exact ⟨hdn,hnames,(hvalues [0x43,0x4e]).1 ⟨[0x63,0x6e],[[0x78],[]]⟩ (by decide)⟩

/-- The octets of an attribute and of an entry. -/
def Attribute.raw (a : Attribute) : RawAttribute := ⟨utf8 a.name,a.values⟩

def Entry.raw (e : Entry) : RawEntry := ⟨utf8 e.dn,e.attributes.map Attribute.raw⟩

/-- The names of an entry have no null character. -/
def Entry.Named (e : Entry) : Prop :=
  Char.ofNat 0∉e.dn.toList ∧ ∀a∈e.attributes,Char.ofNat 0∉a.name.toList

instance (e : Entry) : Decidable e.Named := inferInstanceAs (Decidable (_ ∧ _))

theorem Entry.Named.textual {e : Entry} (h : e.Named) : e.raw.Textual := by
  obtain ⟨hdn,hnames⟩ := h
  refine ⟨fun h0 => hdn ((zero_mem_utf8 _).mp (List.dropLast_subset _ h0)),?_⟩
  intro x hx h0
  obtain ⟨a,ha,rfl⟩ := List.mem_map.mp hx
  exact hnames a ha ((zero_mem_utf8 _).mp (List.dropLast_subset _ h0))

/-- The attribute that the library finds under a name is the one that the entry has. -/
theorem find_raw {as : List Attribute} (h : ∀a∈as,Char.ofNat 0∉a.name.toList) (name : String) :
    (as.map Attribute.raw).find? (RawAttribute.named (utf8 name))=
      (as.find? fun a => a.name.toLower==name.toLower).map Attribute.raw := by
  rw [List.find?_map]
  refine congrArg (Option.map Attribute.raw) (List.find?_congr ?_)
  intro a ha
  have hc : cOctets (utf8 a.name)=utf8 a.name :=
    (CString.read_eq_iff _).mpr fun h0 => h a ha ((zero_mem_utf8 _).mp h0)
  rw [Function.comp_apply,RawAttribute.named,Attribute.raw,hc,strcaseeq_utf8,Bool.eq_iff_iff,
    beq_iff_eq,beq_iff_eq,eq_comm]

/-- An entry object on iOS is a faithful picture of the octets of its entry, however these are
spelt: what its accessors find is what the library reads from them. -/
theorem entry_proxy_reads (w : Word) (p : Ios.EntryProxy) (m : List UInt8) (b : Reader)
    (h : Handle) (hm : EntryIn w p.entry.raw m) (hn : p.entry.Named) (hv : b.view=m) :
    (∃dn,p.getDn (some h)=.ok dn ∧ ldapGetDn w b=some (utf8 dn)) ∧
    ldapAttributes w b=p.entry.attributes.map (fun a => utf8 a.name) ∧
    ∀name,ldapGetValuesLen w (utf8 name) b=p.values name ∧
      ldapGetValues w (utf8 name) b=p.strings name := by
  obtain ⟨hdn,hnames,hvalues⟩ := entry_read_back w p.entry.raw m [] b hm hn.textual
    (hv.trans (List.append_nil m).symm)
  refine ⟨⟨_,rfl,hdn⟩,?_,?_⟩
  · rw [hnames,Entry.raw,List.map_map]
    rfl
  · intro name
    have hfind := find_raw hn.2 name
    obtain ⟨hsome,hnone⟩ := hvalues (utf8 name)
    rw [Ios.EntryProxy.values,Ios.EntryProxy.strings,Entry.valuesOf,Entry.attribute?]
    cases ha : p.entry.attributes.find? fun a => a.name.toLower==name.toLower with
    | none =>
      rw [ha] at hfind
      exact hnone hfind rfl
    | some a =>
      rw [ha] at hfind
      exact hsome a.raw hfind

theorem entry_proxy_reads_sample :
    let p : Ios.EntryProxy := ⟨⟨"dc=a",[⟨"cn",[[0x78],[]]⟩]⟩,none⟩
    let b : Reader := ⟨true,0,sampleOctets⟩
    ldapAttributes .long8 b=[utf8 "cn"] ∧ ldapGetValues .long8 (utf8 "CN") b=p.strings "CN" := by
  intro p b
  have hraw : p.entry.raw=sampleEntry := by decide
  obtain ⟨-,hnames,hvalues⟩ := entry_proxy_reads .long8 p sampleOctets b 0
    (hraw ▸ entryIn_sampleOctets) (by decide) rfl
  exact ⟨hnames,(hvalues "CN").2⟩

end TiLdap
