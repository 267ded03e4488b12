import TiLdap.Lber.Parts
import TiLdap.OpenLdap.SearchRequests

namespace TiLdap.OpenLdap

open Framework Lber

/-- The tag under which a filter is written. -/
def Filter.tag : Filter → Nat
  | .and _ => ldapFilterAnd
  | .or _ => ldapFilterOr
  | .not _ => ldapFilterNot
  | .compare k _ _ => k.tag
  | .present _ => ldapFilterPresent
  | .substrings _ _ _ _ => ldapFilterSubstrings
  | .extensible _ _ => ldapFilterExt

/-- What a string spells: a filter, or none if it is empty or a space. -/
def Spells (s : List UInt8) : Option Filter → Prop
  | none => s=[] ∨ s=[0x20]
  | some f => FilterSpelled f s

section Lemmas

variable {w : Word}

theorem Spells.put {s : List UInt8} {o : Option Filter} (h : Spells s o)
    (below : List UInt8 → UInt8) (b : Writer) :
    ldapPvtPutFilter w below s b=berPrintf w b (Field.putsAll (o.toList.map Filter.field)) := by
  cases o with
  | none =>
    rcases h with rfl|rfl
    · rfl
    · rw [ldapPvtPutFilter,putFilterWithin_space]
      rfl
  | some f =>
    have hf : FilterSpelled f s := h
    rw [hf.put]
    simp [Field.putsAll]

@[simp] theorem Filter.tag_field (f : Filter) : f.field.tag=f.tag := by cases f <;> rfl

theorem Compare.tag_inj {k k' : Compare} (h : k.tag=k'.tag) : k=k' := by
  cases k <;> cases k' <;> first | rfl | cases h

/-- Two strings that follow each other. -/
theorem strings_inj {a b a' b' : List UInt8}
    (h : [Field.prim none (.octets a),.prim none (.octets b)].map (Field.part w)=
      [Field.prim none (.octets a'),.prim none (.octets b')].map (Field.part w)) :
    a=a' ∧ b=b' := by
  simp only [List.map_cons,List.map_nil,Field.part,Field.contents,Prim.contents,List.cons.injEq,
    Prod.mk.injEq,and_true] at h
  exact ⟨h.1.2,h.2.2⟩

/-- The contents under a tag. -/
def under (t : Nat) (xs : List (Nat × List UInt8)) : List (List UInt8) :=
  (xs.filter (·.1=t)).map Prod.snd

@[simp] theorem under_nil (t : Nat) : under t []=[] := rfl

@[simp] theorem under_cons (t : Nat) (x : Nat × List UInt8) (xs : List (Nat × List UInt8)) :
    under t (x::xs)=if x.1=t then x.2::under t xs else under t xs := by
  by_cases h : x.1=t <;> simp [under,h]

@[simp] theorem under_append (t : Nat) (xs ys : List (Nat × List UInt8)) :
    under t (xs++ys)=under t xs++under t ys := by simp [under]

@[simp] theorem under_optionalField (t : Nat) (l : List UInt8) :
    (under t ((optionalField t l).map (Field.part w))).flatten=l := by
  by_cases hl : l=[] <;>
    simp [optionalField,hl,Field.part,Field.tag,Field.contents,Prim.contents]

theorem under_optionalField_of_ne {t u : Nat} (h : u≠t) (l : List UInt8) :
    under t ((optionalField u l).map (Field.part w))=[] := by
  by_cases hl : l=[] <;> simp [optionalField,hl,Field.part,Field.tag,h]

@[simp] theorem under_octets (t : Nat) (ls : List (List UInt8)) :
    under t ((ls.map fun l => Field.prim (some t) (.octets l)).map (Field.part w))=ls := by
  induction ls with
  | nil => rfl
  | cons l ls ih => simpa [Field.part,Field.tag,Field.contents,Prim.contents] using ih

theorem under_octets_of_ne {t u : Nat} (h : u≠t) (ls : List (List UInt8)) :
    under t ((ls.map fun l => Field.prim (some u) (.octets l)).map (Field.part w))=[] := by
  induction ls with
  | nil => rfl
  | cons l ls ih => simpa [Field.part,Field.tag,h] using ih

/-- The pieces of a substring filter are told apart by their tags. -/
theorem pieceFields_inj {i i' f f' : List UInt8} {any any' : List (List UInt8)}
    (h : (pieceFields i any f).map (Field.part w)=(pieceFields i' any' f').map (Field.part w)) :
    i=i' ∧ any=any' ∧ f=f' := by
  have hia : ldapSubstringInitial≠ldapSubstringAny := by decide
  have hif : ldapSubstringInitial≠ldapSubstringFinal := by decide
  have haf : ldapSubstringAny≠ldapSubstringFinal := by decide
  simp only [pieceFields,List.map_append] at h
  have h1 := congrArg (fun xs => (under ldapSubstringInitial xs).flatten) h
  have h2 := congrArg (under ldapSubstringAny) h
  have h3 := congrArg (fun xs => (under ldapSubstringFinal xs).flatten) h
  simp only [under_append,under_octets,under_octets_of_ne hia.symm,under_octets_of_ne haf,
    under_optionalField_of_ne hia,under_optionalField_of_ne hif,under_optionalField_of_ne hif.symm,
    under_optionalField_of_ne haf.symm,under_optionalField,List.append_nil,List.nil_append]
    at h1 h2 h3
  exact ⟨h1,h2,h3⟩

/-- So are the parts of an extensible filter. -/
theorem under_extFields (x : ExtName) (v : List UInt8) :
    let xs := (extFields x v).map (Field.part w)
    (under ldapFilterExtOid xs).flatten=x.rule ∧ (under ldapFilterExtType xs).flatten=x.type ∧
      under ldapFilterExtValue xs=[v] ∧ (under ldapFilterExtDnattrs xs=[] ↔ x.dn=false) := by
  intro xs
  have hrt : ldapFilterExtOid≠ldapFilterExtType := by decide
  have hrv : ldapFilterExtOid≠ldapFilterExtValue := by decide
  have hrd : ldapFilterExtOid≠ldapFilterExtDnattrs := by decide
  have htv : ldapFilterExtType≠ldapFilterExtValue := by decide
  have htd : ldapFilterExtType≠ldapFilterExtDnattrs := by decide
  have hvd : ldapFilterExtValue≠ldapFilterExtDnattrs := by decide
  have hxs : ∀t,under t xs=under t ((optionalField ldapFilterExtOid x.rule).map (Field.part w))++
      (under t ((optionalField ldapFilterExtType x.type).map (Field.part w))++
        under t ((ldapFilterExtValue,v)::
          if x.dn then [(ldapFilterExtDnattrs,[0xff])] else [])) := by
    intro t
    simp only [xs,extFields,List.map_append,under_append,List.map_cons]
    cases x.dn <;> rfl
  refine ⟨?_,?_,?_,?_⟩
  · rw [hxs,under_optionalField_of_ne hrt.symm]
    cases x.dn <;> simp [hrv.symm,hrd.symm]
  · rw [hxs,under_optionalField_of_ne hrt]
    cases x.dn <;> simp [htv.symm,htd.symm]
  · rw [hxs,under_optionalField_of_ne hrv,under_optionalField_of_ne htv]
    cases x.dn <;> simp [hvd.symm]
  · rw [hxs,under_optionalField_of_ne hrd,under_optionalField_of_ne htd]
    cases x.dn <;> simp [hvd]

theorem extFields_inj {x x' : ExtName} {v v' : List UInt8}
    (h : (extFields x v).map (Field.part w)=(extFields x' v').map (Field.part w)) :
    x=x' ∧ v=v' := by
  obtain ⟨hr,ht,hv,hd⟩ := under_extFields (w := w) x v
  obtain ⟨hr',ht',hv',hd'⟩ := under_extFields (w := w) x' v'
  rw [h] at hr ht hv hd
  obtain ⟨t,r,dn⟩ := x
  obtain ⟨t',r',dn'⟩ := x'
  have hdn : dn=dn' := Bool.eq_iff_iff.mpr (by simpa using not_congr (hd.symm.trans hd'))
  rw [hdn,show t=t' from ht.symm.trans ht',show r=r' from hr.symm.trans hr']
  exact ⟨rfl,List.singleton_inj.mp (hv.symm.trans hv')⟩

theorem roomAll_le {set : Bool} {t : Option Nat} {fs : List Field} {n : Nat}
    (h : (Field.group set t fs).room w≤n) : Field.roomAll w fs≤n := by
  rw [Field.room] at h
  omega

/-- Groups with the same contents have parts with the same tags and contents. -/
theorem group_inj {set set' : Bool} {t t' : Option Nat} {fs gs : List Field}
    (hf : (Field.group set t fs).valid w=true) (hg : (Field.group set' t' gs).valid w=true)
    (hr : (Field.group set t fs).room w≤ maxintBersize w)
    (hr' : (Field.group set' t' gs).room w≤ maxintBersize w)
    (h : (Field.group set t fs).contents w=(Field.group set' t' gs).contents w) :
    fs.map (Field.part w)=gs.map (Field.part w) := by
  rw [Field.valid,Bool.and_eq_true] at hf hg
  exact Field.parts_of_encodeAll hf.2 hg.2 (roomAll_le hr) (roomAll_le hr') h

theorem valid_pieces (initial : List UInt8) (any : List (List UInt8)) (final : List UInt8) :
    (Field.group false none (pieceFields initial any final)).valid w=true := by
  simp [Field.valid,valid_pieceFields]

mutual

/-- Filters are told apart by the tags and contents that they are written with. -/
theorem Filter.part_inj : ∀(f f' : Filter),f.field.room w≤ maxintBersize w →
    f'.field.room w≤ maxintBersize w → f.field.part w=f'.field.part w → f=f'
  | .and fs,f',hr,hr',h => by
    obtain ⟨ht,hc⟩ := Prod.ext_iff.mp h
    cases f' with
    | and fs' =>
      have hp := group_inj (Filter.valid_field (.and fs)) (Filter.valid_field (.and fs')) hr hr' hc
      rw [Filter.parts_inj fs fs' (roomAll_le hr) (roomAll_le hr') hp]
    | compare k => cases k <;> cases ht
    | _ => cases ht
  | .or fs,f',hr,hr',h => by
    obtain ⟨ht,hc⟩ := Prod.ext_iff.mp h
    cases f' with
    | or fs' =>
      have hp := group_inj (Filter.valid_field (.or fs)) (Filter.valid_field (.or fs')) hr hr' hc
      rw [Filter.parts_inj fs fs' (roomAll_le hr) (roomAll_le hr') hp]
    | compare k => cases k <;> cases ht
    | _ => cases ht
  | .not f,f',hr,hr',h => by
    obtain ⟨ht,hc⟩ := Prod.ext_iff.mp h
    cases f' with
    | not f' =>
      have hp := group_inj (Filter.valid_field (.not f)) (Filter.valid_field (.not f')) hr hr' hc
      have hl : Field.roomAll w [f.field]≤ maxintBersize w := roomAll_le hr
      have hl' : Field.roomAll w [f'.field]≤ maxintBersize w := roomAll_le hr'
      rw [Filter.part_inj f f' hl hl' (List.singleton_inj.mp hp)]
    | compare k => cases k <;> cases ht
    | _ => cases ht
  | .compare k type value,f',hr,hr',h => by
    obtain ⟨ht,hc⟩ := Prod.ext_iff.mp h
    cases f' with
    | compare k' type' value' =>
      have hp := group_inj (Filter.valid_field (.compare k type value))
        (Filter.valid_field (.compare k' type' value')) hr hr' hc
      obtain ⟨h1,h2⟩ := strings_inj hp
      rw [Compare.tag_inj ht,h1,h2]
    | _ => cases k <;> cases ht
  | .present type,f',hr,hr',h => by
    obtain ⟨ht,hc⟩ := Prod.ext_iff.mp h
    cases f' with
    | present type' => exact congrArg Filter.present hc
    | compare k => cases k <;> cases ht
    | _ => cases ht
  | .substrings type initial any final,f',hr,hr',h => by
    obtain ⟨ht,hc⟩ := Prod.ext_iff.mp h
    cases f' with
    | substrings type' initial' any' final' =>
      have hp := group_inj (Filter.valid_field (.substrings type initial any final))
        (Filter.valid_field (.substrings type' initial' any' final')) hr hr' hc
      obtain ⟨h1,h2⟩ := List.cons_eq_cons.mp hp
      have hl := roomAll_le hr
      have hl' := roomAll_le hr'
      simp only [Field.roomAll] at hl hl'
      have hpieces := group_inj (valid_pieces initial any final)
        (valid_pieces initial' any' final') (by omega) (by omega)
        (Prod.ext_iff.mp (List.singleton_inj.mp h2)).2
      obtain ⟨h3,h4,h5⟩ := pieceFields_inj hpieces
      rw [show type=type' from (Prod.ext_iff.mp h1).2,h3,h4,h5]
    | compare k => cases k <;> cases ht
    | _ => cases ht
  | .extensible x value,f',hr,hr',h => by
    obtain ⟨ht,hc⟩ := Prod.ext_iff.mp h
    cases f' with
    | extensible x' value' =>
      have hp := group_inj (Filter.valid_field (.extensible x value))
        (Filter.valid_field (.extensible x' value')) hr hr' hc
      obtain ⟨h1,h2⟩ := extFields_inj hp
      rw [h1,h2]
    | compare k => cases k <;> cases ht
    | _ => cases ht

theorem Filter.parts_inj : ∀(fs gs : List Filter),
    Field.roomAll w (Filter.fields fs)≤ maxintBersize w →
      Field.roomAll w (Filter.fields gs)≤ maxintBersize w →
        (Filter.fields fs).map (Field.part w)=(Filter.fields gs).map (Field.part w) → fs=gs
  | [],[],_,_,_ => rfl
  | [],_::_,_,_,h => by cases h
  | _::_,[],_,_,h => by cases h
  | f::fs,g::gs,hr,hr',h => by
    simp only [Filter.fields,Field.roomAll] at hr hr'
    obtain ⟨h1,h2⟩ := List.cons_eq_cons.mp h
    rw [Filter.part_inj f g (by omega) (by omega) h1,
      Filter.parts_inj fs gs (by omega) (by omega) h2]

end

theorem Filter.validAll_option (o : Option Filter) :
    Field.validAll w (o.toList.map Filter.field)=true := by
  cases o with
  | none => rfl
  | some f => simp [Field.validAll,f.valid_field]

theorem Filter.option_inj {o o' : Option Filter}
    (hr : Field.roomAll w (o.toList.map Filter.field)≤ maxintBersize w)
    (hr' : Field.roomAll w (o'.toList.map Filter.field)≤ maxintBersize w)
    (h : (o.toList.map Filter.field).map (Field.part w)=
      (o'.toList.map Filter.field).map (Field.part w)) : o=o' := by
  cases o with
  | none =>
    cases o' with
    | none => rfl
    | some f' => cases h
  | some f =>
    cases o' with
    | none => cases h
    | some f' => rw [Filter.part_inj f f' hr hr' (List.singleton_inj.mp h)]

theorem valid_request (ld : SearchDefaults) (a : SearchArgs) {fs : List Field}
    (h : Field.validAll w fs=true) : (Field.group false (some ldapReqSearch)
      (a.header ld++(fs++[.strings none a.attrs]))).valid w=true := by
  have hv := valid_searchField ld 0 a h
  rw [SearchArgs.field,Field.valid,Field.validAll,Field.validAll] at hv
  simp only [Bool.and_eq_true] at hv
  exact hv.2.2.1

/-- What a search request takes, and its filter. -/
theorem room_searchField {ld : SearchDefaults} {id : Int32} {a : SearchArgs} {fs : List Field}
    {n : Nat} (h : (a.field ld id fs).room w≤n) :
    (Field.group false (some ldapReqSearch)
        (a.header ld++(fs++[.strings none a.attrs]))).room w≤n ∧ Field.roomAll w fs≤n := by
  have hl := roomAll_le h
  simp only [Field.roomAll] at hl
  have hq : (Field.group false (some ldapReqSearch)
      (a.header ld++(fs++[.strings none a.attrs]))).room w≤n := by omega
  have hin := roomAll_le hq
  rw [Field.roomAll_append,Field.roomAll_append] at hin
  exact ⟨hq,by omega⟩

/-- Searches with different filters, or of which one has none, are not the same octets. -/
theorem searchField_inj {ld ld' : SearchDefaults} {id id' : Int32} {a a' : SearchArgs}
    {o o' : Option Filter}
    (hr : (a.field ld id (o.toList.map Filter.field)).room w≤ maxintBersize w)
    (hr' : (a'.field ld' id' (o'.toList.map Filter.field)).room w≤ maxintBersize w)
    (h : (a.field ld id (o.toList.map Filter.field)).encode w true=
      (a'.field ld' id' (o'.toList.map Filter.field)).encode w true) : o=o' := by
  have hv := valid_searchField (w := w) ld id a (Filter.validAll_option o)
  have hv' := valid_searchField (w := w) ld' id' a' (Filter.validAll_option o')
  obtain ⟨hq,hf⟩ := room_searchField hr
  obtain ⟨hq',hf'⟩ := room_searchField hr'
  -- The message, the request in it and then the fields of the request are told apart.
  have hm := Field.part_of_encode hv hv' hr hr' h
  have hb := group_inj hv hv' hr hr' (Prod.ext_iff.mp hm).2
  obtain ⟨-,hb⟩ := List.cons_eq_cons.mp hb
  have hp := group_inj (valid_request ld a (Filter.validAll_option o))
    (valid_request ld' a' (Filter.validAll_option o')) hq hq'
    (Prod.ext_iff.mp (List.singleton_inj.mp hb)).2
  simp only [List.map_append] at hp
  obtain ⟨-,hp⟩ := List.append_inj hp (by simp [SearchArgs.header])
  obtain ⟨hp,-⟩ := List.append_inj' hp rfl
  exact Filter.option_inj hf hf' hp

end Lemmas

end TiLdap.OpenLdap
