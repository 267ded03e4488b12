import TiLdap.Framework.Octets

namespace TiLdap.OpenLdap

open Framework

abbrev lparen : UInt8 := 0x28
abbrev rparen : UInt8 := 0x29
abbrev star : UInt8 := 0x2a
abbrev backslash : UInt8 := 0x5c

def ldapDigit (c : UInt8) : Bool := 0x30≤ c && c≤0x39
def ldapLower (c : UInt8) : Bool := 0x61≤ c && c≤0x7a
def ldapUpper (c : UInt8) : Bool := 0x41≤ c && c≤0x5a
def ldapAlpha (c : UInt8) : Bool := ldapLower c || ldapUpper c
def ldapLdh (c : UInt8) : Bool := ldapAlpha c || ldapDigit c || c==0x2d
def ldapSpace (c : UInt8) : Bool := c==0x20 || c==0x09 || c==0x0a
def ldapHex (c : UInt8) : Bool := ldapDigit c || 0x61≤ c && c≤0x66 || 0x41≤ c && c≤0x46

def hex2value (c : UInt8) : Option UInt8 :=
  if 0x30≤ c ∧ c≤0x39 then some (c-0x30)
  else if 0x41≤ c ∧ c≤0x46 then some (c-0x41+10)
  else if 0x61≤ c ∧ c≤0x66 then some (c-0x61+10)
  else none

/-- The characters that stand for themselves only after a backslash. -/
def special (c : UInt8) : Bool := c==lparen || c==rparen || c==star || c==backslash

/-- A zero-terminated string is the octets before its end. -/
def ldapPvtFilterValueUnescape : List UInt8 → Option (List UInt8)
  | [] => some []
  | c::s =>
    if c=lparen ∨ c=rparen ∨ c=star then none
    else if c=backslash then
      match s with
      | [] => none
      | d::s' =>
        match hex2value d with
        | some v1 =>
          match s' with
          | [] => none
          | e::s'' =>
            match hex2value e with
            | none => none
            | some v2 => (ldapPvtFilterValueUnescape s'').map ((v1*16+v2)::·)
        | none =>
          if special d then (ldapPvtFilterValueUnescape s').map (d::·) else none
    else (ldapPvtFilterValueUnescape s).map (c::·)

/-- What stands before the first star that is not escaped, or before the end, and the rest. -/
def ldapPvtFindWildcard : List UInt8 → Option (List UInt8 × List UInt8)
  | [] => some ([],[])
  | c::s =>
    if c=star then some ([],c::s)
    else if c=lparen ∨ c=rparen then none
    else if c=backslash then
      match s with
      | [] => none
      | d::s' =>
        let quoted :=
          if special d then (ldapPvtFindWildcard s').map fun x => (c::d::x.1,x.2) else none
        match s' with
        | [] => quoted
        | e::s'' =>
          if ldapHex d && ldapHex e then
            (ldapPvtFindWildcard s'').map fun x => (c::d::e::x.1,x.2)
          else quoted
    else (ldapPvtFindWildcard s).map fun x => (c::x.1,x.2)

/-- `NEEDFLTESCAPE`. -/
def needFltEscape (c : UInt8) : Bool :=
  0x80≤ c || c≤0x1f || 0x28≤ c && c≤0x2a || c==0x5c || c==0x7f

/-- A digit of `0123456789ABCDEF`. -/
def hexDigit (n : UInt8) : UInt8 := if n<10 then 0x30+n else 0x41+(n-10)

def ldapBv2escapedFilterValueLen (l : List UInt8) : Nat :=
  l.foldl (fun n c => n+(if needFltEscape c then 3 else 1)) 0

def escapeOctet (c : UInt8) : List UInt8 :=
  if needFltEscape c then [backslash,hexDigit ((c >>> 4) &&& 0x0f),hexDigit (c &&& 0x0f)] else [c]

/-- A value without anything to escape is copied. -/
def ldapBv2escapedFilterValue (l : List UInt8) : List UInt8 :=
  if ldapBv2escapedFilterValueLen l=l.length then l else l.flatMap escapeOctet

section Spelling

/-- How a value is spelled in a filter. -/
inductive Spelled : List UInt8 → List UInt8 → Prop
  | nil : Spelled [] []
  | plain {c : UInt8} {s v : List UInt8} (hc : special c=false) (h : Spelled s v) :
      Spelled (c::s) (c::v)
  | hex {d e x y : UInt8} {s v : List UInt8} (hd : hex2value d=some x) (he : hex2value e=some y)
      (h : Spelled s v) : Spelled (backslash::d::e::s) ((x*16+y)::v)
  | quoted {d : UInt8} {s v : List UInt8} (hd : special d=true) (h : Spelled s v) :
      Spelled (backslash::d::s) (d::v)

theorem hex2value_isSome (c : UInt8) : (hex2value c).isSome=ldapHex c := by
  revert c
  apply forall_octet
  decide +kernel

theorem hex2value_special {c : UInt8} (h : special c=true) : hex2value c=none := by
  revert c
  apply forall_octet
  decide +kernel

theorem special_eq_false_iff {c : UInt8} :
    special c=false ↔ ¬(c=lparen ∨ c=rparen ∨ c=star) ∧ c≠backslash := by
  simp only [special,Bool.or_eq_false_iff,beq_eq_false_iff_ne]
  tauto

theorem unescape_of_spelled {s v : List UInt8} (h : Spelled s v) :
    ldapPvtFilterValueUnescape s=some v := by
  induction h with
  | nil => rfl
  | plain hc h ih =>
    obtain ⟨h1,h2⟩ := special_eq_false_iff.mp hc
    rw [ldapPvtFilterValueUnescape.eq_def]
    simp [h1,h2,ih]
  | hex hd he h ih =>
    have hb : ¬(backslash=lparen ∨ backslash=rparen ∨ backslash=star) := by decide
    rw [ldapPvtFilterValueUnescape.eq_def]
    simp [hb,hd,he,ih]
  | quoted hd h ih =>
    have hb : ¬(backslash=lparen ∨ backslash=rparen ∨ backslash=star) := by decide
    rw [ldapPvtFilterValueUnescape.eq_def]
    simp [hb,hex2value_special hd,hd,ih]

theorem spelled_of_unescape {s v : List UInt8} (h : ldapPvtFilterValueUnescape s=some v) :
    Spelled s v := by
  fun_induction ldapPvtFilterValueUnescape s generalizing v with
  | case1 =>
    cases h
    exact .nil
  | case2 | case3 | case4 | case5 | case8 => cases h
  | case6 d v1 hd e s v2 he hb ih =>
    obtain ⟨u,hu,rfl⟩ := Option.map_eq_some_iff.mp h
    exact .hex hd he (ih hu)
  | case7 d s hx hd hb ih =>
    obtain ⟨u,hu,rfl⟩ := Option.map_eq_some_iff.mp h
    exact .quoted hd (ih hu)
  | case9 c s hc hb ih =>
    obtain ⟨u,hu,rfl⟩ := Option.map_eq_some_iff.mp h
    exact .plain (special_eq_false_iff.mpr ⟨hc,hb⟩) (ih hu)

theorem Spelled.eq_nil_iff {s v : List UInt8} (h : Spelled s v) : v=[] ↔ s=[] := by
  cases h <;> simp

theorem not_ldapHex_special {c : UInt8} (h : special c=true) : ldapHex c=false := by
  rw [← hex2value_isSome,hex2value_special h]
  rfl

/-- The end of a spelled value is found at a star or at the end of the string. -/
theorem findWildcard_of_spelled {s v r : List UInt8} (h : Spelled s v)
    (hr : r=[] ∨ ∃t,r=star::t) : ldapPvtFindWildcard (s++r)=some (s,r) := by
  induction h with
  | nil =>
    rcases hr with rfl|⟨t,rfl⟩
    · rfl
    · rw [List.nil_append,ldapPvtFindWildcard.eq_def]
      simp
  | @plain c s v hc h ih =>
    obtain ⟨h1,h2⟩ := special_eq_false_iff.mp hc
    simp only [not_or] at h1
    rw [List.cons_append,ldapPvtFindWildcard.eq_def]
    simp [h1,h2,ih]
  | @hex d e x y s v hd he h ih =>
    have hb : ¬(backslash=star) ∧ ¬(backslash=lparen ∨ backslash=rparen) := by decide
    have hx : (ldapHex d && ldapHex e)=true := by
      rw [← hex2value_isSome,← hex2value_isSome,hd,he]
      rfl
    rw [List.cons_append,List.cons_append,List.cons_append,ldapPvtFindWildcard.eq_def]
    simp only [hb,↓reduceIte,hx,ih,Option.map_some]
  | @quoted d s v hd h ih =>
    have hb : ¬(backslash=star) ∧ ¬(backslash=lparen ∨ backslash=rparen) := by decide
    rw [List.cons_append,List.cons_append,ldapPvtFindWildcard.eq_def]
    simp only [hb,↓reduceIte,hd,ih,Option.map_some]
    cases s++r <;> simp [not_ldapHex_special hd]

/-- A spelled value, with a star or the end of the string after it. -/
def Cut (s a r : List UInt8) : Prop := s=a++r ∧ (∃v,Spelled a v) ∧ (r=[] ∨ ∃t,r=star::t)

theorem Cut.push {s a r p : List UInt8} (h : Cut s a r)
    (hp : ∀v,Spelled a v → ∃u,Spelled (p++a) u) : Cut (p++s) (p++a) r := by
  obtain ⟨rfl,⟨v,hv⟩,hr⟩ := h
  exact ⟨by simp,hp v hv,hr⟩

theorem cut_quoted {d : UInt8} {s a r : List UInt8}
    (ih : ∀{a r},ldapPvtFindWildcard s=some (a,r) → Cut s a r)
    (h : (if special d then (ldapPvtFindWildcard s).map fun x => (backslash::d::x.1,x.2)
      else none)=some (a,r)) : Cut (backslash::d::s) a r := by
  split at h
  · rename_i hd
    obtain ⟨⟨a,r⟩,hx,he⟩ := Option.map_eq_some_iff.mp h
    cases he
    exact (ih hx).push (p := [backslash,d]) fun v hv => ⟨_,.quoted hd hv⟩
  · cases h

theorem cut_of_findWildcard {s a r : List UInt8} (h : ldapPvtFindWildcard s=some (a,r)) :
    Cut s a r := by
  fun_induction ldapPvtFindWildcard s generalizing a r with
  | case1 =>
    cases h
    exact ⟨rfl,⟨[],.nil⟩,.inl rfl⟩
  | case2 s =>
    cases h
    exact ⟨rfl,⟨[],.nil⟩,.inr ⟨s,rfl⟩⟩
  | case3 | case4 => cases h
  | case5 d h1 h2 => exact cut_quoted (by assumption) h
  | case6 d e s hx h1 h2 _ ih =>
    obtain ⟨⟨a,r⟩,ha,he⟩ := Option.map_eq_some_iff.mp h
    cases he
    rw [Bool.and_eq_true,← hex2value_isSome,← hex2value_isSome] at hx
    obtain ⟨x,hd⟩ := Option.isSome_iff_exists.mp hx.1
    obtain ⟨y,he⟩ := Option.isSome_iff_exists.mp hx.2
    exact (ih ha).push (p := [backslash,d,e]) fun v hv => ⟨_,.hex hd he hv⟩
  | case7 d e s hx h1 h2 => exact cut_quoted (by assumption) h
  | case8 c s h1 h2 h3 ih =>
    obtain ⟨⟨a,r⟩,ha,he⟩ := Option.map_eq_some_iff.mp h
    cases he
    have hc : special c=false := special_eq_false_iff.mpr ⟨by tauto,h3⟩
    exact (ih ha).push (p := [c]) fun v hv => ⟨_,.plain hc hv⟩

theorem length_escape (l : List UInt8) :
    (l.flatMap escapeOctet).length=ldapBv2escapedFilterValueLen l := by
  have h : ∀n,l.foldl (fun n c => n+(if needFltEscape c then 3 else 1)) n=
      n+(l.flatMap escapeOctet).length := by
    induction l with
    | nil => simp
    | cons c l ih =>
      intro n
      rw [List.foldl_cons,ih,List.flatMap_cons,List.length_append,escapeOctet]
      split <;> simp <;> omega
  rw [ldapBv2escapedFilterValueLen,h]
  omega

/-- What is copied has nothing to escape. -/
theorem ldapBv2escapedFilterValue_eq (l : List UInt8) :
    ldapBv2escapedFilterValue l=l.flatMap escapeOctet := by
  have hle : ∀l : List UInt8,l.length≤(l.flatMap escapeOctet).length ∧
      ((l.flatMap escapeOctet).length=l.length → l.flatMap escapeOctet=l) := by
    intro l
    induction l with
    | nil => simp
    | cons c l ih =>
      obtain ⟨h1,h2⟩ := ih
      rw [List.flatMap_cons,List.length_append,List.length_cons]
      cases hc : needFltEscape c with
      | true =>
        have hl : (escapeOctet c).length=3 := by simp [escapeOctet,hc]
        exact ⟨by omega,fun h => absurd h (by omega)⟩
      | false =>
        have he : escapeOctet c=[c] := by simp [escapeOctet,hc]
        rw [he,List.length_singleton,List.singleton_append]
        exact ⟨by omega,fun h => by rw [h2 (by omega)]⟩
  rw [ldapBv2escapedFilterValue,← length_escape]
  split
  · rename_i h
    exact ((hle l).2 h).symm
  · rfl

theorem escaped_hex (c : UInt8) :
    hex2value (hexDigit ((c >>> 4) &&& 0x0f))=some ((c >>> 4) &&& 0x0f) ∧
    hex2value (hexDigit (c &&& 0x0f))=some (c &&& 0x0f) ∧
    ((c >>> 4) &&& 0x0f)*16+(c &&& 0x0f)=c := by
  revert c
  apply forall_octet
  decide +kernel

theorem not_special_of_needFltEscape {c : UInt8} (h : needFltEscape c=false) :
    special c=false := by
  revert c
  apply forall_octet
  decide +kernel

theorem spelled_escape (l : List UInt8) : Spelled (l.flatMap escapeOctet) l := by
  induction l with
  | nil => exact .nil
  | cons c l ih =>
    rw [List.flatMap_cons,escapeOctet]
    cases hc : needFltEscape c with
    | true =>
      obtain ⟨h1,h2,h3⟩ := escaped_hex c
      have hs := Spelled.hex h1 h2 ih
      rw [h3] at hs
      exact hs
    | false => exact .plain (not_special_of_needFltEscape hc) ih

end Spelling

end TiLdap.OpenLdap
