import TiLdap.OpenLdap.FilterGrammar

namespace TiLdap.OpenLdap

open Framework Lber

section Names

/-- The characters of descriptions. -/
def descChar (c : UInt8) : Bool := ldapLdh c || c==dotSign || c==semicolon

theorem descChar_of_ldapDigit {c : UInt8} (h : ldapDigit c=true) : descChar c=true := by
  simp [descChar,ldapLdh,h]

theorem descChar_of_descOptions {s : List UInt8} {first : Bool} (h : descOptions first s=true) :
    ∀c∈s,descChar c=true := by
  induction s generalizing first with
  | nil => simp
  | cons c s ih =>
    rw [descOptions] at h
    split at h
    · rename_i hc
      exact List.forall_mem_cons.mpr ⟨by simp [descChar,hc],ih h⟩
    · rw [Bool.and_eq_true] at h
      exact List.forall_mem_cons.mpr ⟨by simp [descChar,h],ih h.2⟩

theorem descChar_of_descName {s : List UInt8} (h : descName s=true) :
    ∀c∈s,descChar c=true := by
  induction s with
  | nil => simp
  | cons c s ih =>
    rw [descName] at h
    split at h
    · rename_i hc
      exact List.forall_mem_cons.mpr ⟨by simp [descChar,hc],descChar_of_descOptions h⟩
    · rw [Bool.and_eq_true] at h
      exact List.forall_mem_cons.mpr ⟨by simp [descChar,h],ih h.2⟩

theorem descChar_of_descNumbers {s : List UInt8} {dot : Bool} (h : descNumbers dot s=true) :
    ∀c∈s,descChar c=true := by
  induction s generalizing dot with
  | nil => simp
  | cons c s ih =>
    rw [descNumbers] at h
    split at h
    · rename_i hc
      rw [Bool.and_eq_true] at h
      exact List.forall_mem_cons.mpr ⟨by simp [descChar,hc],descChar_of_descOptions h.2⟩
    · split at h
      · rename_i hc
        exact List.forall_mem_cons.mpr ⟨descChar_of_ldapDigit hc,ih h⟩
      · split at h
        · rename_i hc
          rw [Bool.and_eq_true] at h
          exact List.forall_mem_cons.mpr ⟨by simp [descChar,hc],ih h.2⟩
        · cases h

theorem descChar_of_ldapIsDesc {s : List UInt8} (h : ldapIsDesc s=true) :
    ∀c∈s,descChar c=true := by
  cases s with
  | nil => simp
  | cons c s =>
    rw [ldapIsDesc] at h
    split at h
    · rename_i hc
      exact List.forall_mem_cons.mpr ⟨by simp [descChar,ldapLdh,hc],descChar_of_descName h⟩
    · split at h
      · rename_i hc
        exact List.forall_mem_cons.mpr ⟨descChar_of_ldapDigit hc,descChar_of_descNumbers h⟩
      · cases h

theorem descChar_of_oidNumbers {s : List UInt8} {dot : Bool} (h : oidNumbers dot s=true) :
    ∀c∈s,descChar c=true := by
  induction s generalizing dot with
  | nil => simp
  | cons c s ih =>
    rw [oidNumbers] at h
    split at h
    · rename_i hc
      exact List.forall_mem_cons.mpr ⟨descChar_of_ldapDigit hc,ih h⟩
    · split at h
      · rename_i hc
        rw [Bool.and_eq_true] at h
        exact List.forall_mem_cons.mpr ⟨by simp [descChar,hc],ih h.2⟩
      · cases h

theorem descChar_of_ldapIsOid {s : List UInt8} (h : ldapIsOid s=true) :
    ∀c∈s,descChar c=true := by
  cases s with
  | nil => simp
  | cons c s =>
    rw [ldapIsOid] at h
    split at h
    · rename_i hc
      have hs : ∀d∈s,ldapLdh d=true := by simpa using h
      exact List.forall_mem_cons.mpr
        ⟨by simp [descChar,ldapLdh,hc],fun d hd => by simp [descChar,hs d hd]⟩
    · split at h
      · rename_i hc
        exact List.forall_mem_cons.mpr ⟨descChar_of_ldapDigit hc,descChar_of_oidNumbers h⟩
      · cases h

theorem not_descChar {c : UInt8} (h : descChar c=true) :
    c≠0x3c ∧ c≠0x3e ∧ c≠0x7e ∧ c≠colon ∧ c≠equals ∧ special c=false ∧ ldapSpace c=false ∧
      c≠ampersand ∧ c≠bar ∧ c≠bang := by
  revert c
  apply forall_octet
  decide +kernel

theorem ldapIsDesc_ne_nil {s : List UInt8} (h : ldapIsDesc s=true) : s≠[] := by
  rintro rfl
  cases h

theorem not_mem_of_descChar {s : List UInt8} (h : ∀c∈s,descChar c=true) :
    equals∉s ∧ colon∉s := by
  refine ⟨?_,?_⟩
  · intro hm
    exact absurd (h _ hm) (by decide)
  · intro hm
    exact absurd (h _ hm) (by decide)

theorem isDnWord_descChar {s : List UInt8} (h : isDnWord s=true) : ∀c∈s,descChar c=true := by
  have hc : ∀c : UInt8,(if ldapUpper c then c+0x20 else c)=0x64 ∨
      (if ldapUpper c then c+0x20 else c)=0x6e → descChar c=true := by
    apply forall_octet
    decide +kernel
  rw [isDnWord,beq_iff_eq] at h
  intro c hm
  have hi := List.mem_map_of_mem (f := fun c => if ldapUpper c then c+0x20 else c) hm
  rw [h] at hi
  exact hc c (by simpa using hi)

end Names

section Writing

variable {w : Word}

theorem berPrintf_append (b : Writer) (l r : List Put) :
    berPrintf w b (l++r)=(berPrintf w b l).bind fun b => berPrintf w b r := by
  rw [berPrintf,List.foldlM_append]
  rfl

/-- What only a debugging build writes leaves no trace. -/
theorem berPrintf_debugNull (b : Writer) (fmt : List Put) :
    berPrintf w b (.debugNull::.finish::fmt)=berPrintf w b (.finish::fmt) := by
  have h : (berPut w b .debugNull).bind (berPut w · .finish)=berPut w b .finish := by
    simp only [berPut,Option.bind_some,berPutSeqorset]
    cases b.sosInner with
    | none => rfl
    | some i => by_cases hx : maxintBersize w+5<b.buf.length-i <;> simp [hx]
  simp only [berPrintf,List.foldlM_cons,Option.bind_eq_bind]
  rw [← Option.bind_assoc,h]

theorem putsAll_append (fs gs : List Field) :
    Field.putsAll (fs++gs)=Field.putsAll fs++Field.putsAll gs := by
  induction fs with
  | nil => rfl
  | cons f fs ih => simp [Field.putsAll,ih]

/-- A string that may be missing is written by one conversion or by none. -/
theorem berPrintf_optionalField (t : Nat) (l : List UInt8) (b : Writer) :
    berPrintf w b (Field.putsAll (optionalField t l))=
      if l=[] then some b else berPrintf w b [.tag t,.octets l] := by
  rw [optionalField]
  split
  · rfl
  · rfl

end Writing

section Items

variable {w : Word} {below : List UInt8 → UInt8}

theorem putAssertion_spelled {t s v : List UInt8} (ht : ldapIsDesc t=true) (h : Spelled s v)
    (k : Compare) (b : Writer) :
    putAssertion w k.tag t s b=berPrintf w b (Filter.compare k t v).field.puts := by
  rw [putAssertion,if_pos ht,unescape_of_spelled h]
  have hp : (Filter.compare k t v).field.puts=
      [.tag k.tag,.beginSeq,.octets t,.octets v]++[.finish] := by
    simp [Filter.field,Field.puts,Field.putsAll,setTag,beginGroup,Prim.put]
  rw [hp,berPrintf_append]
  show berPrintf w b ([.tag k.tag,.beginSeq,.octets t,.octets v]++[.debugNull,.finish])=_
  rw [berPrintf_append]
  simp only [berPrintf_debugNull]

theorem putPieces_nil (n : Nat) (gotstar : Bool) (b : Writer) :
    putPieces w n gotstar [] b=some b := by
  cases n <;> simp [putPieces]

theorem putPiece_spelled {s v : List UInt8} (h : Spelled s v) (hv : v≠[]) (t : Nat)
    (b : Writer) : putPiece w t s b=berPrintf w b [.tag t,.octets v] := by
  rw [putPiece,unescape_of_spelled h]
  simp [hv]

/-- The last piece, or the only one. -/
theorem putPieces_final {s v : List UInt8} (h : Spelled s v) (hs : s≠[]) {n : Nat} (hn : 0<n)
    (gotstar : Bool) (b : Writer) :
    putPieces w n gotstar s b=berPrintf w b [.tag ldapSubstringFinal,.octets v] := by
  obtain ⟨n,rfl⟩ := Nat.exists_eq_succ_of_ne_zero (by omega : n≠0)
  have hf := findWildcard_of_spelled h (.inl rfl)
  rw [List.append_nil] at hf
  have hv : v≠[] := fun he => hs (h.eq_nil_iff.mp he)
  rw [putPieces,if_neg hs,hf]
  simp only [↓reduceIte,hs,ne_eq,not_false_eq_true,true_or,putPiece_spelled h hv]
  simp [putPieces_nil]

/-- A piece before a star. -/
theorem putPieces_star {s v r : List UInt8} (h : Spelled s v) {n : Nat} (gotstar : Bool)
    (b : Writer) : putPieces w (n+1) gotstar (s++star::r) b=
      (if v=[] ∧ gotstar=false then some b
        else putPiece w (if gotstar then ldapSubstringAny else ldapSubstringInitial) s b).bind
        (putPieces w n true r) := by
  have hf := findWildcard_of_spelled (r := star::r) h (.inr ⟨r,rfl⟩)
  have ha : ldapSubstringInitial≠ldapSubstringAny := by decide
  rw [putPieces,if_neg (by simp),hf]
  cases gotstar with
  | false => by_cases hv : s=[] <;> simp [h.eq_nil_iff,hv,ha]
  | true => simp

/-- After the first star, every piece but the last one is not empty. -/
theorem putPieces_pieces {r final : List UInt8} {vs : List (List UInt8)} (h : Pieces r vs final)
    {n : Nat} (hn : r.length≤n) (b : Writer) :
    putPieces w n true r b=berPrintf w b (Field.putsAll
      (vs.map (fun l => .prim (some ldapSubstringAny) (.octets l))++
        optionalField ldapSubstringFinal final)) := by
  induction h generalizing n b with
  | @final s v h =>
    rw [List.map_nil,List.nil_append,berPrintf_optionalField]
    by_cases hs : s=[]
    · rw [if_pos (h.eq_nil_iff.mpr hs),hs,putPieces_nil]
    · rw [if_neg (mt h.eq_nil_iff.mp hs),putPieces_final h hs]
      have hpos := List.length_pos_iff.mpr hs
      omega
  | @any s v r final vs h hv hr ih =>
    rw [List.length_append,List.length_cons] at hn
    obtain ⟨n,rfl⟩ := Nat.exists_eq_succ_of_ne_zero (by omega : n≠0)
    rw [putPieces_star h,List.map_cons,List.cons_append,Field.putsAll,berPrintf_append]
    simp only [hv,false_and,↓reduceIte,putPiece_spelled h hv]
    congr 1
    funext b
    exact ih (by omega) b

theorem putSubstringFilter_spelled {t s v r final : List UInt8} {vs : List (List UInt8)}
    (h : Spelled s v) (hr : Pieces r vs final) (b : Writer) :
    putSubstringFilter w t (s++star::r) b=
      berPrintf w b (Filter.substrings t v vs final).field.puts := by
  have hp : (Filter.substrings t v vs final).field.puts=
      [.tag ldapFilterSubstrings,.beginSeq,.octets t,.beginSeq]++
        (Field.putsAll (pieceFields v vs final)++[.finish,.finish]) := by
    simp [Filter.field,Field.puts,Field.putsAll,setTag,beginGroup,Prim.put]
  have hl : (s++star::r).length=s.length+r.length+1 := by
    simp
    omega
  have hpieces : ∀b,putPieces w (s.length+r.length+1) false (s++star::r) b=
      berPrintf w b (Field.putsAll (pieceFields v vs final)) := by
    intro b
    rw [putPieces_star h,pieceFields,putsAll_append,berPrintf_append,berPrintf_optionalField]
    have hq := fun b => putPieces_pieces (w := w) hr (n := s.length+r.length) (by omega) b
    by_cases hv : v=[]
    · simp [hv,hq]
    · simp [hv,hq,putPiece_spelled h hv]
  rw [putSubstringFilter,hp,berPrintf_append,hl]
  simp only [Option.bind_eq_bind,hpieces,berPrintf_append]
  congr 1
  funext b
  congr 1
  funext b
  rw [berPrintf_debugNull]
  exact congrArg (Option.bind (berPut w b .finish)) (funext fun b => berPrintf_debugNull b [])

theorem extName_spelled {x : ExtName} {n : List UInt8} (hx : x.Valid) (h : ExtSpelled x n) :
    extName n=some x := by
  have htype : colon∉x.type := by
    by_cases ht : x.type=[]
    · simp [ht]
    · exact (not_mem_of_descChar (descChar_of_ldapIsDesc (hx.type ht))).2
  have hrule : colon∉x.rule := by
    by_cases hr : x.rule=[]
    · simp [hr]
    · exact (not_mem_of_descChar (descChar_of_ldapIsOid (hx.rule hr))).2
  cases h with
  | type t => rw [extName,cut_eq_none_iff.mpr htype]
  | @rule t r hr =>
    rw [extName,cut_eq_some_iff.mpr ⟨rfl,htype⟩]
    simp only [cut_eq_none_iff.mpr hrule,hr,Bool.false_eq_true,↓reduceIte]
  | @dn t d hd =>
    have hc := (not_mem_of_descChar (isDnWord_descChar hd)).2
    have ht : t≠[] := hx.some.resolve_right fun h => h rfl
    rw [extName,cut_eq_some_iff.mpr ⟨rfl,htype⟩]
    simp only [cut_eq_none_iff.mpr hc,hd,hx.type ht,↓reduceIte]
  | @dnRule t d r hd =>
    have hc := (not_mem_of_descChar (isDnWord_descChar hd)).2
    have h2 : cut colon (d++colon::r)=some (d,r) := cut_eq_some_iff.mpr ⟨rfl,hc⟩
    rw [extName,cut_eq_some_iff.mpr ⟨rfl,htype⟩]
    simp only [h2,hd,↓reduceIte]

theorem ExtSpelled.equals_not_mem {x : ExtName} {n : List UInt8} (hx : x.Valid)
    (h : ExtSpelled x n) : equals∉n := by
  have htype : equals∉x.type := by
    by_cases ht : x.type=[]
    · simp [ht]
    · exact (not_mem_of_descChar (descChar_of_ldapIsDesc (hx.type ht))).1
  have hrule : equals∉x.rule := by
    by_cases hr : x.rule=[]
    · simp [hr]
    · exact (not_mem_of_descChar (descChar_of_ldapIsOid (hx.rule hr))).1
  have hcolon : equals≠colon := by decide
  cases h with
  | type t => exact htype
  | @rule t r hr => simp [hcolon,htype,hrule]
  | @dn t d hd => simp [hcolon,htype,(not_mem_of_descChar (isDnWord_descChar hd)).1]
  | @dnRule t d r hd =>
    simp [hcolon,htype,hrule,(not_mem_of_descChar (isDnWord_descChar hd)).1]

theorem putExtensible_spelled {x : ExtName} {n s v : List UInt8} (hx : x.Valid)
    (hn : ExtSpelled x n) (h : Spelled s v) (b : Writer) :
    putExtensible w n s b=berPrintf w b (Filter.extensible x v).field.puts := by
  have hp : (Filter.extensible x v).field.puts=[.tag ldapFilterExt,.beginSeq]++
      (Field.putsAll (optionalField ldapFilterExtOid x.rule)++
        (Field.putsAll (optionalField ldapFilterExtType x.type)++
          ([.tag ldapFilterExtValue,.octets v]++
            ((if x.dn then [.tag ldapFilterExtDnattrs,.boolean true] else [])++[.finish])))) := by
    cases hd : x.dn <;> simp [Filter.field,Field.puts,extFields,putsAll_append,Field.putsAll,
      setTag,beginGroup,Prim.put,hd]
  have h1 : ¬(x.type=[] ∧ x.rule=[]) := by
    rintro ⟨ht,hr⟩
    exact hx.some.elim (· ht) (· hr)
  have h2 : ¬(x.type≠[] ∧ ldapIsDesc x.type=false) := by
    rintro ⟨ht,hd⟩
    rw [hx.type ht] at hd
    cases hd
  have h3 : ¬(x.rule≠[] ∧ ldapIsOid x.rule=false) := by
    rintro ⟨hr,hd⟩
    rw [hx.rule hr] at hd
    cases hd
  rw [putExtensible,extName_spelled hx hn]
  simp only [h1,h2,h3,↓reduceIte,unescape_of_spelled h,hp,berPrintf_append,
    berPrintf_optionalField,Option.bind_eq_bind,Option.bind_some,berPrintf_debugNull]
  have hnil : ∀b,berPrintf w b []=some b := fun _ => rfl
  by_cases hr : x.rule=[] <;> by_cases ht : x.type=[] <;> cases x.dn <;> simp [hr,ht,hnil]

theorem equals_not_mem_concat {t : List UInt8} (ht : equals∉t) {c : UInt8} (hc : equals≠c) :
    equals∉t++[c] := by simp [ht,hc]

/-- What `put_simple_filter` does is decided by what stands before the equals sign. -/
theorem putSimpleFilter_type {t s : List UInt8} (ht : equals∉t) {c : UInt8}
    (hc : t.getLast?.getD (below (t++equals::s))=c) (b : Writer) :
    putSimpleFilter w below (t++equals::s) b=
      if c=0x3c then putAssertion w ldapFilterLe t.dropLast s b
      else if c=0x3e then putAssertion w ldapFilterGe t.dropLast s b
      else if c=0x7e then putAssertion w ldapFilterApprox t.dropLast s b
      else if c=colon then putExtensible w t.dropLast s b
      else if ldapIsDesc t=false then none
      else putEqualityFilter w t s b := by
  rw [putSimpleFilter,cut_eq_some_iff.mpr ⟨rfl,ht⟩]
  simp only [hc]

theorem getLast_desc {t : List UInt8} (ht : ldapIsDesc t=true) :
    ∃c,descChar c=true ∧ ∀d,t.getLast?.getD d=c := by
  refine ⟨t.getLast (ldapIsDesc_ne_nil ht),?_,?_⟩
  · exact descChar_of_ldapIsDesc ht _ (List.getLast_mem _)
  · intro d
    rw [List.getLast?_eq_getLast_of_ne_nil (ldapIsDesc_ne_nil ht)]
    rfl

/-- After a description alone, the value decides. -/
theorem putSimpleFilter_desc {t s : List UInt8} (ht : ldapIsDesc t=true) (b : Writer) :
    putSimpleFilter w below (t++equals::s) b=putEqualityFilter w t s b := by
  obtain ⟨c,hc,hl⟩ := getLast_desc ht
  obtain ⟨h1,h2,h3,h4,-⟩ := not_descChar hc
  rw [putSimpleFilter_type (not_mem_of_descChar (descChar_of_ldapIsDesc ht)).1 (hl _)]
  simp only [h1,h2,h3,h4,↓reduceIte,ht,Bool.true_eq_false]

/-- An item that is spelled as it should be is written. -/
theorem putSimpleFilter_spelled {f : Filter} {s : List UInt8} (h : ItemSpelled f s)
    (b : Writer) : putSimpleFilter w below s b=berPrintf w b f.field.puts := by
  cases h with
  | @compare k t s v ht h =>
    have hm := (not_mem_of_descChar (descChar_of_ldapIsDesc ht)).1
    rw [← putAssertion_spelled ht h k b]
    cases k with
    | equality =>
      have hf := findWildcard_of_spelled h (.inl rfl)
      rw [List.append_nil] at hf
      simp only [Compare.sign,List.nil_append]
      rw [putSimpleFilter_desc ht,putEqualityFilter,hf]
      rfl
    | greaterOrEqual =>
      rw [Compare.sign,← List.append_assoc,
        putSimpleFilter_type (c := 0x3e) (equals_not_mem_concat hm (by decide)) (by simp)]
      simp [Compare.tag]
    | lessOrEqual =>
      rw [Compare.sign,← List.append_assoc,
        putSimpleFilter_type (c := 0x3c) (equals_not_mem_concat hm (by decide)) (by simp)]
      simp [Compare.tag]
    | approx =>
      rw [Compare.sign,← List.append_assoc,
        putSimpleFilter_type (c := 0x7e) (equals_not_mem_concat hm (by decide)) (by simp)]
      simp [Compare.tag]
  | @present t ht =>
    have hf := findWildcard_of_spelled (r := [star]) .nil (.inr ⟨[],rfl⟩)
    rw [List.nil_append] at hf
    rw [putSimpleFilter_desc ht,putEqualityFilter,hf]
    rfl
  | @substrings t s v r final vs ht h hr hs =>
    have hf := findWildcard_of_spelled (r := star::r) h (.inr ⟨r,rfl⟩)
    have hne : s++star::r≠[star] := by
      intro he
      have hl := congrArg List.length he
      simp only [List.length_append,List.length_cons,List.length_nil] at hl
      rcases hs with hs|hs
      · have := List.length_pos_iff.mpr hs
        omega
      · have := List.length_pos_iff.mpr hs
        omega
    rw [putSimpleFilter_desc ht,putEqualityFilter,hf,← putSubstringFilter_spelled h hr b]
    simp [hne]
  | @extensible x n s v hx hn h =>
    have hm := hn.equals_not_mem hx
    have hs : n++colon::equals::s=(n++[colon])++equals::s := by simp
    rw [hs,putSimpleFilter_type (c := colon) (equals_not_mem_concat hm (by decide)) (by simp),
      ← putExtensible_spelled hx hn h b,if_neg (by decide),if_neg (by decide),
      if_neg (by decide),if_pos rfl,List.dropLast_concat]

end Items

section Soundness

variable {w : Word} {below : List UInt8 → UInt8}

theorem putAssertion_some {t : Nat} {type value : List UInt8} {b b' : Writer}
    (h : putAssertion w t type value b=some b') :
    ldapIsDesc type=true ∧ ∃v,Spelled value v := by
  rw [putAssertion] at h
  split at h
  · rename_i ht
    split at h
    · cases h
    · rename_i v hv
      exact ⟨ht,v,spelled_of_unescape hv⟩
  · cases h

theorem putPiece_some {t : Nat} {s : List UInt8} {b b' : Writer}
    (h : putPiece w t s b=some b') : ∃v,Spelled s v ∧ v≠[] := by
  rw [putPiece] at h
  split at h
  · cases h
  · rename_i v hv
    split at h
    · cases h
    · rename_i hne
      exact ⟨v,spelled_of_unescape hv,hne⟩

theorem pieces_of_putPieces {n : Nat} {r : List UInt8} {b b' : Writer} (hn : r.length≤n)
    (h : putPieces w n true r b=some b') : ∃vs final,Pieces r vs final := by
  induction n generalizing r b with
  | zero =>
    have hr : r=[] := List.eq_nil_of_length_eq_zero (by omega)
    rw [hr]
    exact ⟨[],[],.final .nil⟩
  | succ n ih =>
    by_cases hr : r=[]
    · rw [hr]
      exact ⟨[],[],.final .nil⟩
    · rw [putPieces,if_neg hr] at h
      cases hf : ldapPvtFindWildcard r with
      | none =>
        rw [hf] at h
        cases h
      | some x =>
        obtain ⟨s,next⟩ := x
        obtain ⟨rfl,⟨v,hv⟩,hnext⟩ := cut_of_findWildcard hf
        rcases hnext with rfl|⟨t,rfl⟩
        · rw [List.append_nil]
          exact ⟨[],v,.final hv⟩
        · rw [hf] at h
          simp only [reduceCtorEq,↓reduceIte,or_true,Option.bind_eq_some_iff] at h
          obtain ⟨b₁,h1,h2⟩ := h
          obtain ⟨u,hu,hne⟩ := putPiece_some h1
          rw [List.length_append,List.length_cons] at hn
          obtain ⟨vs,final,hp⟩ := ih (by simp; omega) h2
          exact ⟨u::vs,final,.any hu hne hp⟩

theorem extSpelled_of_extName {n : List UInt8} {x : ExtName} (h : extName n=some x) :
    ExtSpelled x n := by
  rw [extName] at h
  split at h
  · cases h
    exact .type n
  · rename_i t d hc
    obtain ⟨rfl,-⟩ := cut_eq_some_iff.mp hc
    split at h
    · split at h
      · rename_i hd
        split at h
        · cases h
          exact .dn hd
        · cases h
      · rename_i hd
        cases h
        exact .rule (by simpa using hd)
    · rename_i d r hc
      obtain ⟨rfl,-⟩ := cut_eq_some_iff.mp hc
      split at h
      · rename_i hd
        cases h
        exact .dnRule hd
      · cases h

theorem putExtensible_some {n value : List UInt8} {b b' : Writer}
    (h : putExtensible w n value b=some b') :
    ∃x v,ExtName.Valid x ∧ ExtSpelled x n ∧ Spelled value v := by
  rw [putExtensible] at h
  cases hx : extName n with
  | none =>
    rw [hx] at h
    cases h
  | some x =>
    rw [hx] at h
    simp only at h
    split at h
    · cases h
    · rename_i h1
      split at h
      · cases h
      · rename_i h2
        split at h
        · cases h
        · rename_i h3
          cases hv : ldapPvtFilterValueUnescape value with
          | none =>
            exfalso
            by_cases hr : x.rule=[] <;> by_cases ht : x.type=[] <;> simp [hv,hr,ht] at h
          | some v =>
            refine ⟨x,v,⟨?_,?_,?_⟩,extSpelled_of_extName hx,spelled_of_unescape hv⟩
            · tauto
            · simpa using h2
            · simpa using h3

theorem ExtSpelled.ne_nil {x : ExtName} {n : List UInt8} (hx : x.Valid) (h : ExtSpelled x n) :
    n≠[] := by
  cases h with
  | type t => exact hx.some.resolve_right fun hr => hr rfl
  | rule | dn | dnRule => simp

/-- A type that is not empty ends in the octet that is looked at. -/
theorem concat_of_getLast {t : List UInt8} {c d : UInt8} (hc : t.getLast?.getD d=c)
    (ht : t≠[]) : t=t.dropLast++[c] := by
  rw [List.getLast?_eq_getLast_of_ne_nil ht,Option.getD_some] at hc
  rw [← hc,List.dropLast_append_getLast]

theorem compare_of_putAssertion {k : Compare} {t value : List UInt8} {b b' : Writer}
    {c d : UInt8} (hk : k.sign=[c]) (hc : t.getLast?.getD d=c)
    (h : putAssertion w k.tag t.dropLast value b=some b') :
    ∃f,ItemSpelled f (t++equals::value) := by
  obtain ⟨ht,v,hv⟩ := putAssertion_some h
  have hne : t≠[] := by
    rintro rfl
    exact ldapIsDesc_ne_nil ht rfl
  have hs := ItemSpelled.compare (k := k) ht hv
  rw [hk,← List.append_assoc,← concat_of_getLast hc hne] at hs
  exact ⟨_,hs⟩

theorem itemSpelled_of_putEqualityFilter {t value : List UInt8} {b b' : Writer}
    (ht : ldapIsDesc t=true) (h : putEqualityFilter w t value b=some b') :
    ∃f,ItemSpelled f (t++equals::value) := by
  rw [putEqualityFilter] at h
  cases hf : ldapPvtFindWildcard value with
  | none =>
    rw [hf] at h
    cases h
  | some y =>
    obtain ⟨a,next⟩ := y
    obtain ⟨rfl,⟨v,hv⟩,hnext⟩ := cut_of_findWildcard hf
    rcases hnext with rfl|⟨r,rfl⟩
    · rw [List.append_nil]
      exact ⟨_,.compare (k := .equality) ht hv⟩
    · rw [hf] at h
      simp only [reduceCtorEq,↓reduceIte] at h
      split at h
      · rename_i hs
        rw [hs]
        exact ⟨_,.present ht⟩
      · rename_i hs
        rw [putSubstringFilter] at h
        simp only [Option.bind_eq_bind,Option.bind_eq_some_iff] at h
        obtain ⟨b₁,-,b₂,h2,-⟩ := h
        rw [List.length_append,List.length_cons,← Nat.add_assoc,putPieces_star hv] at h2
        obtain ⟨b₃,-,h3⟩ := Option.bind_eq_some_iff.mp h2
        obtain ⟨vs,final,hp⟩ := pieces_of_putPieces (by omega) h3
        refine ⟨_,.substrings ht hv hp ?_⟩
        by_contra hn
        rw [not_or,not_not,not_not] at hn
        exact hs (by rw [hn.1,hn.2]; rfl)

/-- An item that is written is spelled as it should be; what lies before the copy of the string
does not matter. -/
theorem itemSpelled_of_putSimpleFilter {s : List UInt8} {b b' : Writer}
    (h : putSimpleFilter w below s b=some b') : ∃f,ItemSpelled f s := by
  cases hcut : cut equals s with
  | none =>
    rw [putSimpleFilter,hcut] at h
    cases h
  | some x =>
    obtain ⟨t,value⟩ := x
    obtain ⟨rfl,hm⟩ := cut_eq_some_iff.mp hcut
    obtain ⟨c,hc⟩ : ∃c,t.getLast?.getD (below (t++equals::value))=c := ⟨_,rfl⟩
    rw [putSimpleFilter_type hm hc] at h
    split at h
    · rename_i h1
      exact compare_of_putAssertion (k := .lessOrEqual) (by rw [h1]; rfl) hc h
    · split at h
      · rename_i h1
        exact compare_of_putAssertion (k := .greaterOrEqual) (by rw [h1]; rfl) hc h
      · split at h
        · rename_i h1
          exact compare_of_putAssertion (k := .approx) (by rw [h1]; rfl) hc h
        · split at h
          · rename_i h1
            obtain ⟨x,v,hx,hn,hv⟩ := putExtensible_some h
            have hne : t≠[] := by
              rintro rfl
              exact hn.ne_nil hx rfl
            have hs := ItemSpelled.extensible hx hn hv
            rw [← List.singleton_append,← List.append_assoc,← h1,← concat_of_getLast hc hne] at hs
            exact ⟨_,hs⟩
          · split at h
            · cases h
            · rename_i ht
              exact itemSpelled_of_putEqualityFilter (by simpa using ht) h

end Soundness

end TiLdap.OpenLdap
