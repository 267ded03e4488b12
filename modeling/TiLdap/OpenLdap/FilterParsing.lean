import TiLdap.OpenLdap.FilterItems

namespace TiLdap.OpenLdap

open Framework Lber

section Parentheses

/-- What is found in a string, when `p` stands before it. -/
def behind (p : List UInt8) (x : Option (List UInt8 × List UInt8)) :
    Option (List UInt8 × List UInt8) := x.map fun x => (p++x.1,x.2)

theorem behind_behind (p q : List UInt8) (x : Option (List UInt8 × List UInt8)) :
    behind p (behind q x)=behind (p++q) x := by
  cases x <;> simp [behind]

theorem behind_bind (p : List UInt8) (x : Option (List UInt8 × List UInt8))
    (f : List UInt8 → Option (List UInt8 × List UInt8)) :
    behind p (x.bind fun x => behind (x.1++[rparen]) (f x.2))=
      (behind p x).bind fun x => behind (x.1++[rparen]) (f x.2) := by
  cases x with
  | none => rfl
  | some x => simp [behind,Function.comp_def]

theorem rightParen_open (j : Nat) (s : List UInt8) :
    rightParen (j+1) false (lparen::s)=behind [lparen] (rightParen (j+1+1) false s) := by
  rw [rightParen]
  simp
  rfl

theorem rightParen_close (j : Nat) (s : List UInt8) :
    rightParen (j+1+1) false (rparen::s)=behind [rparen] (rightParen (j+1) false s) := by
  have h : rparen≠lparen := by decide
  rw [rightParen]
  simp [h]
  rfl

theorem rightParen_found (s : List UInt8) : rightParen 1 false (rparen::s)=some ([],s) := by
  have h : rparen≠lparen := by decide
  rw [rightParen]
  simp [h]

theorem rightParen_keep (j : Nat) {e : Bool} {c : UInt8}
    (h : e=true ∨ c≠lparen ∧ c≠rparen) (s : List UInt8) :
    rightParen (j+1) e (c::s)=
      behind [c] (rightParen (j+1) (decide (c=backslash ∧ e=false)) s) := by
  rw [rightParen]
  rcases h with rfl|⟨h1,h2⟩
  · simp
    rfl
  · cases e
    · simp [h1,h2]
      rfl
    · simp
      rfl

/-- Deeper parentheses are closed first. -/
theorem rightParen_add (j k : Nat) (e : Bool) (s : List UInt8) :
    rightParen (j+1+k+1) e s=(rightParen (j+1) e s).bind fun x =>
      behind (x.1++[rparen]) (rightParen (k+1) false x.2) := by
  induction s generalizing j e with
  | nil => rfl
  | cons c s ih =>
    by_cases hk : e=true ∨ c≠lparen ∧ c≠rparen
    · rw [rightParen_keep _ hk,rightParen_keep _ hk,ih,behind_bind]
    · obtain ⟨rfl,hc⟩ : e=false ∧ (c=lparen ∨ c=rparen) := by
        cases e
        · simp only [Bool.false_eq_true,false_or,not_and_or,not_not,ne_eq] at hk
          exact ⟨rfl,hk⟩
        · simp at hk
      rcases hc with rfl|rfl
      · rw [rightParen_open,rightParen_open,show j+1+k+1+1=j+1+1+k+1 by omega,ih,behind_bind]
      · cases j with
        | zero =>
          rw [rightParen_found,show 0+1+k+1=k+1+1 by omega,rightParen_close]
          rfl
        | succ j =>
          rw [rightParen_close,show j+1+1+k+1=j+1+k+1+1 by omega,rightParen_close,ih,behind_bind]

/-- A character that the search for a parenthesis passes over. -/
def inert (c : UInt8) : Bool := c != lparen && c != rparen && c != backslash

theorem findRightParen_inert {c : UInt8} (hc : inert c=true) (s : List UInt8) :
    findRightParen (c::s)=behind [c] (findRightParen s) := by
  simp only [inert,bne_iff_ne,Bool.and_eq_true] at hc
  rw [findRightParen,rightParen_keep 0 (.inr hc.1)]
  simp [hc]
  rfl

theorem findRightParen_rparen (s : List UInt8) : findRightParen (rparen::s)=some ([],s) :=
  rightParen_found s

theorem findRightParen_lparen (s : List UInt8) :
    findRightParen (lparen::s)=(findRightParen s).bind fun x =>
      behind (lparen::(x.1++[rparen])) (findRightParen x.2) := by
  rw [findRightParen,rightParen_open,rightParen_add 0 0,behind_bind]
  cases h : rightParen (0+1) false s with
  | none => simp [findRightParen,h,behind]
  | some x => simp [findRightParen,h,behind]

theorem findRightParen_backslash (c : UInt8) (s : List UInt8) :
    findRightParen (backslash::c::s)=behind [backslash,c] (findRightParen s) := by
  rw [findRightParen,rightParen_keep 0 (.inr (by decide)),decide_eq_true (by simp),
    rightParen_keep 0 (.inl rfl),decide_eq_false (by simp),behind_behind]
  rfl

/-- A string that the search for a parenthesis passes over, whatever follows. -/
def Passed (l : List UInt8) : Prop := ∀r,findRightParen (l++r)=behind l (findRightParen r)

theorem passed_nil : Passed [] := by
  intro r
  cases h : findRightParen r <;> simp [h,behind]

theorem Passed.append {l k : List UInt8} (hl : Passed l) (hk : Passed k) : Passed (l++k) := by
  intro r
  rw [List.append_assoc,hl,hk,behind_behind]

theorem passed_inert {l : List UInt8} (hl : ∀c∈l,inert c=true) : Passed l := by
  induction l with
  | nil => exact passed_nil
  | cons c l ih =>
    intro r
    rw [List.cons_append,findRightParen_inert (hl c List.mem_cons_self),
      ih (fun d hd => hl d (List.mem_cons_of_mem c hd)),behind_behind]
    rfl

theorem passed_escaped (c : UInt8) : Passed [backslash,c] := by
  intro r
  exact findRightParen_backslash c r

/-- The parenthesis after a string that is passed over is the one that is found. -/
theorem Passed.find {l : List UInt8} (h : Passed l) (r : List UInt8) :
    findRightParen (l++rparen::r)=some (l,r) := by
  rw [h,findRightParen_rparen]
  simp [behind]

theorem Passed.find_none {l : List UInt8} (h : Passed l) : findRightParen l=none := by
  have hn := h []
  rw [List.append_nil] at hn
  exact hn

theorem Passed.paren {l : List UInt8} (h : Passed l) : Passed (lparen::(l++[rparen])) := by
  intro r
  have hl : lparen::(l++[rparen])++r=lparen::(l++rparen::r) := by simp
  rw [hl,findRightParen_lparen,h.find]
  rfl

/-- What stands before the parenthesis that is found is passed over. -/
theorem passed_of_findRightParen {s a r : List UInt8} (h : findRightParen s=some (a,r)) :
    s=a++rparen::r ∧ Passed a := by
  induction hn : s.length using Nat.strong_induction_on generalizing s a r with
  | _ n ih =>
    cases s with
    | nil => cases h
    | cons c s =>
      rw [List.length_cons] at hn
      by_cases hc : inert c=true
      · rw [findRightParen_inert hc] at h
        obtain ⟨⟨a',r'⟩,ha,he⟩ := Option.map_eq_some_iff.mp h
        cases he
        obtain ⟨rfl,hp⟩ := ih _ (by omega) ha rfl
        exact ⟨rfl,(passed_inert (l := [c]) (by simpa using hc)).append hp⟩
      · have hs : c=lparen ∨ c=rparen ∨ c=backslash := by
          simp only [inert,bne_iff_ne,Bool.and_eq_true,not_and_or,not_not,ne_eq] at hc
          tauto
        rcases hs with rfl|rfl|rfl
        · rw [findRightParen_lparen] at h
          obtain ⟨⟨a₁,r₁⟩,h1,h2⟩ := Option.bind_eq_some_iff.mp h
          obtain ⟨⟨a₂,r₂⟩,h3,he⟩ := Option.map_eq_some_iff.mp h2
          cases he
          obtain ⟨rfl,hp1⟩ := ih _ (by omega) h1 rfl
          have hl : r₁.length<n := by
            simp only [List.length_append,List.length_cons] at hn
            omega
          obtain ⟨rfl,hp2⟩ := ih _ hl h3 rfl
          exact ⟨by simp,hp1.paren.append hp2⟩
        · rw [findRightParen_rparen] at h
          cases h
          exact ⟨rfl,passed_nil⟩
        · cases s with
          | nil => cases h
          | cons d s =>
            rw [findRightParen_backslash] at h
            rw [List.length_cons] at hn
            obtain ⟨⟨a',r'⟩,ha,he⟩ := Option.map_eq_some_iff.mp h
            cases he
            obtain ⟨rfl,hp⟩ := ih _ (by omega) ha rfl
            exact ⟨rfl,(passed_escaped d).append hp⟩

end Parentheses

section Spellings

theorem inert_of_descChar {c : UInt8} (h : descChar c=true) : inert c=true := by
  revert c
  apply forall_octet
  decide +kernel

theorem passed_desc {l : List UInt8} (h : ∀c∈l,descChar c=true) : Passed l :=
  passed_inert fun c hc => inert_of_descChar (h c hc)

theorem passed_one {c : UInt8} (h : inert c=true) : Passed [c] := passed_inert (by simpa using h)

theorem Spaces.passed {p : List UInt8} (h : Spaces p) : Passed p := by
  have hs : ∀c,ldapSpace c=true → inert c=true := by
    apply forall_octet
    decide +kernel
  exact passed_inert fun c hc => hs c (h c hc)

theorem Spelled.passed {s v : List UInt8} (h : Spelled s v) : Passed s := by
  have hplain : ∀c,special c=false → inert c=true := by
    apply forall_octet
    decide +kernel
  have hhex : ∀c,ldapHex c=true → inert c=true := by
    apply forall_octet
    decide +kernel
  induction h with
  | nil => exact passed_nil
  | @plain c s v hc h ih => exact (passed_one (hplain c hc)).append ih
  | @hex d e x y s v hd he h ih =>
    have hx : ldapHex e=true := by
      rw [← hex2value_isSome,he]
      rfl
    exact ((passed_escaped d).append (passed_one (hhex e hx))).append ih
  | @quoted d s v hd h ih => exact (passed_escaped d).append ih

theorem Pieces.passed {r final : List UInt8} {vs : List (List UInt8)} (h : Pieces r vs final) :
    Passed r := by
  induction h with
  | final h => exact h.passed
  | any h hv hr ih => exact h.passed.append ((passed_one (c := star) (by decide)).append ih)

theorem ExtSpelled.passed {x : ExtName} {n : List UInt8} (hx : x.Valid) (h : ExtSpelled x n) :
    Passed n := by
  have htype : Passed x.type := by
    by_cases ht : x.type=[]
    · rw [ht]
      exact passed_nil
    · exact passed_desc (descChar_of_ldapIsDesc (hx.type ht))
  have hrule : Passed x.rule := by
    by_cases hr : x.rule=[]
    · rw [hr]
      exact passed_nil
    · exact passed_desc (descChar_of_ldapIsOid (hx.rule hr))
  have hcolon : Passed [colon] := passed_one (by decide)
  cases h with
  | type t => exact htype
  | rule hr => exact htype.append (hcolon.append hrule)
  | dn hd => exact htype.append (hcolon.append (passed_desc (isDnWord_descChar hd)))
  | dnRule hd =>
    exact htype.append
      (hcolon.append ((passed_desc (isDnWord_descChar hd)).append (hcolon.append hrule)))

theorem ItemSpelled.passed {f : Filter} {s : List UInt8} (h : ItemSpelled f s) : Passed s := by
  have hequals : Passed [equals] := passed_one (by decide)
  have hstar : Passed [star] := passed_one (by decide)
  cases h with
  | @compare k t s v ht h =>
    have hk : Passed k.sign := by
      cases k with
      | equality => exact passed_nil
      | greaterOrEqual | lessOrEqual | approx => exact passed_one (by decide)
    exact (passed_desc (descChar_of_ldapIsDesc ht)).append
      (hk.append (hequals.append h.passed))
  | present ht =>
    exact (passed_desc (descChar_of_ldapIsDesc ht)).append (hequals.append hstar)
  | substrings ht h hr hs =>
    exact (passed_desc (descChar_of_ldapIsDesc ht)).append
      (hequals.append (h.passed.append (hstar.append hr.passed)))
  | extensible hx hn h =>
    exact (hn.passed hx).append
      ((passed_one (c := colon) (by decide)).append (hequals.append h.passed))

/-- An item starts with a letter, a digit or a colon. -/
theorem ItemSpelled.head {f : Filter} {s : List UInt8} (h : ItemSpelled f s) :
    ∃c r,s=c::r ∧ (descChar c=true ∨ c=colon) := by
  have hdesc : ∀{t : List UInt8} (r : List UInt8),ldapIsDesc t=true →
      ∃c r',t++r=c::r' ∧ (descChar c=true ∨ c=colon) := by
    intro t r ht
    cases t with
    | nil => cases ht
    | cons c t =>
      exact ⟨c,t++r,rfl,.inl (descChar_of_ldapIsDesc ht c List.mem_cons_self)⟩
  cases h with
  | compare ht h => exact hdesc _ ht
  | present ht => exact hdesc _ ht
  | substrings ht h hr hs => exact hdesc _ ht
  | @extensible x n s v hx hn h =>
    have hx' : ∀r,∃c r',x.type++colon::r=c::r' ∧ (descChar c=true ∨ c=colon) := by
      intro r
      by_cases ht : x.type=[]
      · exact ⟨colon,r,by simp [ht],.inr rfl⟩
      · exact hdesc _ (hx.type ht)
    cases hn with
    | type t => exact hx' _
    | rule hr | dn hd | dnRule hd =>
      rw [List.append_assoc]
      exact hx' _

mutual

theorem ParenSpelled.passed {f : Filter} {s : List UInt8} : ParenSpelled f s →
    ∃t,s=lparen::(t++[rparen]) ∧ Passed t
  | .and (p := p) (s := s) hp h => ⟨p++ampersand::s,by simp,
      hp.passed.append ((passed_one (c := ampersand) (by decide)).append h.passed)⟩
  | .or (p := p) (s := s) hp h => ⟨p++bar::s,by simp,
      hp.passed.append ((passed_one (c := bar) (by decide)).append h.passed)⟩
  | .not (p := p) (q := q) (s := s) hp hq h => by
      obtain ⟨t,rfl,ht⟩ := h.passed
      exact ⟨p++bang::(q++lparen::(t++[rparen])),by simp,hp.passed.append
        ((passed_one (c := bang) (by decide)).append (hq.passed.append ht.paren))⟩
  | .item (p := p) (s := s) hp h => ⟨p++s,by simp,hp.passed.append h.passed⟩

theorem ListSpelled.passed {fs : List Filter} {s : List UInt8} : ListSpelled fs s → Passed s
  | .nil hp => hp.passed
  | .cons hp h hs => by
      obtain ⟨t,rfl,ht⟩ := h.passed
      exact hp.passed.append (ht.paren.append hs.passed)

end

end Spellings

section Rounds

variable {w : Word} {below : List UInt8 → UInt8}

theorem dropWhile_spaces {p s : List UInt8} (hp : Spaces p)
    (hs : ∀c r,s=c::r → ldapSpace c=false) : (p++s).dropWhile ldapSpace=s := by
  induction p with
  | nil =>
    cases s with
    | nil => rfl
    | cons c r => simp [hs c r rfl]
  | cons c p ih =>
    rw [List.cons_append,List.dropWhile_cons_of_pos (hp c List.mem_cons_self)]
    exact ih fun d hd => hp d (List.mem_cons_of_mem c hd)

theorem takeWhile_spaces (s : List UInt8) : Spaces (s.takeWhile ldapSpace) := by
  intro c hc
  exact List.mem_takeWhile_imp hc

theorem putFilterRound_parens {put : List UInt8 → Writer → Option Writer} {c : UInt8}
    {s : List UInt8} {parens : Int} {b : Writer} {x : List UInt8 × Int × Writer}
    (h : putFilterRound w below put c s parens b=some x) : x.2.1≤parens := by
  rw [putFilterRound] at h
  split at h
  · obtain ⟨y,-,rfl⟩ := Option.map_eq_some_iff.mp h
    exact Int.le_refl _
  · split at h
    · obtain ⟨y,-,rfl⟩ := Option.map_eq_some_iff.mp h
      show parens-1≤parens
      omega
    · split at h
      · cases h
        exact Int.le_refl _
      · obtain ⟨y,-,rfl⟩ := Option.map_eq_some_iff.mp h
        exact Int.le_refl _

/-- A parenthesis that closes too early is never made up for. -/
theorem putFilterLoop_parens {put : List UInt8 → Writer → Option Writer} {n : Nat}
    {s : List UInt8} {parens : Int} {b : Writer} {x : List UInt8 × Int × Writer}
    (hp : parens<0) (h : putFilterLoop w below put n s parens b=some x) : x.2.1<0 := by
  induction n generalizing s parens b with
  | zero =>
    cases h
    exact hp
  | succ n ih =>
    cases s with
    | nil =>
      cases h
      exact hp
    | cons c s =>
      obtain ⟨y,hy,h⟩ := Option.bind_eq_some_iff.mp h
      have hle := putFilterRound_parens hy
      rw [if_neg (by omega)] at h
      exact ih (by omega) h

theorem putFilterWithin_lparen (depth : Nat) (s : List UInt8) (b : Writer) :
    putFilterWithin w below (depth+1) (lparen::s) b=
      (putParen w below (putFilterWithin w below depth) s b).bind fun x =>
        if x.1=[] then some x.2 else none := by
  rw [putFilterWithin,List.length_cons,putFilterLoop,putFilterRound,if_pos rfl]
  cases putParen w below (putFilterWithin w below depth) s b with
  | none => rfl
  | some x => simp

theorem putFilterWithin_rparen (depth : Nat) (s : List UInt8) (b : Writer) :
    putFilterWithin w below depth (rparen::s) b=none := by
  cases depth with
  | zero => rfl
  | succ depth =>
    have hl : rparen≠lparen := by decide
    rw [putFilterWithin,List.length_cons,putFilterLoop,putFilterRound,if_neg hl,if_pos rfl]
    cases berPrintf w b [.finish] with
    | none => rfl
    | some b =>
      simp only [Option.map_some,Option.bind_some,Int.zero_sub]
      rw [if_neg (by decide)]
      cases h : putFilterLoop w below (putFilterWithin w below depth) s.length s (-1) b with
      | none => rfl
      | some x =>
        have hx := putFilterLoop_parens (by decide) h
        rw [Option.bind_some,if_pos (.inl (by omega))]

theorem putFilterWithin_space (depth : Nat) (s : List UInt8) (b : Writer) :
    putFilterWithin w below (depth+1) (0x20::s) b=if s=[] then some b else none := by
  have h : (0x20 : UInt8)≠lparen ∧ (0x20 : UInt8)≠rparen := by decide
  rw [putFilterWithin,List.length_cons,putFilterLoop,putFilterRound]
  simp [h]

theorem putFilterWithin_item (depth : Nat) {c : UInt8} (s : List UInt8) (b : Writer)
    (hl : c≠lparen) (hr : c≠rparen) (hs : c≠0x20) :
    putFilterWithin w below (depth+1) (c::s) b=putSimpleFilter w below (c::s) b := by
  rw [putFilterWithin,List.length_cons,putFilterLoop,putFilterRound]
  cases putSimpleFilter w below (c::s) b <;> simp [hl,hr,hs]

end Rounds

section Completeness

variable {w : Word} {below : List UInt8 → UInt8}

theorem puts_complex (t : Nat) (fs : List Field) :
    (Field.group false (some t) fs).puts=[.tag t,.beginSeq]++(Field.putsAll fs++[.finish]) := by
  simp [Field.puts,setTag,beginGroup]

theorem putComplexFilter_eq {put : List UInt8 → Writer → Option Writer} {inner next : List UInt8}
    {tag : Nat} {fs : List Field} (hp : Passed inner)
    (h : ∀b,putFilterList put inner tag b=berPrintf w b (Field.putsAll fs)) (b : Writer) :
    putComplexFilter w put (inner++rparen::next) tag b=
      (berPrintf w b (Field.group false (some tag) fs).puts).map fun b => (next,b) := by
  rw [putComplexFilter,hp.find,puts_complex,berPrintf_append]
  simp only [Option.bind_eq_bind,Option.bind_some,h,berPrintf_append,berPrintf_debugNull]
  cases berPrintf w b [.tag tag,.beginSeq] with
  | none => rfl
  | some b =>
    simp only [Option.bind_some]
    cases berPrintf w b (Field.putsAll fs) with
    | none => rfl
    | some b =>
      simp only [Option.bind_some]
      cases berPrintf w b [.finish] <;> rfl

/-- The signs of the filters with filters in them. -/
def complexSigns : List (UInt8 × Nat) :=
  [(ampersand,ldapFilterAnd),(bar,ldapFilterOr),(bang,ldapFilterNot)]

theorem putParen_complex {put : List UInt8 → Writer → Option Writer} {c : UInt8} {tag : Nat}
    (hc : (c,tag)∈complexSigns) {p : List UInt8} (hp : Spaces p) (s : List UInt8) (b : Writer) :
    putParen w below put (p++c::s) b=putComplexFilter w put s tag b := by
  have hbar : bar≠ampersand := by decide
  have hbang : bang≠ampersand ∧ bang≠bar := by decide
  simp only [complexSigns,List.mem_cons,Prod.mk.injEq,List.not_mem_nil,or_false] at hc
  rcases hc with ⟨rfl,rfl⟩|⟨rfl,rfl⟩|⟨rfl,rfl⟩
  · rw [putParen,dropWhile_spaces hp (by rintro c r ⟨⟩; decide)]
    simp
  · rw [putParen,dropWhile_spaces hp (by rintro c r ⟨⟩; decide)]
    simp [hbar]
  · rw [putParen,dropWhile_spaces hp (by rintro c r ⟨⟩; decide)]
    simp [hbang]

theorem putFilterWithin_complex {c : UInt8} {tag : Nat} (hc : (c,tag)∈complexSigns)
    {p s : List UInt8} (hp : Spaces p) (hs : Passed s) {fs : List Field} {depth : Nat}
    (h : ∀b,putFilterList (putFilterWithin w below depth) s tag b=
      berPrintf w b (Field.putsAll fs)) (b : Writer) :
    putFilterWithin w below (depth+1) (lparen::(p++c::(s++[rparen]))) b=
      berPrintf w b (Field.group false (some tag) fs).puts := by
  rw [putFilterWithin_lparen,putParen_complex hc hp,putComplexFilter_eq hs h]
  cases berPrintf w b (Field.group false (some tag) fs).puts <;> simp

theorem ParenSpelled.length_pos {f : Filter} {s : List UInt8} (h : ParenSpelled f s) :
    2≤ s.length := by
  obtain ⟨t,rfl,-⟩ := h.passed
  simp

/-- One filter of a list. -/
theorem putFilters_cons {put : List UInt8 → Writer → Option Writer} {tag n : Nat} {found : Bool}
    {f : Filter} {p s r : List UInt8} (hp : Spaces p) (hs : ParenSpelled f s) (b : Writer) :
    putFilters put tag (n+1) found (p++(s++r)) b=(put s b).bind fun b =>
      if tag=ldapFilterNot then some (r,true,b) else putFilters put tag n true r b := by
  obtain ⟨t,rfl,ht⟩ := hs.passed
  have hd : (p++(lparen::(t++[rparen])++r)).dropWhile ldapSpace=lparen::(t++rparen::r) := by
    rw [dropWhile_spaces hp (by rintro c r' ⟨⟩; decide)]
    simp
  rw [putFilters,hd]
  simp only [ht.find]

theorem putFilters_spaces {put : List UInt8 → Writer → Option Writer} {tag : Nat}
    {p : List UInt8} (hp : Spaces p) {n : Nat} (hn : p.length≤n) (found : Bool) (b : Writer) :
    putFilters put tag n found p b=some ([],found,b) := by
  cases n with
  | zero =>
    rw [List.eq_nil_of_length_eq_zero (by omega : p.length=0)]
    rfl
  | succ n =>
    have hd : p.dropWhile ldapSpace=[] := by
      have h := dropWhile_spaces (s := []) hp (by simp)
      rwa [List.append_nil] at h
    rw [putFilters,hd]

theorem putFilterList_eq {put : List UInt8 → Writer → Option Writer} {tag : Nat}
    (ht : tag≠ldapFilterNot) (s : List UInt8) (b : Writer) :
    putFilterList put s tag b=(putFilters put tag s.length false s b).map fun x => x.2.2 := by
  rw [putFilterList]
  cases putFilters put tag s.length false s b <;> simp [ht]

mutual

/-- A filter that is spelled as it should be is written. -/
theorem putFilterWithin_spelled {f : Filter} {s : List UInt8} : ParenSpelled f s →
    ∀(depth : Nat) (b : Writer),s.length≤depth →
      putFilterWithin w below depth s b=berPrintf w b f.field.puts
  | .and (p := p) (s := s) hp h => by
    intro depth b hd
    simp only [List.length_cons,List.length_append] at hd
    obtain ⟨depth,rfl⟩ := Nat.exists_eq_succ_of_ne_zero (by omega : depth≠0)
    rw [Filter.field]
    refine putFilterWithin_complex (by decide) hp h.passed ?_ b
    intro b
    rw [putFilterList_eq (by decide)]
    exact putFilters_spelled h _ depth _ (by decide) (by omega) (by omega) false b
  | .or (p := p) (s := s) hp h => by
    intro depth b hd
    simp only [List.length_cons,List.length_append] at hd
    obtain ⟨depth,rfl⟩ := Nat.exists_eq_succ_of_ne_zero (by omega : depth≠0)
    rw [Filter.field]
    refine putFilterWithin_complex (by decide) hp h.passed ?_ b
    intro b
    rw [putFilterList_eq (by decide)]
    exact putFilters_spelled h _ depth _ (by decide) (by omega) (by omega) false b
  | .not (f := f) (p := p) (q := q) (s := s) hp hq h => by
    intro depth b hd
    simp only [List.length_cons,List.length_append] at hd
    obtain ⟨depth,rfl⟩ := Nat.exists_eq_succ_of_ne_zero (by omega : depth≠0)
    rw [Filter.field]
    have hlist : ∀b,putFilterList (putFilterWithin w below depth) (q++s) ldapFilterNot b=
        berPrintf w b (Field.putsAll [f.field]) := by
      intro b
      have hpos := h.length_pos
      obtain ⟨n,hn⟩ := Nat.exists_eq_succ_of_ne_zero
        (by rw [List.length_append]; omega : (q++s).length≠0)
      have hc : putFilters (putFilterWithin w below depth) ldapFilterNot (n+1) false
          (q++(s++[])) b=_ := putFilters_cons hq h b
      rw [List.append_nil] at hc
      rw [putFilterList,hn,hc,putFilterWithin_spelled h _ _ (by omega),Field.putsAll,
        Field.putsAll,List.append_nil]
      cases berPrintf w b f.field.puts <;> simp
    have hpassed : Passed (q++s) := by
      obtain ⟨t,rfl,ht⟩ := h.passed
      exact hq.passed.append ht.paren
    exact putFilterWithin_complex (by decide) hp hpassed hlist b
  | .item (p := p) (s := s) hp h => by
    intro depth b hd
    simp only [List.length_cons,List.length_append] at hd
    obtain ⟨depth,rfl⟩ := Nat.exists_eq_succ_of_ne_zero (by omega : depth≠0)
    obtain ⟨c,r,rfl,hc⟩ := h.head
    have hchar : ldapSpace c=false ∧ c≠ampersand ∧ c≠bar ∧ c≠bang ∧ c≠lparen := by
      rcases hc with hc|rfl
      · obtain ⟨-,-,-,-,-,h1,h2,h3,h4,h5⟩ := not_descChar hc
        refine ⟨h2,h3,h4,h5,?_⟩
        rintro rfl
        cases h1
      · decide
    have hdrop := dropWhile_spaces (s := c::(r++[rparen])) hp
      (by rintro d r' ⟨⟩; exact hchar.1)
    have hfind := h.passed.find []
    rw [putFilterWithin_lparen,putParen,List.cons_append,hdrop]
    rw [List.cons_append] at hfind
    simp only [hchar,↓reduceIte,hfind,putSimpleFilter_spelled h]
    cases berPrintf w b f.field.puts <;> simp

theorem putFilters_spelled {fs : List Filter} {s : List UInt8} : ListSpelled fs s →
    ∀tag depth n : Nat,tag≠ldapFilterNot → s.length≤depth → s.length≤n →
      ∀(found : Bool) (b : Writer),
        (putFilters (putFilterWithin w below depth) tag n found s b).map (fun x => x.2.2)=
          berPrintf w b (Field.putsAll (Filter.fields fs))
  | .nil (p := p) hp => by
    intro tag depth n ht hd hn found b
    rw [putFilters_spaces hp hn]
    rfl
  | .cons (p := p) (s := s) (r := r) hp h hs => by
    intro tag depth n ht hd hn found b
    have hpos := h.length_pos
    simp only [List.length_append] at hd hn
    obtain ⟨n,rfl⟩ := Nat.exists_eq_succ_of_ne_zero (by omega : n≠0)
    have ih := putFilters_spelled hs tag depth n ht (by omega) (by omega) true
    rw [putFilters_cons hp h,putFilterWithin_spelled h _ _ (by omega),Filter.fields,
      Field.putsAll,berPrintf_append]
    cases berPrintf w b _ with
    | none => rfl
    | some b =>
      simp only [Option.bind_some,ht,↓reduceIte]
      exact ih b

end

end Completeness

section Soundness

variable {w : Word} {below : List UInt8 → UInt8}

/-- What is accepted: a filter, or nothing at all. -/
def Accepted (s : List UInt8) : Prop := s=[] ∨ s=[0x20] ∨ ∃f,FilterSpelled f s

/-- Every string that `put` writes is accepted. -/
def Strict (put : List UInt8 → Writer → Option Writer) : Prop :=
  ∀s b b',put s b=some b' → Accepted s

theorem FilterSpelled.head {f : Filter} {s : List UInt8} (h : FilterSpelled f s) :
    ∃c r,s=c::r ∧ (c=lparen ∨ descChar c=true ∨ c=colon) := by
  cases h with
  | paren h =>
    obtain ⟨t,rfl,-⟩ := h.passed
    exact ⟨_,_,rfl,.inl rfl⟩
  | bare h =>
    obtain ⟨c,r,rfl,hc⟩ := h.head
    exact ⟨c,r,rfl,.inr hc⟩

theorem accepted_lparen {s : List UInt8} (h : Accepted (lparen::s)) :
    ∃f,ParenSpelled f (lparen::s) := by
  rcases h with h|h|⟨f,hf⟩
  · cases h
  · exact absurd (List.cons.inj h).1 (by decide)
  · cases hf with
    | paren h => exact ⟨f,h⟩
    | bare h =>
      obtain ⟨c,r,he,hc⟩ := h.head
      cases he
      rcases hc with hc|hc
      · exact absurd hc (by decide)
      · exact absurd hc (by decide)

theorem not_accepted_backslash (s : List UInt8) : ¬Accepted (backslash::s) := by
  intro h
  rcases h with h|h|⟨f,hf⟩
  · cases h
  · exact absurd (List.cons.inj h).1 (by decide)
  · obtain ⟨c,r,he,hc⟩ := hf.head
    cases he
    exact absurd hc (by decide)

/-- In a list that is passed over, each filter starts with a parenthesis. -/
theorem head_lparen {put : List UInt8 → Writer → Option Writer} (hput : Strict put)
    {c : UInt8} {s inner next : List UInt8} {b b' : Writer} (hn : findRightParen (c::s)=none)
    (hf : findRightParen s=some (inner,next)) (h : put (c::(inner++[rparen])) b=some b') :
    c=lparen ∧ findRightParen next=none := by
  by_cases hc : inert c=true
  · rw [findRightParen_inert hc,hf] at hn
    cases hn
  · have hs : c=lparen ∨ c=rparen ∨ c=backslash := by
      simp only [inert,bne_iff_ne,Bool.and_eq_true,not_and_or,not_not,ne_eq] at hc
      tauto
    rcases hs with rfl|rfl|rfl
    · rw [findRightParen_lparen,hf,Option.bind_some] at hn
      exact ⟨rfl,Option.map_eq_none_iff.mp hn⟩
    · rw [findRightParen_rparen] at hn
      cases hn
    · exact absurd (hput _ _ _ h) (not_accepted_backslash _)

/-- One round of the loop over a list. -/
theorem putFilters_round {put : List UInt8 → Writer → Option Writer} (hput : Strict put)
    {tag n : Nat} {found : Bool} {s : List UInt8} {b : Writer} {x : List UInt8 × Bool × Writer}
    (hn : findRightParen s=none) (h : putFilters put tag (n+1) found s b=some x) :
    (Spaces s ∧ x=([],found,b)) ∨ ∃p t r f b',Spaces p ∧ ParenSpelled f t ∧ s=p++(t++r) ∧
      findRightParen r=none ∧
      (if tag=ldapFilterNot then some (r,true,b') else putFilters put tag n true r b')=some x := by
  have hsplit := List.takeWhile_append_dropWhile (p := ldapSpace) (l := s)
  have hp := takeWhile_spaces s
  rw [putFilters] at h
  cases hd : s.dropWhile ldapSpace with
  | nil =>
    rw [hd] at h hsplit
    rw [List.append_nil] at hsplit
    cases h
    exact .inl ⟨hsplit ▸ hp,rfl⟩
  | cons c t =>
    rw [hd] at h hsplit
    rw [← hsplit,hp.passed] at hn
    have hn' := Option.map_eq_none_iff.mp hn
    simp only at h
    cases hf : findRightParen t with
    | none =>
      rw [hf] at h
      cases h
    | some y =>
      obtain ⟨inner,next⟩ := y
      rw [hf] at h
      obtain ⟨b',hb,hx⟩ := Option.bind_eq_some_iff.mp h
      obtain ⟨rfl,hnext⟩ := head_lparen hput hn' hf hb
      obtain ⟨f,hspell⟩ := accepted_lparen (hput _ _ _ hb)
      obtain ⟨rfl,-⟩ := passed_of_findRightParen hf
      exact .inr ⟨_,_,next,f,b',hp,hspell,hsplit.symm.trans (by simp),hnext,hx⟩

theorem listSpelled_of_putFilters {put : List UInt8 → Writer → Option Writer}
    (hput : Strict put) {tag : Nat} (ht : tag≠ldapFilterNot) {n : Nat} {found : Bool}
    {s : List UInt8} {b : Writer} {x : List UInt8 × Bool × Writer} (hl : s.length≤n)
    (hn : findRightParen s=none) (h : putFilters put tag n found s b=some x) :
    ∃fs,ListSpelled fs s := by
  induction n generalizing found s b with
  | zero =>
    rw [List.eq_nil_of_length_eq_zero (by omega : s.length=0)]
    exact ⟨[],.nil (by simp [Spaces])⟩
  | succ n ih =>
    rcases putFilters_round hput hn h with ⟨hs,-⟩|⟨p,t,r,f,b',hp,hf,rfl,hr,h⟩
    · exact ⟨[],.nil hs⟩
    · rw [if_neg ht] at h
      have hpos := hf.length_pos
      simp only [List.length_append] at hl
      obtain ⟨fs,hfs⟩ := ih (by omega) hr h
      exact ⟨f::fs,.cons hp hf hfs⟩

theorem listSpelled_of_putFilterList {put : List UInt8 → Writer → Option Writer}
    (hput : Strict put) {tag : Nat} (ht : tag≠ldapFilterNot) {s : List UInt8} {b b' : Writer}
    (hn : findRightParen s=none) (h : putFilterList put s tag b=some b') :
    ∃fs,ListSpelled fs s := by
  rw [putFilterList_eq ht] at h
  obtain ⟨x,hx,-⟩ := Option.map_eq_some_iff.mp h
  exact listSpelled_of_putFilters hput ht (Nat.le_refl _) hn hx

theorem parenSpelled_of_not {put : List UInt8 → Writer → Option Writer} (hput : Strict put)
    {s : List UInt8} {b b' : Writer} (hn : findRightParen s=none)
    (h : putFilterList put s ldapFilterNot b=some b') :
    ∃p t f,Spaces p ∧ ParenSpelled f t ∧ s=p++t := by
  obtain ⟨x,hx,h⟩ := Option.bind_eq_some_iff.mp h
  cases hl : s.length with
  | zero =>
    rw [hl] at hx
    cases hx
    simp at h
  | succ n =>
    rw [hl] at hx
    rcases putFilters_round hput hn hx with ⟨-,rfl⟩|⟨p,t,r,f,b₁,hp,hf,rfl,-,hr⟩
    · simp at h
    · rw [if_pos rfl] at hr
      cases hr
      cases r with
      | nil => exact ⟨p,t,f,hp,hf,by simp⟩
      | cons c r => simp at h

theorem putComplexFilter_some {put : List UInt8 → Writer → Option Writer} {s : List UInt8}
    {tag : Nat} {b b' : Writer} (h : putComplexFilter w put s tag b=some ([],b')) :
    ∃inner b₁ b₂,s=inner++[rparen] ∧ findRightParen inner=none ∧
      putFilterList put inner tag b₁=some b₂ := by
  simp only [putComplexFilter,Option.bind_eq_bind,Option.bind_eq_some_iff] at h
  obtain ⟨b₁,-,⟨inner,next⟩,hf,b₂,hl,b₃,-,he⟩ := h
  cases he
  obtain ⟨rfl,hp⟩ := passed_of_findRightParen hf
  exact ⟨inner,b₁,b₂,rfl,hp.find_none,hl⟩

/-- What is written between parentheses is spelled as it should be. -/
theorem parenSpelled_of_putParen {put : List UInt8 → Writer → Option Writer} (hput : Strict put)
    {s : List UInt8} {b b' : Writer} (h : putParen w below put s b=some ([],b')) :
    ∃f,ParenSpelled f (lparen::s) := by
  have hsplit := List.takeWhile_append_dropWhile (p := ldapSpace) (l := s)
  have hp := takeWhile_spaces s
  rw [putParen] at h
  cases hd : s.dropWhile ldapSpace with
  | nil =>
    rw [hd] at h
    cases h
  | cons d t =>
    rw [hd] at h hsplit
    rw [← hsplit]
    simp only at h
    split at h
    · rename_i hc
      obtain ⟨inner,b₁,b₂,rfl,hn,hl⟩ := putComplexFilter_some h
      obtain ⟨fs,hfs⟩ := listSpelled_of_putFilterList hput (by decide) hn hl
      rw [hc]
      exact ⟨_,.and hp hfs⟩
    · split at h
      · rename_i hc
        obtain ⟨inner,b₁,b₂,rfl,hn,hl⟩ := putComplexFilter_some h
        obtain ⟨fs,hfs⟩ := listSpelled_of_putFilterList hput (by decide) hn hl
        rw [hc]
        exact ⟨_,.or hp hfs⟩
      · split at h
        · rename_i hc
          obtain ⟨inner,b₁,b₂,rfl,hn,hl⟩ := putComplexFilter_some h
          obtain ⟨p,t,f,hq,hf,rfl⟩ := parenSpelled_of_not hput hn hl
          rw [hc]
          exact ⟨_,.not hp hq hf⟩
        · split at h
          · cases h
          · cases hf : findRightParen (d::t) with
            | none =>
              rw [hf] at h
              cases h
            | some y =>
              obtain ⟨item,next⟩ := y
              rw [hf] at h
              obtain ⟨b₁,hb,he⟩ := Option.map_eq_some_iff.mp h
              cases he
              obtain ⟨f,hitem⟩ := itemSpelled_of_putSimpleFilter hb
              rw [(passed_of_findRightParen hf).1]
              exact ⟨f,.item hp hitem⟩

/-- What is written is accepted. -/
theorem strict_putFilterWithin (depth : Nat) : Strict (putFilterWithin w below depth) := by
  induction depth with
  | zero =>
    intro s b b' h
    cases h
  | succ depth ih =>
    intro s b b' h
    cases s with
    | nil => exact .inl rfl
    | cons c s =>
      by_cases hl : c=lparen
      · rw [hl] at h ⊢
        rw [putFilterWithin_lparen] at h
        obtain ⟨⟨r,b₁⟩,h1,h2⟩ := Option.bind_eq_some_iff.mp h
        split at h2
        · rename_i hr
          cases hr
          obtain ⟨f,hf⟩ := parenSpelled_of_putParen ih h1
          exact .inr (.inr ⟨f,.paren hf⟩)
        · cases h2
      · by_cases hr : c=rparen
        · rw [hr,putFilterWithin_rparen] at h
          cases h
        · by_cases hs : c=0x20
          · rw [hs,putFilterWithin_space] at h
            split at h
            · rename_i hnil
              rw [hs,hnil]
              exact .inr (.inl rfl)
            · cases h
          · rw [putFilterWithin_item depth s b hl hr hs] at h
            obtain ⟨f,hf⟩ := itemSpelled_of_putSimpleFilter h
            exact .inr (.inr ⟨f,.bare hf⟩)

end Soundness

section Results

variable {w : Word} {below : List UInt8 → UInt8}

theorem FilterSpelled.put {f : Filter} {s : List UInt8} (h : FilterSpelled f s) (b : Writer) :
    ldapPvtPutFilter w below s b=berPrintf w b f.field.puts := by
  cases h with
  | paren h => exact putFilterWithin_spelled h _ b (by omega)
  | bare h =>
    obtain ⟨c,r,rfl,hc⟩ := h.head
    have hchar : c≠lparen ∧ c≠rparen ∧ c≠0x20 := by
      rcases hc with hc|rfl
      · refine ⟨?_,?_,?_⟩
        · rintro rfl
          exact absurd hc (by decide)
        · rintro rfl
          exact absurd hc (by decide)
        · rintro rfl
          exact absurd hc (by decide)
      · decide
    rw [ldapPvtPutFilter,putFilterWithin_item _ r b hchar.1 hchar.2.1 hchar.2.2,
      putSimpleFilter_spelled h]

/-- A string is accepted, and what it spells is written, or it is an error. -/
theorem ldapPvtPutFilter_cases (w : Word) (below : List UInt8 → UInt8) (s : List UInt8) :
    (∃fs : List Field,(((s=[] ∨ s=[0x20]) ∧ fs=[]) ∨ ∃f,FilterSpelled f s ∧ fs=[f.field]) ∧
      ∀b,ldapPvtPutFilter w below s b=berPrintf w b (Field.putsAll fs)) ∨
    (¬Accepted s ∧ ∀b,ldapPvtPutFilter w below s b=none) := by
  by_cases ha : Accepted s
  · rcases ha with rfl|rfl|⟨f,hf⟩
    · exact .inl ⟨[],.inl ⟨.inl rfl,rfl⟩,fun _ => rfl⟩
    · refine .inl ⟨[],.inl ⟨.inr rfl,rfl⟩,?_⟩
      intro b
      rw [ldapPvtPutFilter,putFilterWithin_space]
      rfl
    · refine .inl ⟨[f.field],.inr ⟨f,hf,rfl⟩,?_⟩
      intro b
      rw [hf.put,Field.putsAll,Field.putsAll,List.append_nil]
  · refine .inr ⟨ha,?_⟩
    intro b
    cases h : ldapPvtPutFilter w below s b with
    | none => rfl
    | some b' => exact absurd (strict_putFilterWithin _ _ _ _ h) ha

end Results

end TiLdap.OpenLdap
