import TiLdap.OpenLdap.FilterParsing

namespace TiLdap.OpenLdap

open Framework Lber

def ExtName.print (x : ExtName) : List UInt8 :=
  x.type++((if x.dn then colon::[0x64,0x6e] else [])++if x.rule=[] then [] else colon::x.rule)

mutual

/-- A filter as a string, with its values escaped. -/
def Filter.print : Filter → List UInt8
  | .and fs => lparen::(ampersand::(Filter.printAll fs++[rparen]))
  | .or fs => lparen::(bar::(Filter.printAll fs++[rparen]))
  | .not f => lparen::(bang::(f.print++[rparen]))
  | .compare k type value =>
      lparen::(type++(k.sign++equals::ldapBv2escapedFilterValue value)++[rparen])
  | .present type => lparen::(type++[equals,star]++[rparen])
  | .substrings type initial any final =>
      lparen::(type++equals::(ldapBv2escapedFilterValue initial++star::
        (any.flatMap (fun l => ldapBv2escapedFilterValue l++[star])++
          ldapBv2escapedFilterValue final))++[rparen])
  | .extensible x value =>
      lparen::(x.print++colon::equals::ldapBv2escapedFilterValue value++[rparen])

def Filter.printAll : List Filter → List UInt8
  | [] => []
  | f::fs => f.print++Filter.printAll fs

end

mutual

/-- Types are descriptions and rules object identifiers, no piece in the middle is empty, there
is a piece at all, and a rule is not taken for `dn`. -/
def Filter.valid : Filter → Bool
  | .and fs => Filter.validAll fs
  | .or fs => Filter.validAll fs
  | .not f => f.valid
  | .compare _ type _ => ldapIsDesc type
  | .present type => ldapIsDesc type
  | .substrings type initial any final =>
      ldapIsDesc type && any.all (fun l => !l.isEmpty) &&
        !(initial.isEmpty && any.isEmpty && final.isEmpty)
  | .extensible x _ => !(x.type.isEmpty && x.rule.isEmpty) &&
      (x.type.isEmpty || ldapIsDesc x.type) && (x.rule.isEmpty || ldapIsOid x.rule) &&
        (x.dn || !isDnWord x.rule)

def Filter.validAll : List Filter → Bool
  | [] => true
  | f::fs => f.valid && Filter.validAll fs

end

section Lemmas

theorem spaces_nil : Spaces [] := by simp [Spaces]

theorem spelled_ldapBv2escapedFilterValue (v : List UInt8) :
    Spelled (ldapBv2escapedFilterValue v) v := by
  rw [ldapBv2escapedFilterValue_eq]
  exact spelled_escape v

theorem pieces_print {any : List (List UInt8)} (h : ∀l∈any,l≠[]) (final : List UInt8) :
    Pieces (any.flatMap (fun l => ldapBv2escapedFilterValue l++[star])++
      ldapBv2escapedFilterValue final) any final := by
  induction any with
  | nil => exact .final (spelled_ldapBv2escapedFilterValue final)
  | cons l any ih =>
    have hp := Pieces.any (spelled_ldapBv2escapedFilterValue l) (h l List.mem_cons_self)
      (ih fun k hk => h k (List.mem_cons_of_mem l hk))
    simpa using hp

theorem escape_eq_nil_iff (v : List UInt8) : ldapBv2escapedFilterValue v=[] ↔ v=[] :=
  (spelled_ldapBv2escapedFilterValue v).eq_nil_iff.symm

theorem extSpelled_print {x : ExtName} (h : (x.dn || !isDnWord x.rule)=true) :
    ExtSpelled x x.print := by
  obtain ⟨type,rule,dn⟩ := x
  have hdn : isDnWord [0x64,0x6e]=true := by decide
  rw [ExtName.print]
  by_cases hr : rule=[]
  · cases dn with
    | false => simpa [hr] using ExtSpelled.type type
    | true => simpa [hr] using ExtSpelled.dn (t := type) hdn
  · cases dn with
    | false =>
      have hw : isDnWord rule=false := by simpa using h
      simpa [hr] using ExtSpelled.rule (t := type) hw
    | true => simpa [hr] using ExtSpelled.dnRule (t := type) (r := rule) hdn

theorem valid_substrings {type initial final : List UInt8} {any : List (List UInt8)}
    (h : (Filter.substrings type initial any final).valid=true) :
    ldapIsDesc type=true ∧ (∀l∈any,l≠[]) ∧ ¬(initial=[] ∧ any=[] ∧ final=[]) := by
  simp only [Filter.valid,Bool.and_eq_true,Bool.not_eq_true',List.all_eq_true,
    List.isEmpty_eq_false_iff,Bool.and_eq_false_iff] at h
  refine ⟨h.1.1,h.1.2,?_⟩
  rintro ⟨h1,h2,h3⟩
  simp [h1,h2,h3] at h

theorem valid_extensible {x : ExtName} {value : List UInt8}
    (h : (Filter.extensible x value).valid=true) :
    x.Valid ∧ (x.dn || !isDnWord x.rule)=true := by
  simp only [Filter.valid,Bool.and_eq_true,Bool.not_eq_true',Bool.or_eq_true,
    List.isEmpty_iff,Bool.and_eq_false_iff,List.isEmpty_eq_false_iff] at h
  refine ⟨⟨h.1.1.1,fun ht => h.1.1.2.resolve_left ht,fun hr => h.1.2.resolve_left hr⟩,?_⟩
  simpa using h.2

mutual

theorem Filter.parenSpelled_print : ∀f : Filter,f.valid=true → ParenSpelled f f.print
  | .and fs => by
    intro h
    rw [Filter.valid] at h
    rw [Filter.print]
    exact .and spaces_nil (Filter.listSpelled_printAll fs h)
  | .or fs => by
    intro h
    rw [Filter.valid] at h
    rw [Filter.print]
    exact .or spaces_nil (Filter.listSpelled_printAll fs h)
  | .not f => by
    intro h
    rw [Filter.valid] at h
    rw [Filter.print]
    exact .not spaces_nil spaces_nil (Filter.parenSpelled_print f h)
  | .compare k type value => by
    intro h
    rw [Filter.valid] at h
    rw [Filter.print]
    exact .item spaces_nil (.compare h (spelled_ldapBv2escapedFilterValue value))
  | .present type => by
    intro h
    rw [Filter.valid] at h
    rw [Filter.print]
    exact .item spaces_nil (.present h)
  | .substrings type initial any final => by
    intro h
    obtain ⟨ht,hany,hne⟩ := valid_substrings h
    rw [Filter.print]
    refine .item spaces_nil (.substrings ht (spelled_ldapBv2escapedFilterValue initial)
      (pieces_print hany final) ?_)
    by_contra hn
    rw [not_or,not_not,not_not,List.append_eq_nil_iff,escape_eq_nil_iff,escape_eq_nil_iff] at hn
    refine hne ⟨hn.1,?_,hn.2.2⟩
    cases any with
    | nil => rfl
    | cons l any => simp at hn
  | .extensible x value => by
    intro h
    obtain ⟨hx,hd⟩ := valid_extensible h
    rw [Filter.print]
    exact .item spaces_nil (.extensible hx (extSpelled_print hd)
      (spelled_ldapBv2escapedFilterValue value))

theorem Filter.listSpelled_printAll :
    ∀fs : List Filter,Filter.validAll fs=true → ListSpelled fs (Filter.printAll fs)
  | [] => by
    intro h
    rw [Filter.printAll]
    exact .nil spaces_nil
  | f::fs => by
    intro h
    rw [Filter.validAll,Bool.and_eq_true] at h
    rw [Filter.printAll]
    exact .cons spaces_nil (Filter.parenSpelled_print f h.1) (Filter.listSpelled_printAll fs h.2)

end

end Lemmas

end TiLdap.OpenLdap
