import TiLdap.Lber.Fields
import TiLdap.OpenLdap.Filters

namespace TiLdap.OpenLdap

open Framework Lber

inductive Compare where
  | equality
  | greaterOrEqual
  | lessOrEqual
  | approx
  deriving DecidableEq, Repr

/-- A search filter. An empty initial or final piece, type or rule is one that is not there. -/
inductive Filter where
  | and (fs : List Filter)
  | or (fs : List Filter)
  | not (f : Filter)
  | compare (k : Compare) (type value : List UInt8)
  | present (type : List UInt8)
  | substrings (type initial : List UInt8) (any : List (List UInt8)) (final : List UInt8)
  | extensible (x : ExtName) (value : List UInt8)
  deriving Repr

def Compare.tag : Compare → Nat
  | .equality => ldapFilterEquality
  | .greaterOrEqual => ldapFilterGe
  | .lessOrEqual => ldapFilterLe
  | .approx => ldapFilterApprox

/-- What stands before the equals sign. -/
def Compare.sign : Compare → List UInt8
  | .equality => []
  | .greaterOrEqual => [0x3e]
  | .lessOrEqual => [0x3c]
  | .approx => [0x7e]

/-- A string under a tag, if it is there. -/
def optionalField (t : Nat) (l : List UInt8) : List Field :=
  if l=[] then [] else [.prim (some t) (.octets l)]

def pieceFields (initial : List UInt8) (any : List (List UInt8)) (final : List UInt8) :
    List Field :=
  optionalField ldapSubstringInitial initial++
    (any.map (fun l => .prim (some ldapSubstringAny) (.octets l))++
      optionalField ldapSubstringFinal final)

def extFields (x : ExtName) (value : List UInt8) : List Field :=
  optionalField ldapFilterExtOid x.rule++
    (optionalField ldapFilterExtType x.type++
      (.prim (some ldapFilterExtValue) (.octets value)::
        if x.dn then [.prim (some ldapFilterExtDnattrs) (.boolean true)] else []))

mutual

/-- What a filter is written as. -/
def Filter.field : Filter → Field
  | .and fs => .group false (some ldapFilterAnd) (Filter.fields fs)
  | .or fs => .group false (some ldapFilterOr) (Filter.fields fs)
  | .not f => .group false (some ldapFilterNot) [f.field]
  | .compare k type value =>
      .group false (some k.tag) [.prim none (.octets type),.prim none (.octets value)]
  | .present type => .prim (some ldapFilterPresent) (.octets type)
  | .substrings type initial any final =>
      .group false (some ldapFilterSubstrings)
        [.prim none (.octets type),.group false none (pieceFields initial any final)]
  | .extensible x value => .group false (some ldapFilterExt) (extFields x value)

def Filter.fields : List Filter → List Field
  | [] => []
  | f::fs => f.field::Filter.fields fs

end

section Spelling

def Spaces (s : List UInt8) : Prop := ∀c∈s,ldapSpace c=true

/-- The pieces of a substring filter after the first star. -/
inductive Pieces : List UInt8 → List (List UInt8) → List UInt8 → Prop
  | final {s v : List UInt8} (h : Spelled s v) : Pieces s [] v
  | any {s v r final : List UInt8} {vs : List (List UInt8)} (h : Spelled s v) (hv : v≠[])
      (hr : Pieces r vs final) : Pieces (s++star::r) (v::vs) final

/-- How the part before `:=` spells a type, a rule and `dn`. -/
inductive ExtSpelled : ExtName → List UInt8 → Prop
  | type (t : List UInt8) : ExtSpelled ⟨t,[],false⟩ t
  | rule {t r : List UInt8} (hr : isDnWord r=false) : ExtSpelled ⟨t,r,false⟩ (t++colon::r)
  | dn {t d : List UInt8} (hd : isDnWord d=true) : ExtSpelled ⟨t,[],true⟩ (t++colon::d)
  | dnRule {t d r : List UInt8} (hd : isDnWord d=true) :
      ExtSpelled ⟨t,r,true⟩ (t++colon::(d++colon::r))

/-- A type is a description and a rule an object identifier, and one of them is there. -/
structure ExtName.Valid (x : ExtName) : Prop where
  some : x.type≠[] ∨ x.rule≠[]
  type : x.type≠[] → ldapIsDesc x.type=true
  rule : x.rule≠[] → ldapIsOid x.rule=true

/-- How a filter without filters in it is spelled. -/
inductive ItemSpelled : Filter → List UInt8 → Prop
  | compare {k : Compare} {t s v : List UInt8} (ht : ldapIsDesc t=true) (h : Spelled s v) :
      ItemSpelled (.compare k t v) (t++(k.sign++equals::s))
  | present {t : List UInt8} (ht : ldapIsDesc t=true) : ItemSpelled (.present t) (t++[equals,star])
  | substrings {t s v r final : List UInt8} {vs : List (List UInt8)} (ht : ldapIsDesc t=true)
      (h : Spelled s v) (hr : Pieces r vs final) (hs : s≠[] ∨ r≠[]) :
      ItemSpelled (.substrings t v vs final) (t++equals::(s++star::r))
  | extensible {x : ExtName} {n s v : List UInt8} (hx : x.Valid) (hn : ExtSpelled x n)
      (h : Spelled s v) : ItemSpelled (.extensible x v) (n++colon::equals::s)

mutual

/-- How a filter is spelled between parentheses. -/
inductive ParenSpelled : Filter → List UInt8 → Prop
  | and {fs : List Filter} {p s : List UInt8} (hp : Spaces p) (h : ListSpelled fs s) :
      ParenSpelled (.and fs) (lparen::(p++ampersand::(s++[rparen])))
  | or {fs : List Filter} {p s : List UInt8} (hp : Spaces p) (h : ListSpelled fs s) :
      ParenSpelled (.or fs) (lparen::(p++bar::(s++[rparen])))
  | not {f : Filter} {p q s : List UInt8} (hp : Spaces p) (hq : Spaces q)
      (h : ParenSpelled f s) : ParenSpelled (.not f) (lparen::(p++bang::(q++s++[rparen])))
  | item {f : Filter} {p s : List UInt8} (hp : Spaces p) (h : ItemSpelled f s) :
      ParenSpelled f (lparen::(p++(s++[rparen])))

inductive ListSpelled : List Filter → List UInt8 → Prop
  | nil {p : List UInt8} (hp : Spaces p) : ListSpelled [] p
  | cons {f : Filter} {fs : List Filter} {p s r : List UInt8} (hp : Spaces p)
      (h : ParenSpelled f s) (hs : ListSpelled fs r) : ListSpelled (f::fs) (p++(s++r))

end

/-- How a filter is spelled: one without filters in it may do without parentheses. -/
inductive FilterSpelled : Filter → List UInt8 → Prop
  | paren {f : Filter} {s : List UInt8} (h : ParenSpelled f s) : FilterSpelled f s
  | bare {f : Filter} {s : List UInt8} (h : ItemSpelled f s) : FilterSpelled f s

end Spelling

end TiLdap.OpenLdap
