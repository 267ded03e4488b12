import TiLdap.Framework.CString
import TiLdap.Lber.Encode
import TiLdap.OpenLdap.FilterValues

namespace TiLdap.OpenLdap

open Framework Lber

abbrev ampersand : UInt8 := 0x26
abbrev bar : UInt8 := 0x7c
abbrev bang : UInt8 := 0x21
abbrev equals : UInt8 := 0x3d
abbrev colon : UInt8 := 0x3a
abbrev semicolon : UInt8 := 0x3b
abbrev dotSign : UInt8 := 0x2e

def ldapFilterAnd : Nat := 0xa0
def ldapFilterOr : Nat := 0xa1
def ldapFilterNot : Nat := 0xa2
def ldapFilterEquality : Nat := 0xa3
def ldapFilterSubstrings : Nat := 0xa4
def ldapFilterGe : Nat := 0xa5
def ldapFilterLe : Nat := 0xa6
def ldapFilterPresent : Nat := 0x87
def ldapFilterApprox : Nat := 0xa8
def ldapFilterExt : Nat := 0xa9
def ldapFilterExtOid : Nat := 0x81
def ldapFilterExtType : Nat := 0x82
def ldapFilterExtValue : Nat := 0x83
def ldapFilterExtDnattrs : Nat := 0x84
def ldapSubstringInitial : Nat := 0x80
def ldapSubstringAny : Nat := 0x81
def ldapSubstringFinal : Nat := 0x82

section Names

/-- Numbers with dots between them, from within a number; `dot` tells that the last was a dot. -/
def oidNumbers (dot : Bool) : List UInt8 → Bool
  | [] => !dot
  | c::s =>
    if ldapDigit c then oidNumbers false s
    else if c=dotSign then !dot && oidNumbers true s
    else false

def ldapIsOid : List UInt8 → Bool
  | [] => false
  | c::s =>
    if ldapAlpha c then s.all ldapLdh
    else if ldapDigit c then oidNumbers false s
    else false

/-- The options of a description; `first` tells that an option is to start here. -/
def descOptions (first : Bool) : List UInt8 → Bool
  | [] => !first
  | c::s =>
    if first=false ∧ c=semicolon then descOptions true s
    else ldapLdh c && descOptions false s

def descName : List UInt8 → Bool
  | [] => true
  | c::s => if c=semicolon then descOptions true s else ldapLdh c && descName s

def descNumbers (dot : Bool) : List UInt8 → Bool
  | [] => !dot
  | c::s =>
    if c=semicolon then !dot && descOptions true s
    else if ldapDigit c then descNumbers false s
    else if c=dotSign then !dot && descNumbers true s
    else false

def ldapIsDesc : List UInt8 → Bool
  | [] => false
  | c::s =>
    if ldapAlpha c then descName s
    else if ldapDigit c then descNumbers false s
    else false

/-- `strcasecmp` with `dn`. -/
def isDnWord (s : List UInt8) : Bool :=
  s.map (fun c => if ldapUpper c then c+0x20 else c)==[0x64,0x6e]

end Names

/-- What stands before the parenthesis that closes the one before the string, and after it.
`balance` counts the parentheses that are open and `escape` tells of a backslash before. -/
def rightParen (balance : Nat) (escape : Bool) : List UInt8 → Option (List UInt8 × List UInt8)
  | [] => none
  | c::s =>
    let balance := if escape then balance
      else if c=lparen then balance+1
      else if c=rparen then balance-1
      else balance
    if balance=0 then some ([],s)
    else (rightParen balance (decide (c=backslash ∧ escape=false)) s).map fun x => (c::x.1,x.2)

def findRightParen (s : List UInt8) : Option (List UInt8 × List UInt8) := rightParen 1 false s

section Functions

-- The octet that lies in memory before a copy of a string.
variable (w : Word) (below : List UInt8 → UInt8)

/-- An assertion with a value, under the tag of its comparison. -/
def putAssertion (ftype : Nat) (str value : List UInt8) (b : Writer) : Option Writer :=
  if ldapIsDesc str then
    match ldapPvtFilterValueUnescape value with
    | none => none
    | some v => berPrintf w b [.tag ftype,.beginSeq,.octets str,.octets v,.debugNull,.finish]
  else none

/-- What stands before the colon of `:=`: the type, the rule, and whether `dn` stands between. -/
structure ExtName where
  type : List UInt8
  rule : List UInt8
  dn : Bool
  deriving DecidableEq, Repr

def extName (str : List UInt8) : Option ExtName :=
  match cut colon str with
  | none => some ⟨str,[],false⟩
  | some (type,dn) =>
    match cut colon dn with
    | none =>
      if isDnWord dn then
        if ldapIsDesc type then some ⟨type,[],true⟩ else none
      else some ⟨type,dn,false⟩
    | some (dn,rule) => if isDnWord dn then some ⟨type,rule,true⟩ else none

def putExtensible (str value : List UInt8) (b : Writer) : Option Writer :=
  match extName str with
  | none => none
  | some x =>
    if x.type=[] ∧ x.rule=[] then none
    else if x.type≠[] ∧ ldapIsDesc x.type=false then none
    else if x.rule≠[] ∧ ldapIsOid x.rule=false then none
    else do
      let b ← berPrintf w b [.tag ldapFilterExt,.beginSeq]
      let b ← if x.rule=[] then some b
        else berPrintf w b [.tag ldapFilterExtOid,.octets x.rule]
      let b ← if x.type=[] then some b
        else berPrintf w b [.tag ldapFilterExtType,.octets x.type]
      let v ← ldapPvtFilterValueUnescape value
      let b ← berPrintf w b [.tag ldapFilterExtValue,.octets v]
      let b ← if x.dn then berPrintf w b [.tag ldapFilterExtDnattrs,.boolean true] else some b
      berPrintf w b [.debugNull,.finish]

/-- A piece without octets is an error. -/
def putPiece (ftype : Nat) (piece : List UInt8) (b : Writer) : Option Writer :=
  match ldapPvtFilterValueUnescape piece with
  | none => none
  | some v => if v=[] then none else berPrintf w b [.tag ftype,.octets v]

/-- The loop over the pieces, with at most `n` rounds. -/
def putPieces : Nat → Bool → List UInt8 → Writer → Option Writer
  | 0,_,_,b => some b
  | n+1,gotstar,val,b =>
    if val=[] then some b
    else match ldapPvtFindWildcard val with
      | none => none
      | some (piece,nextstar) =>
        let ftype := if nextstar=[] then ldapSubstringFinal
          else if gotstar then ldapSubstringAny else ldapSubstringInitial
        let b := if piece≠[] ∨ ftype=ldapSubstringAny then putPiece w ftype piece b else some b
        b.bind (putPieces n (gotstar || nextstar≠[]) nextstar.tail)

def putSubstringFilter (type val : List UInt8) (b : Writer) : Option Writer := do
  let b ← berPrintf w b [.tag ldapFilterSubstrings,.beginSeq,.octets type,.beginSeq]
  let b ← putPieces w val.length false val b
  berPrintf w b [.debugNull,.finish,.debugNull,.finish]

/-- After a description alone, the stars of the value decide. -/
def putEqualityFilter (type value : List UInt8) (b : Writer) : Option Writer :=
  match ldapPvtFindWildcard value with
  | none => none
  | some (_,nextstar) =>
    if nextstar=[] then putAssertion w ldapFilterEquality type value b
    else if value=[star] then berPrintf w b [.tag ldapFilterPresent,.octets type]
    else putSubstringFilter w type value b

def putSimpleFilter (str : List UInt8) (b : Writer) : Option Writer :=
  match cut equals str with
  | none => none
  | some (type,value) =>
    -- Of an empty type the octet before the copy is looked at.
    let c := type.getLast?.getD (below str)
    if c=0x3c then putAssertion w ldapFilterLe type.dropLast value b
    else if c=0x3e then putAssertion w ldapFilterGe type.dropLast value b
    else if c=0x7e then putAssertion w ldapFilterApprox type.dropLast value b
    else if c=colon then putExtensible w type.dropLast value b
    else if ldapIsDesc type=false then none
    else putEqualityFilter w type value b

-- The filters of a list are put by a function for the filters that stand less deep.
variable (put : List UInt8 → Writer → Option Writer)

/-- The loop over the filters of a list, with at most `n` rounds: what is left of the string and
whether there was a filter. -/
def putFilters (tag : Nat) : Nat → Bool → List UInt8 → Writer →
    Option (List UInt8 × Bool × Writer)
  | 0,found,str,b => some (str,found,b)
  | n+1,found,str,b =>
    match str.dropWhile ldapSpace with
    | [] => some ([],found,b)
    | c::s =>
      match findRightParen s with
      | none => none
      | some (inner,next) => (put (c::(inner++[rparen])) b).bind fun b =>
          if tag=ldapFilterNot then some (next,true,b) else putFilters tag n true next b

def putFilterList (str : List UInt8) (tag : Nat) (b : Writer) : Option Writer :=
  (putFilters put tag str.length false str b).bind fun x =>
    if tag=ldapFilterNot ∧ (x.2.1=false ∨ x.1≠[]) then none else some x.2.2

/-- The rest of the string after the closing parenthesis. -/
def putComplexFilter (str : List UInt8) (tag : Nat) (b : Writer) :
    Option (List UInt8 × Writer) := do
  let b ← berPrintf w b [.tag tag,.beginSeq]
  let (inner,next) ← findRightParen str
  let b ← putFilterList put inner tag b
  let b ← berPrintf w b [.debugNull,.finish]
  some (next,b)

/-- What follows an opening parenthesis, and the rest of the string after the closing one. -/
def putParen (s : List UInt8) (b : Writer) : Option (List UInt8 × Writer) :=
  match s.dropWhile ldapSpace with
  | [] => none
  | d::s' =>
    if d=ampersand then putComplexFilter w put s' ldapFilterAnd b
    else if d=bar then putComplexFilter w put s' ldapFilterOr b
    else if d=bang then putComplexFilter w put s' ldapFilterNot b
    else if d=lparen then none
    else match findRightParen (d::s') with
      | none => none
      | some (item,next) => (putSimpleFilter w below item b).map fun b => (next,b)

/-- One round of the loop: what is left of the string and how many parentheses are open. -/
def putFilterRound (c : UInt8) (s : List UInt8) (parens : Int) (b : Writer) :
    Option (List UInt8 × Int × Writer) :=
  -- The parenthesis that opens here is closed within the round.
  if c=lparen then (putParen w below put s b).map fun x => (x.1,parens,x.2)
  else if c=rparen then (berPrintf w b [.finish]).map fun b => (s,parens-1,b)
  else if c=0x20 then some (s,parens,b)
  else (putSimpleFilter w below (c::s) b).map fun b => ([],parens,b)

def putFilterLoop : Nat → List UInt8 → Int → Writer → Option (List UInt8 × Int × Writer)
  | 0,str,parens,b => some (str,parens,b)
  | n+1,str,parens,b =>
    match str with
    | [] => some ([],parens,b)
    | c::s => (putFilterRound w below put c s parens b).bind fun x =>
        if x.2.1=0 then some x else putFilterLoop n x.1 x.2.1 x.2.2

end Functions

/-- `ldap_pvt_put_filter`, with at most `depth` calls of it within each other. -/
def putFilterWithin (w : Word) (below : List UInt8 → UInt8) :
    Nat → List UInt8 → Writer → Option Writer
  | 0,_,_ => none
  | depth+1,str,b =>
    (putFilterLoop w below (putFilterWithin w below depth) str.length str 0 b).bind fun x =>
      if x.2.1≠0 ∨ x.1≠[] then none else some x.2.2

/-- Each call within another one is on a shorter string. -/
def ldapPvtPutFilter (w : Word) (below : List UInt8 → UInt8) (str : List UInt8) (b : Writer) :
    Option Writer := putFilterWithin w below (str.length+1) str b

end TiLdap.OpenLdap
