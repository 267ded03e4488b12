import TiLdap.OpenLdap.Search

namespace TiLdap.OpenLdap

/-- The next entry message from a point of a chain on, with what follows it. -/
def seekEntry : List Item → Option (Entry × List Item)
  | [] => none
  | .entry e::l => some (e,l)
  | .reference _::l => seekEntry l
  | .intermediate::l => seekEntry l

theorem seekEntry_cases (l : List Item) :
    (seekEntry l=none ∧ itemEntries l=[]) ∨
    ∃e rest,seekEntry l=some (e,rest) ∧ itemEntries l=e::itemEntries rest := by
  induction l with
  | nil => exact .inl ⟨rfl,rfl⟩
  | cons i l ih =>
    cases i with
    | entry e => exact .inr ⟨e,l,rfl,rfl⟩
    | reference urls => exact ih
    | intermediate => exact ih

/-- `ldap_count_entries` accepts a null chain. -/
def ldapCountEntries (c : Option Chain) : Nat :=
  match c with
  | none => 0
  | some c => (itemEntries c.items).length

/-- What `ldap_get_values_len` returns for an attribute with these values: without any it is a null
pointer, as it is without the attribute. -/
def valuesOut : List (List UInt8) → Option (List (List UInt8))
  | [] => none
  | v::vs => some (v::vs)

/-- What `ldap_get_values` returns: a value with a zero byte before its last one cannot be decoded,
and makes it a null pointer, too. -/
def stringsOut (vs : List (List UInt8)) : Option (List (List UInt8)) :=
  if ∃v∈vs,0∈v.dropLast then none else valuesOut vs

/-- A C string ends at the first zero byte. -/
def stringWithUTF8String (bytes : List UInt8) : Option String :=
  String.fromUTF8? ⟨(bytes.takeWhile (·≠0)).toArray⟩

end TiLdap.OpenLdap
