import TiLdap.Interface.Observations

namespace TiLdap.Android

structure LDAPResult where
  resultCode : Int
  diagnosticMessage : Option String := none
  deriving DecidableEq, Repr

structure LDAPException where
  resultCode : ErrorCode
  diagnosticMessage : Option String := none
  deriving DecidableEq, Repr

def LDAPException.toLDAPResult (e : LDAPException) : LDAPResult :=
  ⟨e.resultCode,e.diagnosticMessage⟩

structure SearchResult extends LDAPResult where
  searchEntries : List Entry
  searchReferences : List (List String)
  entryCount : Nat
  deriving DecidableEq, Repr

/-- What Java makes of the bytes of a value: malformed UTF-8 is replaced, not refused. -/
inductive Text where
  | decoded (s : String)
  | replaced (bytes : List UInt8)
  deriving DecidableEq, Repr

def toUTF8String (bytes : List UInt8) : Text :=
  match String.fromUTF8? ⟨bytes.toArray⟩ with
  | some s => .decoded s
  | none => .replaced bytes

/-- `hasNext` followed, if it holds, by `next`. -/
def advance {α : Type} : List α → Option α × List α
  | [] => (none,[])
  | a::l => (some a,l)

theorem advance_drop {α : Type} (l : List α) (k : Nat) :
    advance (l.drop k) = (l[k]?,l.drop (k+1)) := by
  by_cases hk : k<l.length
  · rw [List.drop_eq_getElem_cons hk,List.getElem?_eq_getElem hk]
    rfl
  · have hle : l.length≤k := by omega
    rw [List.drop_eq_nil_of_le hle,List.drop_eq_nil_of_le (by omega),
      List.getElem?_eq_none hle]
    rfl

structure EntryProxy where
  entry : Entry
  iterator : Option (List Attribute) := none
  deriving DecidableEq, Repr

namespace EntryProxy

def getDn (p : EntryProxy) : String := p.entry.dn

def firstAttribute (p : EntryProxy) : Option String × EntryProxy :=
  let x := advance p.entry.attributes
  (x.1.map Attribute.name,{ p with iterator := some x.2 })

def nextAttribute (p : EntryProxy) : Option String × EntryProxy :=
  match p.iterator with
  | none => (none,p)
  | some l =>
    let x := advance l
    (x.1.map Attribute.name,{ p with iterator := some x.2 })

def getValues (p : EntryProxy) (name : String) : Option (List Text) :=
  (p.entry.attribute? name).map fun a => a.values.map toUTF8String

def getValuesLen (p : EntryProxy) (name : String) : Option (List (List UInt8)) :=
  (p.entry.attribute? name).map Attribute.values

end EntryProxy

structure SearchResultProxy where
  searchResult : Option SearchResult
  iterator : Option (List Entry) := none
  deriving DecidableEq, Repr

namespace SearchResultProxy

def countEntries (p : SearchResultProxy) : Except Fault Nat :=
  match p.searchResult with
  | none => .error .raised
  | some s => .ok s.entryCount

def firstEntry (p : SearchResultProxy) : Except Fault (Option EntryProxy × SearchResultProxy) :=
  match p.searchResult with
  | none => .error .raised
  | some s =>
    let x := advance s.searchEntries
    .ok (x.1.map fun e => ⟨e,none⟩,{ p with iterator := some x.2 })

def nextEntry (p : SearchResultProxy) : Option EntryProxy × SearchResultProxy :=
  match p.iterator with
  | none => (none,p)
  | some l =>
    let x := advance l
    (x.1.map fun e => ⟨e,none⟩,{ p with iterator := some x.2 })

/-- Call number `k` of the loop that calls `firstEntry` once and then `nextEntry`. -/
def visit (p : SearchResultProxy) : Nat → Except Fault (Option EntryProxy × SearchResultProxy)
  | 0 => p.firstEntry
  | k+1 => (p.visit k).map fun x => x.2.nextEntry

/-- Call number `k` returns entry number `k`, and null from the end on. -/
theorem visit_eq {p : SearchResultProxy} {s : SearchResult} (h : p.searchResult=some s)
    (k : Nat) : p.visit k = .ok (s.searchEntries[k]?.map fun e => ⟨e,none⟩,
      { p with iterator := some (s.searchEntries.drop (k+1)) }) := by
  induction k with
  | zero =>
    have hd := advance_drop s.searchEntries 0
    rw [List.drop_zero] at hd
    simp only [visit,firstEntry,h,hd]
  | succ k ih =>
    simp only [visit,ih,Except.map,nextEntry,advance_drop]

/-- The accessors count and return these entries in this order, and then null. -/
def Enumerates (p : SearchResultProxy) (es : List Entry) : Prop :=
  p.countEntries=.ok es.length ∧
    ∀k,(p.visit k).map Prod.fst=.ok (es[k]?.map fun e => ⟨e,none⟩)

theorem enumerates_result {p : SearchResultProxy} {s : SearchResult} (h : p.searchResult=some s)
    (hc : s.entryCount=s.searchEntries.length) : p.Enumerates s.searchEntries := by
  refine ⟨?_,?_⟩
  · simp [countEntries,h,hc]
  · intro k
    rw [visit_eq h k]
    rfl

end SearchResultProxy

end TiLdap.Android
