import TiLdap.OpenLdap.Entries

namespace TiLdap.Ios

open OpenLdap

/-- An entry proxy; `ber` is the attribute cursor, null before `firstAttribute` and after it
found no attribute. -/
structure EntryProxy where
  entry : Entry
  ber : Option (List Attribute) := none
  deriving DecidableEq, Repr

namespace EntryProxy

/-- Each accessor asserts the session that the connection has at the time of the call. -/
def getDn (ld : Option Handle) (p : EntryProxy) : Except Fault String :=
  match ld with
  | none => .error .nullHandle
  | some _ => .ok p.entry.dn

def firstAttribute (ld : Option Handle) (p : EntryProxy) :
    Except Fault (Option String × EntryProxy) :=
  match ld with
  | none => .error .nullHandle
  | some _ => match p.entry.attributes with
    | [] => .ok (none,{ p with ber := none })
    | a::l => .ok (some a.name,{ p with ber := some l })

def nextAttribute (ld : Option Handle) (p : EntryProxy) :
    Except Fault (Option String × EntryProxy) :=
  match ld with
  | none => .error .nullHandle
  | some _ => match p.ber with
    | none => .error .assertion
    | some [] => .ok (none,p)
    | some (a::l) => .ok (some a.name,{ p with ber := some l })

/-- What `ldap_get_values_len` finds. -/
def values (p : EntryProxy) (name : String) : Option (List (List UInt8)) :=
  valuesOut (p.entry.valuesOf name)

/-- What `ldap_get_values` finds. -/
def strings (p : EntryProxy) (name : String) : Option (List (List UInt8)) :=
  stringsOut (p.entry.valuesOf name)

/-- A string that is not UTF-8 makes `addObject:` raise. -/
def getValues (ld : Option Handle) (p : EntryProxy) (name : String) :
    Except Fault (Option (List String)) :=
  match ld with
  | none => .error .nullHandle
  | some _ => match p.strings name with
    | none => .ok none
    | some vs => match vs.mapM stringWithUTF8String with
      | none => .error .raised
      | some ss => .ok (some ss)

def getValuesLen (ld : Option Handle) (p : EntryProxy) (name : String) :
    Except Fault (Option (List (List UInt8))) :=
  match ld with
  | none => .error .nullHandle
  | some _ => .ok (p.values name)

/-- An accessor as far as the entry object and the faults are concerned. -/
def call (ld : Option Handle) (p : EntryProxy) : EntryCall → Except Fault EntryProxy
  | .getDn => (p.getDn ld).map fun _ => p
  | .firstAttribute => (p.firstAttribute ld).map Prod.snd
  | .nextAttribute => (p.nextAttribute ld).map Prod.snd
  | .getValues name => (p.getValues ld name).map fun _ => p
  | .getValuesLen name => (p.getValuesLen ld name).map fun _ => p

end EntryProxy

/-- A search result proxy on a chain, null or not; `entry` holds the messages after the
current entry. -/
structure SearchResultProxy where
  searchResult : Option Chain
  entry : Option (List Item) := none
  deriving DecidableEq, Repr

namespace SearchResultProxy

def countEntries (ld : Option Handle) (p : SearchResultProxy) : Except Fault Nat :=
  match ld with
  | none => .error .nullHandle
  | some _ => .ok (ldapCountEntries p.searchResult)

/-- The entry found becomes the current one and is wrapped in a proxy. -/
def moveTo (p : SearchResultProxy) (found : Option (Entry × List Item)) :
    Option EntryProxy × SearchResultProxy :=
  (found.map fun x => ⟨x.1,none⟩,{ p with entry := found.map Prod.snd })

def firstEntry (ld : Option Handle) (p : SearchResultProxy) :
    Except Fault (Option EntryProxy × SearchResultProxy) :=
  match ld with
  | none => .error .nullHandle
  | some _ => match p.searchResult with
    | none => .error .assertion
    | some c => .ok (p.moveTo (seekEntry c.items))

def nextEntry (ld : Option Handle) (p : SearchResultProxy) :
    Except Fault (Option EntryProxy × SearchResultProxy) :=
  match ld with
  | none => .error .nullHandle
  | some _ => match p.entry with
    | none => .error .assertion
    | some l => .ok (p.moveTo (seekEntry l))

/-- Call number `k` of the loop that calls `firstEntry` once and then `nextEntry`. -/
def visit (ld : Option Handle) (p : SearchResultProxy) :
    Nat → Except Fault (Option EntryProxy × SearchResultProxy)
  | 0 => p.firstEntry ld
  | k+1 => (p.visit ld k).bind fun x => x.2.nextEntry ld

theorem moveTo_seekEntry (p : SearchResultProxy) (l : List Item) :
    (p.moveTo (seekEntry l)).1=(itemEntries l).head?.map (fun e => ⟨e,none⟩) ∧
    (p.moveTo (seekEntry l)).2.entry.map itemEntries=
      (itemEntries l).head?.map (fun _ => (itemEntries l).tail) := by
  rcases seekEntry_cases l with ⟨hs,he⟩|⟨e,rest,hs,he⟩
  · simp [moveTo,hs,he]
  · simp [moveTo,hs,he]

/-- Call number `k` returns entry number `k`, and null right after the last one; what lies
beyond the current entry are the messages that hold the entries still to come. -/
theorem visit_eq {p : SearchResultProxy} {c : Chain} (hc : p.searchResult=some c) (h : Handle)
    {k : Nat} (hk : k≤(itemEntries c.items).length) :
    ∃p',p.visit (some h) k=.ok ((itemEntries c.items)[k]?.map (fun e => ⟨e,none⟩),p') ∧
      p'.entry.map itemEntries=
        (itemEntries c.items)[k]?.map (fun _ => (itemEntries c.items).drop (k+1)) := by
  induction k with
  | zero =>
    obtain ⟨h1,h2⟩ := p.moveTo_seekEntry c.items
    refine ⟨(p.moveTo (seekEntry c.items)).2,?_,?_⟩
    · simp only [visit,firstEntry,hc,← List.head?_eq_getElem?,← h1]
    · rw [h2,List.head?_eq_getElem?,List.drop_one]
  | succ k ih =>
    have hlt : k<(itemEntries c.items).length := hk
    obtain ⟨p',hv,he⟩ := ih (Nat.le_of_lt hlt)
    rw [List.getElem?_eq_getElem hlt,Option.map_some] at he
    obtain ⟨l,hl,hd⟩ := Option.map_eq_some_iff.mp he
    obtain ⟨h1,h2⟩ := p'.moveTo_seekEntry l
    have hhead : (itemEntries l).head?=(itemEntries c.items)[k+1]? := by
      rw [hd,List.head?_drop]
    refine ⟨(p'.moveTo (seekEntry l)).2,?_,?_⟩
    · simp only [visit,hv,Except.bind,nextEntry,hl,← hhead,← h1]
    · rw [h2,hhead,hd,List.tail_drop]

/-- Over any session the accessors count and return these entries in this order. -/
def Enumerates (p : SearchResultProxy) (es : List Entry) : Prop :=
  ∀h,p.countEntries (some h)=.ok es.length ∧
    ∀k≤es.length,(p.visit (some h) k).map Prod.fst=.ok (es[k]?.map fun e => ⟨e,none⟩)

theorem enumerates_chain {p : SearchResultProxy} {c : Chain} (hc : p.searchResult=some c) :
    p.Enumerates (itemEntries c.items) := by
  intro h
  refine ⟨?_,?_⟩
  · simp [countEntries,ldapCountEntries,hc]
  · intro k hk
    obtain ⟨p',hv,-⟩ := visit_eq hc h hk
    rw [hv]
    rfl

/-- An accessor as far as the objects and the faults are concerned. -/
def call (ld : Option Handle) (p : SearchResultProxy) :
    ResultCall → Except Fault (Option EntryProxy × SearchResultProxy)
  | .countEntries => (p.countEntries ld).map fun _ => (none,p)
  | .firstEntry => p.firstEntry ld
  | .nextEntry => p.nextEntry ld

end SearchResultProxy

end TiLdap.Ios
