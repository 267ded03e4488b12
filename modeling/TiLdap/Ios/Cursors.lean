import TiLdap.Ios.Handles
import TiLdap.Framework.Pool

namespace TiLdap.Ios

open Framework OpenLdap

/-- A call with what it returns, the entry object it makes and the object it leaves. -/
def SearchResultProxy.perform (ld : Option Handle) (p : SearchResultProxy) :
    ResultCall → Except Fault (Answer × Option EntryProxy × SearchResultProxy)
  | .countEntries => (p.countEntries ld).map fun n => (.count n,none,p)
  | .firstEntry => (p.firstEntry ld).map fun x => (.entry (x.1.map EntryProxy.entry),x)
  | .nextEntry => (p.nextEntry ld).map fun x => (.entry (x.1.map EntryProxy.entry),x)

def EntryProxy.perform (ld : Option Handle) (p : EntryProxy) :
    EntryWalk → Except Fault (Answer × EntryProxy)
  | .getDn => (p.getDn ld).map fun s => (.text (some s),p)
  | .firstAttribute => (p.firstAttribute ld).map fun x => (.text x.1,x.2)
  | .nextAttribute => (p.nextAttribute ld).map fun x => (.text x.1,x.2)

/-- The result and entry objects of an application. -/
abbrev Objects := Pool SearchResultProxy EntryProxy

/-- The calls over a connection that keeps its session. -/
def call (ld : Option Handle) :
    Objects → PoolCall ResultCall EntryWalk → Except Fault (Answer × Objects) :=
  Pool.call (SearchResultProxy.perform ld) (EntryProxy.perform ld) .gone

namespace World

def objects (w : World) : Objects := ⟨w.results,w.entries⟩

theorem resultCall_objects (w : World) (i : Nat) (c : ResultCall) :
    (w.resultCall i c).objects=after (call w.connection.ld) w.objects (.source i c) := by
  simp only [resultCall,after,call,Pool.call,objects]
  cases hp : w.results[i]? with
  | none => rfl
  | some p =>
    cases c with
    | countEntries =>
      obtain ⟨hl,rfl⟩ := List.getElem?_eq_some_iff.mp hp
      cases hc : (w.results[i]).countEntries w.connection.ld <;>
        simp [SearchResultProxy.call,SearchResultProxy.perform,hc,Except.map,fault]
    | firstEntry =>
      cases hc : p.firstEntry w.connection.ld <;>
        simp [SearchResultProxy.call,SearchResultProxy.perform,hc,Except.map,fault]
    | nextEntry =>
      cases hc : p.nextEntry w.connection.ld <;>
        simp [SearchResultProxy.call,SearchResultProxy.perform,hc,Except.map,fault]

theorem entryCall_objects (w : World) (i : Nat) (c : EntryWalk) (errno : Int) :
    (w.entryCall i c.call errno).objects=
      after (call w.connection.ld) w.objects (.item i c) := by
  simp only [entryCall,after,call,Pool.call,objects]
  cases hp : w.entries[i]? with
  | none => rfl
  | some p =>
    cases c with
    | getDn =>
      obtain ⟨hl,rfl⟩ := List.getElem?_eq_some_iff.mp hp
      cases hc : (w.entries[i]).getDn w.connection.ld <;>
        simp [EntryWalk.call,EntryProxy.call,EntryProxy.perform,hc,Except.map,fault,store]
    | firstAttribute =>
      cases hc : p.firstAttribute w.connection.ld <;>
        simp [EntryWalk.call,EntryProxy.call,EntryProxy.perform,hc,Except.map,fault,store]
    | nextAttribute =>
      cases hc : p.nextAttribute w.connection.ld <;>
        simp [EntryWalk.call,EntryProxy.call,EntryProxy.perform,hc,Except.map,fault,store]

end World

namespace SearchResultProxy

variable {p : SearchResultProxy} {c : Chain}

theorem perform_countEntries (h : Handle) (hc : p.searchResult=some c) :
    p.perform (some h) .countEntries=.ok (.count (itemEntries c.items).length,none,p) := by
  simp only [perform,countEntries,ldapCountEntries,hc,Except.map]

/-- Moving to the next entry message answers with its entry and leaves the ones after it. -/
theorem moveTo_spec (p : SearchResultProxy) (l : List Item) :
    ∃p',p.moveTo (seekEntry l)=((itemEntries l).head?.map (fun e => ⟨e,none⟩),p') ∧
      p'.searchResult=p.searchResult ∧
      p'.entry.map itemEntries=(itemEntries l).head?.map fun _ => (itemEntries l).tail := by
  obtain ⟨h1,h2⟩ := p.moveTo_seekEntry l
  exact ⟨(p.moveTo (seekEntry l)).2,Prod.ext h1 rfl,rfl,h2⟩

theorem perform_firstEntry (h : Handle) (hc : p.searchResult=some c) :
    ∃p',p.perform (some h) .firstEntry=.ok (.entry (itemEntries c.items).head?,
        (itemEntries c.items).head?.map (fun e => ⟨e,none⟩),p') ∧ p'.searchResult=some c ∧
      p'.entry.map itemEntries=
        (itemEntries c.items).head?.map fun _ => (itemEntries c.items).tail := by
  obtain ⟨p',hm,hs,he⟩ := p.moveTo_spec c.items
  refine ⟨p',?_,hs.trans hc,he⟩
  simp only [perform,firstEntry,hc,Except.map,hm]
  cases (itemEntries c.items).head? <;> rfl

theorem perform_nextEntry (h : Handle) {l : List Item} (hl : p.entry=some l) :
    ∃p',p.perform (some h) .nextEntry=.ok (.entry (itemEntries l).head?,
        (itemEntries l).head?.map (fun e => ⟨e,none⟩),p') ∧ p'.searchResult=p.searchResult ∧
      p'.entry.map itemEntries=(itemEntries l).head?.map fun _ => (itemEntries l).tail := by
  obtain ⟨p',hm,hs,he⟩ := p.moveTo_spec l
  refine ⟨p',?_,hs,he⟩
  simp only [perform,nextEntry,hl,Except.map,hm]
  cases (itemEntries l).head? <;> rfl

theorem perform_nextEntry_none (h : Handle) (hl : p.entry=none) :
    p.perform (some h) .nextEntry=.error .assertion := by
  simp only [perform,nextEntry,hl,Except.map]

end SearchResultProxy

open SearchResultProxy in
/-- The entries of a chain, wherever the other messages stand in it. -/
def resultCursor (h : Handle) (c : Chain) :
    Cursor (Pool.alone (SearchResultProxy.perform (some h))) (fun p => p.searchResult=some c)
      .firstEntry .nextEntry (itemEntries c.items) Answer.entry where
  rest p := p.entry.map itemEntries
  keep := by
    rintro p a b p' hc hp
    obtain ⟨e,hp⟩ := Pool.alone_ok.mp hp
    cases a with
    | countEntries =>
      rw [perform_countEntries h hc] at hp
      cases hp
      exact hc
    | firstEntry =>
      obtain ⟨p₁,hf,hs,-⟩ := perform_firstEntry h hc
      rw [hf] at hp
      cases hp
      exact hs
    | nextEntry =>
      cases hl : p.entry with
      | none =>
        rw [perform_nextEntry_none h hl] at hp
        cases hp
      | some l =>
        obtain ⟨p₁,hn,hs,-⟩ := perform_nextEntry h hl
        rw [hn] at hp
        cases hp
        exact hs.trans hc
  start := by
    intro p hc
    obtain ⟨p',hf,-,he⟩ := perform_firstEntry h hc
    refine ⟨p',Pool.alone_ok.mpr ⟨_,hf⟩,?_⟩
    intro hn
    rw [he,List.head?_eq_some_head hn,Option.map_some]
  move := by
    intro p l hc hl
    obtain ⟨m,hm,rfl⟩ := Option.map_eq_some_iff.mp hl
    obtain ⟨p',hf,-,he⟩ := perform_nextEntry h hm
    refine ⟨p',Pool.alone_ok.mpr ⟨_,hf⟩,?_⟩
    intro hn
    rw [he,List.head?_eq_some_head hn,Option.map_some]
  frame := by
    intro p a b p' hc hp hf hn
    obtain ⟨e,hp⟩ := Pool.alone_ok.mp hp
    cases a with
    | countEntries =>
      rw [perform_countEntries h hc] at hp
      cases hp
      rfl
    | firstEntry => exact absurd rfl hf
    | nextEntry => exact absurd rfl hn

namespace EntryProxy

variable {p : EntryProxy}

end EntryProxy

end TiLdap.Ios
