import TiLdap.Android.Handles
import TiLdap.Framework.Pool

namespace TiLdap.Android

open Framework

theorem advance_eq {α : Type} (l : List α) : advance l=(l.head?,l.tail) := by
  cases l <;> rfl

/-- A call with what it returns, the entry object it makes and the object it leaves. -/
def SearchResultProxy.perform (p : SearchResultProxy) :
    ResultCall → Except Fault (Answer × Option EntryProxy × SearchResultProxy)
  | .countEntries => p.countEntries.map fun n => (.count n,none,p)
  | .firstEntry => p.firstEntry.map fun x => (.entry (x.1.map EntryProxy.entry),x)
  | .nextEntry => .ok (.entry (p.nextEntry.1.map EntryProxy.entry),p.nextEntry)

def EntryProxy.perform (p : EntryProxy) : EntryWalk → Except Fault (Answer × EntryProxy)
  | .getDn => .ok (.text (some p.getDn),p)
  | .firstAttribute => .ok (.text p.firstAttribute.1,p.firstAttribute.2)
  | .nextAttribute => .ok (.text p.nextAttribute.1,p.nextAttribute.2)

/-- The result and entry objects of an application. -/
abbrev Objects := Pool SearchResultProxy EntryProxy

def call : Objects → PoolCall ResultCall EntryWalk → Except Fault (Answer × Objects) :=
  Pool.call SearchResultProxy.perform EntryProxy.perform .gone

namespace World

def objects (w : World) : Objects := ⟨w.results,w.entries⟩

theorem resultCall_objects (w : World) (i : Nat) (c : ResultCall) :
    (w.resultCall i c).objects=after call w.objects (.source i c) := by
  have same : ∀{p : SearchResultProxy},w.results[i]?=some p → w.results.set i p=w.results := by
    intro p hp
    obtain ⟨hl,rfl⟩ := List.getElem?_eq_some_iff.mp hp
    exact List.set_getElem_self hl
  simp only [resultCall,after,call,Pool.call,objects]
  cases hp : w.results[i]? with
  | none => rfl
  | some p =>
    cases c with
    | countEntries =>
      cases hc : p.countEntries <;> simp [SearchResultProxy.perform,hc,Except.map,fault,same hp]
    | firstEntry =>
      cases hc : p.firstEntry <;> simp [SearchResultProxy.perform,hc,Except.map,fault]
    | nextEntry => rfl

theorem entryCall_objects (w : World) (i : Nat) (c : EntryWalk) :
    (w.entryCall i c.call).objects=after call w.objects (.item i c) := by
  simp only [entryCall,after,call,Pool.call,objects]
  cases hp : w.entries[i]? with
  | none => rfl
  | some p =>
    cases c with
    | getDn =>
      obtain ⟨hl,rfl⟩ := List.getElem?_eq_some_iff.mp hp
      simp [EntryWalk.call,EntryProxy.perform,Except.map]
    | firstAttribute => rfl
    | nextAttribute => rfl

end World

namespace SearchResultProxy

variable {p : SearchResultProxy} {s : SearchResult}

theorem perform_countEntries (hs : p.searchResult=some s) :
    p.perform .countEntries=.ok (.count s.entryCount,none,p) := by
  simp only [perform,countEntries,hs,Except.map]

theorem perform_firstEntry (hs : p.searchResult=some s) : p.perform .firstEntry=
    .ok (.entry s.searchEntries.head?,s.searchEntries.head?.map (fun e => ⟨e,none⟩),
      { p with iterator := some s.searchEntries.tail }) := by
  simp only [perform,firstEntry,hs,advance_eq,Except.map]
  cases s.searchEntries.head? <;> rfl

theorem perform_nextEntry {l : List Entry} (hl : p.iterator=some l) : p.perform .nextEntry=
    .ok (.entry l.head?,l.head?.map (fun e => ⟨e,none⟩),{ p with iterator := some l.tail }) := by
  simp only [perform,nextEntry,hl,advance_eq]
  cases l.head? <;> rfl

theorem perform_nextEntry_none (hl : p.iterator=none) :
    p.perform .nextEntry=.ok (.entry none,none,p) := by
  simp only [perform,nextEntry,hl]
  rfl

end SearchResultProxy

open SearchResultProxy in
/-- The entries of a result object, under its iterator. -/
def resultCursor (s : SearchResult) : Cursor (Pool.alone SearchResultProxy.perform)
    (fun p => p.searchResult=some s) .firstEntry .nextEntry s.searchEntries Answer.entry where
  rest p := p.iterator
  keep := by
    rintro p c b p' hs h
    obtain ⟨e,h⟩ := Pool.alone_ok.mp h
    cases c with
    | countEntries =>
      rw [perform_countEntries hs] at h
      cases h
      exact hs
    | firstEntry =>
      rw [perform_firstEntry hs] at h
      cases h
      exact hs
    | nextEntry =>
      cases hl : p.iterator with
      | none =>
        rw [perform_nextEntry_none hl] at h
        cases h
        exact hs
      | some l =>
        rw [perform_nextEntry hl] at h
        cases h
        exact hs
  start := by
    intro p hs
    exact ⟨_,Pool.alone_ok.mpr ⟨_,perform_firstEntry hs⟩,fun _ => rfl⟩
  move := by
    intro p l hs hl
    exact ⟨_,Pool.alone_ok.mpr ⟨_,perform_nextEntry hl⟩,fun _ => rfl⟩
  frame := by
    intro p c b p' hs h hf hn
    obtain ⟨e,h⟩ := Pool.alone_ok.mp h
    cases c with
    | countEntries =>
      rw [perform_countEntries hs] at h
      cases h
      rfl
    | firstEntry => exact absurd rfl hf
    | nextEntry => exact absurd rfl hn

namespace EntryProxy

variable {p : EntryProxy}

end EntryProxy

/-- Over results that are there no call fails, and none takes a result away. -/
def Objects.Whole (o : Objects) : Prop := ∀p∈o.sources,World.Whole p.searchResult

theorem Objects.Whole.call_ok {o : Objects} (hw : o.Whole) (a : PoolCall ResultCall EntryWalk) :
    ∃x,call o a=.ok x := by
  cases a with
  | source i c =>
    cases hp : o.sources[i]? with
    | none => exact ⟨(.gone,o),by simp [call,Pool.call,hp]⟩
    | some p =>
      obtain ⟨s,hs,-⟩ := hw p (List.mem_of_getElem? hp)
      cases c with
      | countEntries => exact ⟨_,Pool.call_source hp (SearchResultProxy.perform_countEntries hs)⟩
      | firstEntry => exact ⟨_,Pool.call_source hp (SearchResultProxy.perform_firstEntry hs)⟩
      | nextEntry => exact ⟨_,Pool.call_source hp rfl⟩
  | item i c =>
    cases hp : o.items[i]? with
    | none => exact ⟨(.gone,o),by simp [call,Pool.call,hp]⟩
    | some p => cases c <;> exact ⟨_,Pool.call_item hp rfl⟩

theorem Objects.Whole.keep {o o' : Objects} {a : PoolCall ResultCall EntryWalk} {b : Answer}
    (hw : o.Whole) (h : call o a=.ok (b,o')) : o'.Whole := by
  rcases Pool.call_ok h with rfl|⟨i,c,p,e,p',rfl,hp,ho,rfl⟩|⟨i,c,p,p',rfl,hp,ho,rfl⟩
  · exact hw
  · obtain ⟨s,hs,hn⟩ := hw p (List.mem_of_getElem? hp)
    have hs' : p'.searchResult=some s := (resultCursor s).keep hs (Pool.alone_ok.mpr ⟨e,ho⟩)
    intro q hq
    rcases List.mem_or_eq_of_mem_set hq with hq|rfl
    · exact hw q hq
    · exact ⟨s,hs',hn⟩
  · exact hw

end TiLdap.Android
