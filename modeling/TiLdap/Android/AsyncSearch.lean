import TiLdap.Android.World
import TiLdap.Framework.Schedule

namespace TiLdap.Android

open Framework

/-- What the SDK hands to a listener before the final result. -/
inductive Arrival where
  | entry (e : Entry)
  | reference (urls : List String)
  deriving DecidableEq, Repr

namespace Arrival

def event : Arrival → ListenerEvent
  | .entry e => .searchEntryReturned e
  | .reference urls => .searchReferenceReturned urls

def entry? : Arrival → Option Entry
  | .entry e => some e
  | .reference _ => none

def reference? : Arrival → Option (List String)
  | .entry _ => none
  | .reference urls => some urls

end Arrival

/-- The lists of a listener after some arrivals. -/
def gathered (arrivals : List Arrival) : Listener :=
  ⟨arrivals.filterMap Arrival.entry?,arrivals.filterMap Arrival.reference?⟩

namespace Request

def receive (q : Request) (a : Arrival) : Request :=
  match q.listener with
  | none => q
  | some l => match a with
    | .entry e => q.searchEntryReturned l e
    | .reference urls => q.searchReferenceReturned l urls

def conclude (q : Request) (result : LDAPResult) : Request :=
  match q.listener with
  | none => q
  | some l => q.searchResultReceived l result

end Request

inductive Thread where
  | caller
  | reader
  deriving DecidableEq, Repr

/-- What the calling thread still has to do once the SDK has accepted the search: store the
request id, read `_ldapResult` as the value of `execute`, and dispatch on both. -/
inductive Caller where
  | assigning
  | reading
  | dispatching (result : Option LDAPResult)
  | returned
  deriving DecidableEq, Repr

/-- What the SDK's reader still has to do: hand over the arrivals and then the final result, of
which the write of `_ldapResult` and the callback are two steps. -/
inductive Reader where
  | receiving (rest : List Arrival)
  | calling
  | finished
  deriving DecidableEq, Repr

/-- An accepted asynchronous search; both threads work on the one request object. -/
structure AsyncSearch where
  request : Request
  caller : Caller
  reader : Reader
  fired : List (Callback SearchResultProxy)

namespace AsyncSearch

def start (cb : Callbacks) (arrivals : List Arrival) : AsyncSearch where
  request := { method := .search, callbacks := cb, listener := some {} }
  caller := .assigning
  reader := .receiving arrivals
  fired := []

def callerStep (id : Nat) (s : AsyncSearch) : AsyncSearch :=
  match s.caller with
  | .assigning =>
    { s with request := { s.request with asyncRequestId := some id }, caller := .reading }
  | .reading => { s with caller := .dispatching (s.request.ldapResult.map (·.toLDAPResult)) }
  | .dispatching result =>
    { s with
      caller := .returned
      fired := s.request.emit (dispatch true s.request.asyncRequestId result)++s.fired }
  | .returned => s

def readerStep (result : LDAPResult) (s : AsyncSearch) : AsyncSearch :=
  match s.reader with
  | .receiving (a::rest) => { s with request := s.request.receive a, reader := .receiving rest }
  | .receiving [] => { s with request := s.request.conclude result, reader := .calling }
  | .calling =>
    { s with reader := .finished, fired := s.request.emit (verdictOf result)++s.fired }
  | .finished => s

/-- One step of one of the threads; `id` and `result` are what the SDK returns and receives. -/
def step (id : Nat) (result : LDAPResult) (s : AsyncSearch) : Thread → AsyncSearch
  | .caller => s.callerStep id
  | .reader => s.readerStep result

def readerLeft (s : AsyncSearch) : Nat :=
  match s.reader with
  | .receiving rest => rest.length+2
  | .calling => 1
  | .finished => 0

theorem readerLeft_callerStep (id : Nat) (s : AsyncSearch) :
    (s.callerStep id).readerLeft=s.readerLeft := by
  rw [callerStep]
  cases s.caller <;> rfl

theorem readerLeft_readerStep (result : LDAPResult) (s : AsyncSearch) :
    (s.readerStep result).readerLeft=s.readerLeft-1 := by
  unfold readerStep readerLeft
  cases hr : s.reader with
  | receiving rest => cases rest <;> simp
  | calling => rfl
  | finished => simp [hr]

/-- The reader's work goes down with its own steps only. -/
theorem readerLeft_run (id : Nat) (result : LDAPResult) (s : AsyncSearch) (sched : List Thread) :
    (run (step id result) s sched).readerLeft=s.readerLeft-sched.count .reader := by
  apply left_run
  · exact readerLeft_readerStep result
  · intro s j hj
    cases j with
    | caller => exact readerLeft_callerStep id s
    | reader => exact absurd rfl hj

/-- The search result that the listener builds. -/
def answer (arrivals : List Arrival) (result : LDAPResult) : Option SearchResult :=
  if result.resultCode=ldapSuccess then
    some ⟨result,(gathered arrivals).entryList,(gathered arrivals).referenceList,
      (gathered arrivals).entryList.length⟩
  else none

/-- The callbacks of the whole search. -/
def outcome (cb : Callbacks) (arrivals : List Arrival) (result : LDAPResult) :
    List (Callback SearchResultProxy) :=
  Request.emit { method := .search, callbacks := cb, ldapResult := answer arrivals result }
    (verdictOf result)

/-- What the request object and the callbacks look like at each point of the reader. -/
def Progress (cb : Callbacks) (arrivals : List Arrival) (result : LDAPResult) (s : AsyncSearch) :
    Prop :=
  match s.reader with
  | .receiving rest => s.fired=[] ∧ ∃seen,seen++rest=arrivals ∧
      s.request.listener=some (gathered seen) ∧ s.request.ldapResult=none
  | .calling => s.fired=[] ∧ s.request.ldapResult=answer arrivals result
  | .finished => s.fired=outcome cb arrivals result

structure Inv (cb : Callbacks) (arrivals : List Arrival) (result : LDAPResult) (id : Nat)
    (s : AsyncSearch) : Prop where
  method : s.request.method=.search
  callbacks : s.request.callbacks=cb
  assigned : s.caller≠.assigning → s.request.asyncRequestId=some id
  progress : Progress cb arrivals result s

theorem start_inv (cb : Callbacks) (arrivals : List Arrival) (result : LDAPResult) (id : Nat) :
    Inv cb arrivals result id (start cb arrivals) := by
  refine ⟨rfl,rfl,?_,rfl,[],rfl,rfl,rfl⟩
  intro h
  exact absurd rfl h

variable {cb : Callbacks} {arrivals : List Arrival} {result : LDAPResult} {id : Nat}
  {s : AsyncSearch}

/-- The progress of the reader is seen in two fields of the request only. -/
theorem Progress.congr {s' : AsyncSearch} (hp : Progress cb arrivals result s)
    (hr : s'.reader=s.reader) (hf : s'.fired=s.fired)
    (hl : s'.request.listener=s.request.listener)
    (ha : s'.request.ldapResult=s.request.ldapResult) : Progress cb arrivals result s' := by
  rw [Progress]
  rw [hr,hf,hl,ha]
  exact hp

/-- The calling thread never fires: its dispatch finds the request id. -/
theorem callerStep_inv (hi : Inv cb arrivals result id s) :
    Inv cb arrivals result id (s.callerStep id) := by
  rw [callerStep]
  cases hc : s.caller with
  | assigning => exact ⟨hi.method,hi.callbacks,fun _ => rfl,hi.progress.congr rfl rfl rfl rfl⟩
  | reading =>
    have hid := hi.assigned (by simp [hc])
    exact ⟨hi.method,hi.callbacks,fun _ => hid,hi.progress.congr rfl rfl rfl rfl⟩
  | dispatching res =>
    have hid := hi.assigned (by simp [hc])
    refine ⟨hi.method,hi.callbacks,fun _ => hid,hi.progress.congr rfl ?_ rfl rfl⟩
    simp [hid,dispatch,Request.emit,Callbacks.emit]
  | returned => exact hi

theorem gathered_concat (seen : List Arrival) (a : Arrival) {q : Request}
    (hl : q.listener=some (gathered seen)) :
    (q.receive a).listener=some (gathered (seen++[a])) ∧
    (q.receive a).ldapResult=q.ldapResult ∧ (q.receive a).method=q.method ∧
    (q.receive a).callbacks=q.callbacks ∧ (q.receive a).asyncRequestId=q.asyncRequestId := by
  rw [Request.receive]
  rw [hl]
  cases a with
  | entry e =>
    simp [Request.searchEntryReturned,gathered,List.filterMap_append,Arrival.entry?,
      Arrival.reference?]
  | reference urls =>
    simp [Request.searchReferenceReturned,gathered,List.filterMap_append,Arrival.entry?,
      Arrival.reference?]

theorem conclude_answer (result : LDAPResult) {q : Request}
    (hl : q.listener=some (gathered arrivals)) (ha : q.ldapResult=none) :
    (q.conclude result).ldapResult=answer arrivals result ∧
    (q.conclude result).method=q.method ∧ (q.conclude result).callbacks=q.callbacks ∧
    (q.conclude result).asyncRequestId=q.asyncRequestId := by
  rw [Request.conclude,answer]
  rw [hl]
  by_cases hc : result.resultCode=ldapSuccess
  · simp [Request.searchResultReceived,hc]
  · simp [Request.searchResultReceived,hc,ha]

theorem readerStep_inv (hi : Inv cb arrivals result id s) :
    Inv cb arrivals result id (s.readerStep result) := by
  have hp := hi.progress
  rw [Progress] at hp
  rw [readerStep]
  cases hr : s.reader with
  | receiving rest =>
    rw [hr] at hp
    obtain ⟨hf,seen,hs,hl,ha⟩ := hp
    cases rest with
    | nil =>
      rw [List.append_nil] at hs
      subst hs
      obtain ⟨ha',hm,hcb,hid⟩ := conclude_answer result hl ha
      exact ⟨hm.trans hi.method,hcb.trans hi.callbacks,fun h => hid.trans (hi.assigned h),hf,ha'⟩
    | cons a rest =>
      obtain ⟨hl',ha',hm,hcb,hid⟩ := gathered_concat seen a hl
      refine ⟨hm.trans hi.method,hcb.trans hi.callbacks,fun h => hid.trans (hi.assigned h),hf,
        seen++[a],?_,hl',ha'.trans ha⟩
      rw [List.append_assoc]
      exact hs
  | calling =>
    rw [hr] at hp
    obtain ⟨hf,ha⟩ := hp
    refine ⟨hi.method,hi.callbacks,hi.assigned,?_⟩
    have he : s.request.emit (verdictOf result)=outcome cb arrivals result := by
      unfold outcome Request.emit
      cases verdictOf result <;> simp [hi.method,hi.callbacks,ha,Request.resultProxy]
    rw [hf,List.append_nil,he]
    rfl
  | finished => exact hi

theorem step_inv (s : AsyncSearch) (t : Thread) (hi : Inv cb arrivals result id s) :
    Inv cb arrivals result id (step id result s t) := by
  cases t with
  | caller => exact callerStep_inv hi
  | reader => exact readerStep_inv hi

theorem run_inv (hi : Inv cb arrivals result id s) (sched : List Thread) :
    Inv cb arrivals result id (run (step id result) s sched) := by
  have h := always_of_inductive step_inv hi sched sched.length
  rwa [List.take_length] at h

/-- Whatever the schedule, the callbacks are those of the search once the reader has done all its
steps, and there are none before. -/
theorem fired_run (cb : Callbacks) (arrivals : List Arrival) (result : LDAPResult) (id : Nat)
    (sched : List Thread) : (run (step id result) (start cb arrivals) sched).fired=
      if arrivals.length+2≤ sched.count .reader then outcome cb arrivals result else [] := by
  have hi := run_inv (start_inv cb arrivals result id) sched
  have hl := readerLeft_run id result (start cb arrivals) sched
  have h0 : (start cb arrivals).readerLeft=arrivals.length+2 := rfl
  have hp := hi.progress
  rw [h0] at hl
  rw [Progress] at hp
  rw [readerLeft] at hl
  cases hr : (run (step id result) (start cb arrivals) sched).reader with
  | receiving rest =>
    rw [hr] at hp hl
    have hl : rest.length+2=arrivals.length+2-sched.count .reader := hl
    rw [if_neg (by omega)]
    exact hp.1
  | calling =>
    rw [hr] at hp hl
    have hl : 1=arrivals.length+2-sched.count .reader := hl
    rw [if_neg (by omega)]
    exact hp.1
  | finished =>
    rw [hr] at hp hl
    have hl : 0=arrivals.length+2-sched.count .reader := hl
    rw [if_pos (by omega)]
    exact hp

end AsyncSearch

end TiLdap.Android
