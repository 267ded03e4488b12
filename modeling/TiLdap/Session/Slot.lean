import TiLdap.Framework.Ledger
import TiLdap.Interface.Observations
import Mathlib.Data.Finset.Option

namespace TiLdap

open Framework

/-- The two platforms differ in when `disconnect` closes the session. -/
inductive Platform where
  | android
  | ios
  deriving DecidableEq, Repr

/-- What a connection proxy is about: the current library session, the flag that it is bound,
and the history of the sessions it went through (newest event first). `next` is the first
handle the library has not given out. -/
structure Slot where
  ld : Option Handle
  bound : Bool
  next : Handle
  ledger : List SessionEvent
  deriving DecidableEq, Repr

/-- What one public call does to the slot, with the outcome the library gave it. -/
inductive SlotOp where
  | install (useTLS secure : Bool)
  | bind (password : Option String) (accepted : Bool)
  | disconnect
  | idle
  deriving DecidableEq, Repr

namespace Slot

def isBound (s : Slot) : Bool := s.ld.isSome && s.bound

def install (s : Slot) (useTLS secure : Bool) : Slot :=
  { s with
    ld := some s.next
    next := s.next+1
    ledger := .transport s.next useTLS secure::.opened s.next::s.ledger }

def bind (s : Slot) (password : Option String) (accepted : Bool) : Slot :=
  match s.ld with
  | none => s
  | some h => { s with
      bound := s.bound || accepted
      ledger := .bound h password accepted::s.ledger }

/-- Android closes whatever session there is; iOS closes it only when it is bound, and drops
the pointer in any case. -/
def disconnect : Platform → Slot → Slot
  | .android,s => match s.ld with
      | none => s
      | some h => { s with ld := none, bound := false, ledger := .closed h::s.ledger }
  | .ios,s => match s.ld with
      | none => s
      | some h =>
        if s.bound then { s with ld := none, bound := false, ledger := .closed h::s.ledger }
        else { s with ld := none }

def step (p : Platform) (s : Slot) : SlotOp → Slot
  | .install u t => s.install u t
  | .bind pw ok => s.bind pw ok
  | .disconnect => s.disconnect p
  | .idle => s

def init : Slot := ⟨none,false,0,[]⟩

/-- Only an install brings a new handle; all else keeps the handle or drops it. -/
theorem step_ld (p : Platform) (s : Slot) (op : SlotOp) :
    ((∃u t,op=.install u t) ∧ (s.step p op).ld=some s.next) ∨
    ((∀u t,op≠.install u t) ∧ ((s.step p op).ld=s.ld ∨ (s.step p op).ld=none)) := by
  cases op with
  | install u t => exact .inl ⟨⟨u,t,rfl⟩,rfl⟩
  | bind pw ok =>
    refine .inr ⟨by simp,.inl ?_⟩
    cases hd : s.ld <;> simp [step,bind,hd]
  | disconnect =>
    refine .inr ⟨by simp,.inr ?_⟩
    rw [step]
    cases p <;> cases hd : s.ld <;> cases hb : s.bound <;> simp [disconnect,hd,hb]
  | idle => exact .inr ⟨by simp,.inl rfl⟩

/-- The handles an event is about. -/
def eventHandle : SessionEvent → Handle
  | .opened h => h
  | .transport h _ _ => h
  | .bound h _ _ => h
  | .closed h => h

/-- The verdict of the newest bind completed on a handle. -/
def lastBind (h : Handle) : List SessionEvent → Option Bool
  | [] => none
  | .bound k _ ok::l => if k=h then some ok else lastBind h l
  | _::l => lastBind h l

/-- Openings and closings as movements of a ledger. -/
def movement : SessionEvent → Option (Movement Handle)
  | .opened h => some (.acquire h)
  | .closed h => some (.release h)
  | _ => none

def accounts (l : List SessionEvent) : List (Movement Handle) := l.filterMap movement

/-- The bound state is that of the newest bind on the current session. -/
def Authentic (s : Slot) : Prop :=
  s.isBound=true ↔ ∃h,s.ld=some h ∧ lastBind h s.ledger=some true

/-- No session for which TLS was asked is left in plaintext. -/
def Protected (s : Slot) : Prop := ∀h,SessionEvent.transport h true false∉s.ledger

/-- The open sessions are exactly the current one. -/
def Accounted (s : Slot) : Prop := Ledger.live (accounts s.ledger)=s.ld.toFinset

/-- Facts of the slot that hold in every reachable state, whatever the calls. -/
structure Valid (s : Slot) : Prop where
  unbound : s.ld=none → s.bound=false
  fresh : ∀e∈s.ledger,eventHandle e<s.next
  current : ∀h,s.ld=some h → h∈Ledger.live (accounts s.ledger)
  installed : ∀h,s.ld=some h → ∃u t,SessionEvent.transport h u t∈s.ledger
  passwords : ∀h pw ok,SessionEvent.bound h pw ok∈s.ledger →
    ∃u t,SessionEvent.transport h u t∈s.ledger
  sound : Ledger.Sound (accounts s.ledger)

theorem lastBind_fresh {l : List SessionEvent} {n : Handle}
    (h : ∀e∈l,eventHandle e<n) : lastBind n l=none := by
  induction l with
  | nil => rfl
  | cons e l ih =>
    have hl := ih (fun e he => h e (List.mem_cons_of_mem _ he))
    cases e with
    | bound k pw ok =>
      have hk : k<n := h _ List.mem_cons_self
      simp [lastBind,hl,Nat.ne_of_lt hk]
    | _ => simpa [lastBind] using hl

theorem acquired_lt {l : List SessionEvent} {n : Handle} (h : ∀e∈l,eventHandle e<n) :
    ∀k∈Ledger.acquired (accounts l),k<n := by
  induction l with
  | nil => simp [accounts,Ledger.acquired]
  | cons e l ih =>
    have hl := ih (fun e he => h e (List.mem_cons_of_mem _ he))
    have he : eventHandle e<n := h e List.mem_cons_self
    cases e <;>
      simp only [accounts,List.filterMap_cons,movement,Ledger.acquired,List.mem_cons] at hl ⊢
    all_goals first
      | exact hl
      | (rintro k (rfl|hk); exacts [he,hl k hk])

theorem accounts_cons (e : SessionEvent) (l : List SessionEvent) :
    accounts (e::l)=(movement e).toList++accounts l := by
  cases e <;> rfl

theorem init_valid : Valid init := by
  constructor <;> simp [init,accounts,Ledger.Sound]

theorem install_valid {s : Slot} (h : Valid s) (u t : Bool) : Valid (s.install u t) := by
  have new : s.next∉Ledger.acquired (accounts s.ledger) :=
    fun hk => Nat.lt_irrefl _ (acquired_lt h.fresh _ hk)
  refine ⟨by simp [install],?_,?_,?_,?_,?_⟩
  · intro e he
    simp only [install,List.mem_cons] at he ⊢
    rcases he with rfl|rfl|he
    · exact Nat.lt_succ_self _
    · exact Nat.lt_succ_self _
    · exact Nat.lt_succ_of_lt (h.fresh e he)
  · intro k hk
    have hk : s.next=k := by simpa [install] using hk
    subst k
    simp [install,accounts_cons,movement,Ledger.live]
  · intro k hk
    have hk : s.next=k := by simpa [install] using hk
    exact ⟨u,t,by simp [install,hk]⟩
  · intro k pw ok hk
    simp only [install,List.mem_cons,reduceCtorEq,false_or] at hk
    obtain ⟨u',t',ht⟩ := h.passwords k pw ok hk
    exact ⟨u',t',by simp [install,ht]⟩
  · simpa [install,accounts_cons,movement,Ledger.Sound] using ⟨new,h.sound⟩

theorem bind_valid {s : Slot} (h : Valid s) (pw : Option String) (ok : Bool) :
    Valid (s.bind pw ok) := by
  cases hld : s.ld with
  | none => simpa [bind,hld] using h
  | some k =>
    obtain ⟨u,t,ht⟩ := h.installed k hld
    have lt : k<s.next := h.fresh _ ht
    refine ⟨by simp [bind,hld],?_,?_,?_,?_,?_⟩
    · intro e he
      simp only [bind,hld,List.mem_cons] at he ⊢
      rcases he with rfl|he
      · exact lt
      · exact h.fresh e he
    · intro j hj
      simp only [bind,hld] at hj ⊢
      exact h.current j (hld.trans hj)
    · intro j hj
      simp only [bind,hld,List.mem_cons] at hj ⊢
      obtain ⟨u',t',hj⟩ := h.installed j (hld.trans hj)
      exact ⟨u',t',Or.inr hj⟩
    · intro j pw' ok' hj
      simp only [bind,hld,List.mem_cons,SessionEvent.bound.injEq] at hj ⊢
      rcases hj with ⟨rfl,-,-⟩|hj
      · exact ⟨u,t,Or.inr ht⟩
      · obtain ⟨u',t',hj⟩ := h.passwords j pw' ok' hj
        exact ⟨u',t',Or.inr hj⟩
    · simpa [bind,hld,accounts_cons,movement] using h.sound

private theorem close_valid {s : Slot} (h : Valid s) {k : Handle} (hk : s.ld=some k) :
    Valid { s with ld := none, bound := false, ledger := .closed k::s.ledger } := by
  obtain ⟨u,t,ht⟩ := h.installed k hk
  have lt : k<s.next := h.fresh _ ht
  refine ⟨by simp,?_,by simp,by simp,?_,?_⟩
  · intro e he
    rcases List.mem_cons.mp he with rfl|he
    · exact lt
    · exact h.fresh e he
  · intro j pw ok hj
    simp only [List.mem_cons,reduceCtorEq,false_or] at hj
    obtain ⟨u',t',hj⟩ := h.passwords j pw ok hj
    exact ⟨u',t',List.mem_cons_of_mem _ hj⟩
  · simpa [accounts_cons,movement,Ledger.Sound] using ⟨h.current k hk,h.sound⟩

theorem disconnect_valid (p : Platform) {s : Slot} (h : Valid s) :
    Valid (s.disconnect p) := by
  cases hld : s.ld with
  | none => cases p <;> simpa [disconnect,hld] using h
  | some k =>
    cases p with
    | android => simpa [disconnect,hld] using close_valid h hld
    | ios =>
      cases hb : s.bound with
      | true => simpa [disconnect,hld,hb] using close_valid h hld
      | false =>
        simp only [disconnect,hld,hb,Bool.false_eq_true,if_false]
        exact ⟨fun _ => rfl,h.fresh,by simp,by simp,h.passwords,h.sound⟩

theorem step_valid (p : Platform) (s : Slot) (op : SlotOp) (h : Valid s) :
    Valid (s.step p op) := by
  cases op with
  | install u t => exact install_valid h u t
  | bind pw ok => exact bind_valid h pw ok
  | disconnect => exact disconnect_valid p h
  | idle => exact h

end Slot

end TiLdap
