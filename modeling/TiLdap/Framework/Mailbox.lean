import TiLdap.Framework.Run

namespace TiLdap.Framework

/-- A system with a receiver that takes the lines of its log (newest first) in order, each under
a key. Of these the newest `waiting` are still to be taken. -/
structure Mailbox (σ : Type*) where
  state : σ
  waiting : Nat := 0

inductive MailboxOp (α : Type*) where
  | act (a : α)
  | take

namespace Mailbox

variable {σ α κ β : Type*} (step : σ → α → σ) (log : σ → List (κ × β)) (closed : σ → κ → Prop)

def unread (s : Mailbox σ) : List (κ × β) := (log s.state).take s.waiting

def taken (s : Mailbox σ) : List (κ × β) := (log s.state).drop s.waiting

def next (s : Mailbox σ) : MailboxOp α → Mailbox σ
  | .act a =>
    ⟨step s.state a,s.waiting+((log (step s.state a)).length-(log s.state).length)⟩
  | .take => ⟨s.state,s.waiting-1⟩

/-- How many lines under a key have been taken. -/
def count [DecidableEq κ] (k : κ) (s : Mailbox σ) : Nat := (s.taken log).countP (·.1=k)

/-- No line under a closed key is still to be taken. -/
def Clean (s : Mailbox σ) : Prop := ∀k b,closed s.state k → (k,b)∉s.unread log

/-- From the point at which a key is closed, no line under it is taken. -/
def Silent [DecidableEq κ] (s : Mailbox σ) (as : List (MailboxOp α)) : Prop :=
  ∀as₁ as₂,as₁++as₂=as → ∀k,closed (run (next step log) s as₁).state k →
    (run (next step log) s as).count log k=(run (next step log) s as₁).count log k

variable {step log closed}

theorem unread_act {s : Mailbox σ} {a : α} {new : List (κ × β)}
    (h : log (step s.state a)=new++log s.state) :
    (s.next step log (.act a)).unread log=new++s.unread log := by
  have hw : s.waiting+((new++log s.state).length-(log s.state).length)=
      new.length+s.waiting := by
    rw [List.length_append]
    omega
  rw [unread,next,h,hw,List.take_length_add_append]
  rfl

theorem taken_act {s : Mailbox σ} {a : α} {new : List (κ × β)}
    (h : log (step s.state a)=new++log s.state) :
    (s.next step log (.act a)).taken log=s.taken log := by
  have hw : s.waiting+((new++log s.state).length-(log s.state).length)=
      new.length+s.waiting := by
    rw [List.length_append]
    omega
  rw [taken,next,h,hw,List.drop_length_add_append]
  rfl

theorem clean_take {s : Mailbox σ} (h : s.Clean log closed) :
    (s.next step log .take).Clean log closed := by
  intro k b hc hm
  apply h k b hc
  have hs : ((log s.state).take (s.waiting-1)).Sublist ((log s.state).take s.waiting) := by
    apply List.take_sublist_take_left
    omega
  exact hs.subset hm

section Runs

variable {I : σ → Prop} (hI : ∀s a,I s → I (step s a))
  (grows : ∀s a,I s → ∃new,log (step s a)=new++log s)

include hI

theorem run_inv {s : Mailbox σ} (hs : I s.state) (as : List (MailboxOp α)) :
    I (run (next step log) s as).state := by
  induction as generalizing s with
  | nil => exact hs
  | cons a as ih =>
    rw [run_cons]
    cases a with
    | act a => exact ih (hI s.state a hs)
    | take => exact ih hs

include grows

theorem run_grows {s : Mailbox σ} (hs : I s.state) (as : List (MailboxOp α)) :
    ∃new,log (run (next step log) s as).state=new++log s.state := by
  induction as generalizing s with
  | nil => exact ⟨[],rfl⟩
  | cons a as ih =>
    rw [run_cons]
    cases a with
    | act a =>
      obtain ⟨new,hn⟩ := grows s.state a hs
      obtain ⟨new',hn'⟩ := ih (s := s.next step log (.act a)) (hI s.state a hs)
      refine ⟨new'++new,?_⟩
      rw [hn',next,hn,List.append_assoc]
    | take => exact ih (s := s.next step log .take) hs

end Runs

/-- Taking lines leaves none under a closed key where there was none. -/
theorem always_clean_take {s : Mailbox σ} (h : s.Clean log closed) (n : Nat) :
    Always (next step log) (Clean log closed) s (List.replicate n .take) := by
  induction n generalizing s with
  | zero => exact always_nil.mpr h
  | succ n ih => exact always_cons.mpr ⟨h,ih (clean_take h)⟩

theorem run_take (s : Mailbox σ) (n : Nat) :
    run (next step log) s (List.replicate n .take)=⟨s.state,s.waiting-n⟩ := by
  induction n generalizing s with
  | zero => rfl
  | succ n ih =>
    have hw : s.waiting-1-n=s.waiting-(n+1) := by omega
    rw [List.replicate_succ,run_cons,ih,next,hw]

variable [DecidableEq κ]

theorem total_eq (k : κ) (s : Mailbox σ) :
    (log s.state).countP (·.1=k)=(s.unread log).countP (·.1=k)+s.count log k := by
  rw [count,unread,taken,← List.countP_append,List.take_append_drop]

/-- Where nothing is left under a closed key, all of its lines have been taken. -/
theorem count_of_clean {s : Mailbox σ} (h : s.Clean log closed) {k : κ}
    (hc : closed s.state k) : s.count log k=(log s.state).countP (·.1=k) := by
  have hz : (s.unread log).countP (·.1=k)=0 := by
    rw [List.countP_eq_zero]
    intro p hp hk
    have he : p.1=k := by simpa using hk
    exact h p.1 p.2 (he ▸ hc) hp
  rw [total_eq,hz,Nat.zero_add]

theorem count_lt_of_unread {s : Mailbox σ} {k : κ} {b : β} (h : (k,b)∈s.unread log) :
    s.count log k<(log s.state).countP (·.1=k) := by
  have hp : 0<(s.unread log).countP (·.1=k) :=
    List.countP_pos_iff.mpr ⟨(k,b),h,by simp⟩
  rw [total_eq]
  omega

/-- Once everything has been taken, the count is that of the log. -/
theorem count_drained (s : Mailbox σ) (k : κ) :
    (run (next step log) s (List.replicate s.waiting .take)).count log k=
      (log s.state).countP (·.1=k) := by
  rw [run_take,count,taken,Nat.sub_self,List.drop_zero]

section Runs

variable {I : σ → Prop} (hI : ∀s a,I s → I (step s a))
  (grows : ∀s a,I s → ∃new,log (step s a)=new++log s)
  (stays : ∀s a k,I s → closed s k → closed (step s a) k)

include hI grows stays

theorem run_count {s : Mailbox σ} (hs : I s.state) {as : List (MailboxOp α)} {k : κ}
    (hk : closed s.state k) (hc : Always (next step log) (Clean log closed) s as) :
    (run (next step log) s as).count log k=s.count log k := by
  induction as generalizing s with
  | nil => rfl
  | cons a as ih =>
    obtain ⟨h0,hc⟩ := always_cons.mp hc
    rw [run_cons]
    cases a with
    | act a =>
      obtain ⟨new,hn⟩ := grows s.state a hs
      rw [ih (s := s.next step log (.act a)) (hI s.state a hs) (stays s.state a k hs hk) hc,
        count,taken_act hn,count]
    | take =>
      rw [ih (s := s.next step log .take) hs hk hc,count_of_clean hc.head hk,
        count_of_clean h0 hk]
      rfl

/-- However many lines are taken in the end, no key is heard of after it is closed exactly when
in no state of the run a line under a closed key is still to be taken. -/
theorem silent_iff {s : Mailbox σ} (hs : I s.state) (as : List (MailboxOp α)) :
    (∀n,Silent step log closed s (as++List.replicate n .take)) ↔
      Always (next step log) (Clean log closed) s as := by
  constructor
  · intro h n k b hc hm
    -- Draining the mailbox after the run takes the line that is still there after `n` steps.
    have hsplit : as.take n++(as.drop n++List.replicate (run (next step log) s as).waiting .take)=
        as++List.replicate (run (next step log) s as).waiting .take := by
      rw [← List.append_assoc,List.take_append_drop]
    have he := h _ _ _ hsplit k hc
    rw [run_append,count_drained] at he
    have h1 : I (run (next step log) s (as.take n)).state := run_inv hI hs _
    obtain ⟨new,hn⟩ := run_grows hI grows h1 (as.drop n)
    rw [← run_append,List.take_append_drop] at hn
    have hlt := count_lt_of_unread hm
    rw [← he,hn,List.countP_append] at hlt
    omega
  · intro h n as₁ as₂ hsplit k hk
    have ha : Always (next step log) (Clean log closed) s (as++List.replicate n .take) := by
      have hl := h as.length
      rw [List.take_length] at hl
      exact always_append.mpr ⟨h,always_clean_take hl n⟩
    have h1 : I (run (next step log) s as₁).state := run_inv hI hs _
    rw [← hsplit] at ha ⊢
    rw [run_append]
    exact run_count hI grows stays h1 hk (always_append.mp ha).2

end Runs

end Mailbox

end TiLdap.Framework
