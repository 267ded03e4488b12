import TiLdap.Ios.Refinement

namespace TiLdap.Ios

open Framework OpenLdap

/-- The options of a session that the limits of a connection go to. -/
inductive LimitOption where
  | sizeLimit (value : Int)
  | timeLimit (tv : Timeval)
  | timeout (tv : Timeval)
  | networkTimeout (tv : Timeval)
  deriving DecidableEq, Repr

/-- `ldap_set_option` on a session checks none of these values; the time limit is the integer at
the start of the structure it is handed, which is the number of seconds. -/
def ldapSetOption (l : Limits) : LimitOption → Int × Limits
  | .sizeLimit value => (ldapSuccess,{ l with sizeLimit := value })
  | .timeLimit tv => (ldapSuccess,{ l with timeLimit := tv.sec })
  | .timeout tv => (ldapSuccess,{ l with apiTimeout := tv })
  | .networkTimeout tv => (ldapSuccess,{ l with networkTimeout := tv })

namespace World.Connect

def setSizeLimit (c : ConnectionProxy) (l : Limits) : Limits :=
  match c.sizeLimit with
  | .val value => (ldapSetOption l (.sizeLimit value)).2
  | _ => l

/-- Each of the three options is set only when the one before it was. -/
def setTimeLimit (c : ConnectionProxy) (l : Limits) : Limits :=
  match c.timeLimit with
  | .val value =>
    let tv := timeval value
    let x := ldapSetOption l (.timeLimit tv)
    let x := if x.1=ldapSuccess then ldapSetOption x.2 (.timeout tv) else x
    let x := if x.1=ldapSuccess then ldapSetOption x.2 (.networkTimeout tv) else x
    x.2
  | _ => l

/-- What `execute:async:` does with a new session, in its order: the limits under which StartTLS
runs, if it does, and the limits that stay. -/
def script (c : ConnectionProxy) : Option Limits × Limits :=
  let l : Limits := {}
  let startTLS := if c.useTLS.getD false then some l else none
  let l := setSizeLimit c l
  let l := setTimeLimit c l
  (startTLS,l)

theorem script_limits (c : ConnectionProxy) : (script c).2=limits c := by
  cases hs : c.sizeLimit <;> cases ht : c.timeLimit <;>
    simp [script,setSizeLimit,setTimeLimit,limits,ldapSetOption,hs,ht]

theorem limits_sizeLimit (c : ConnectionProxy) : (limits c).sizeLimit=c.sizeLimit.getD 0 := by
  cases hs : c.sizeLimit <;> cases ht : c.timeLimit <;> simp [limits,hs,ht,Arg.getD]

/-- A negative time limit is one of -1 for the session, too. -/
theorem limits_timeLimit (c : ConnectionProxy) :
    (limits c).timeLimit=if c.timeLimit.getD 0<0 then -1 else c.timeLimit.getD 0 := by
  cases hs : c.sizeLimit <;> cases ht : c.timeLimit with
  | val v =>
    by_cases hv : v<0
    · simp [limits,hs,ht,Arg.getD,timeval,hv]
    · simp [limits,hs,ht,Arg.getD,timeval,hv]
  | _ => simp [limits,hs,ht,Arg.getD]

/-- The limits that a connection asks for are those of a new session when it gives no time limit
and no size limit but zero. -/
theorem limits_eq_default_iff (c : ConnectionProxy) :
    limits c={} ↔ c.timeLimit.get?=none ∧ c.sizeLimit.getD 0=0 := by
  have hd : (⟨-1,0⟩ : Timeval)=({} : Limits).apiTimeout := rfl
  have ht : ∀v,timeval v≠⟨-1,0⟩ := by
    intro v
    rw [timeval]
    split_ifs with hv
    · simp
    · intro h
      have hs : v= -1 := congrArg Timeval.sec h
      omega
  cases hs : c.sizeLimit <;> cases hc : c.timeLimit <;>
    simp [limits,hs,hc,Arg.get?,Arg.getD,ht]

end World.Connect

/-- The library calls that talk to the server. -/
inductive Exchange where
  | startTls
  | bind
  | search
  | result
  | abandon
  | unbind
  deriving DecidableEq, Repr

/-- A call that talks to the server, with the limits that its session has at the time. -/
structure NetworkCall where
  kind : Exchange
  handle : Handle
  limits : Limits
  deriving DecidableEq, Repr

namespace World

/-- A connect that installs a session. -/
def installs (w : World) : Op → Bool
  | .connect o _ lib => !w.aborted && (lib.rejects (o.uri.getD defaultUri)).isNone
  | _ => false

/-- A call on the current session, if there is one. -/
def onSession (w : World) (kind : Exchange) : List NetworkCall :=
  match w.connection.ld with
  | none => []
  | some h => [⟨kind,h,w.session.limits⟩]

/-- The calls to the server that an operation makes. -/
def exchanges (w : World) (op : Op) : List NetworkCall :=
  if w.aborted then []
  else match op with
    | .connect o _ lib => match lib.rejects (o.uri.getD defaultUri) with
        | some _ => []
        | none => (Connect.script w.connection).1.toList.map
            fun l => ⟨.startTls,w.nextHandle,l⟩
    | .simpleBind _ _ _ => w.onSession .bind
    | .saslBind _ _ _ => w.onSession .bind
    | .search o _ lib =>
      if w.connection.isBound then match Search.attrs o with
        | .error _ => []
        | .ok _ => w.onSession .search++
            if o.async.getD false && Search.leaves o lib.send then w.onSession .result else []
      else []
    | .disconnect => if w.connection.isBound then w.onSession .unbind else []
    | .destroy => if w.connection.isBound then w.onSession .unbind else []
    | .abandon r _ _ => match w.requests[r]? with
        | none => []
        | some q => if q.messageId<0 then [] else w.onSession .abandon
    | _ => []

theorem mem_onSession {w : World} {kind : Exchange} {c : NetworkCall} (h : c∈w.onSession kind) :
    w.connection.ld≠none ∧ c.limits=w.session.limits := by
  rw [onSession] at h
  cases hld : w.connection.ld with
  | none => simp [hld] at h
  | some k =>
    rw [hld,List.mem_singleton] at h
    rw [h]
    exact ⟨by simp,rfl⟩

/-- Except for the StartTLS of a connect, every exchange runs under the limits of the session. -/
theorem exchanges_limits {w : World} {op : Op} (hi : w.installs op=false) {c : NetworkCall}
    (h : c∈w.exchanges op) : w.connection.ld≠none ∧ c.limits=w.session.limits := by
  unfold exchanges at h
  cases hw : w.aborted with
  | true =>
    rw [if_pos hw] at h
    cases h
  | false =>
    rw [if_neg (by simp [hw])] at h
    cases op with
    | connect o cb lib =>
      cases hj : lib.rejects (o.uri.getD defaultUri) with
      | some e =>
        simp only [hj] at h
        cases h
      | none => simp [installs,hw,hj] at hi
    | simpleBind o cb lib => exact mem_onSession h
    | saslBind o cb lib => exact mem_onSession h
    | search o cb lib =>
      cases hb : w.connection.isBound with
      | false =>
        simp only [hb,Bool.false_eq_true,if_false] at h
        cases h
      | true =>
        cases ha : Search.attrs o with
        | error f =>
          simp only [hb,ha,if_true] at h
          cases h
        | ok names =>
          simp only [hb,ha,if_true] at h
          rcases List.mem_append.mp h with h|h
          · exact mem_onSession h
          · split_ifs at h
            · exact mem_onSession h
            · cases h
    | disconnect =>
      dsimp only at h
      split_ifs at h
      · exact mem_onSession h
      · cases h
    | destroy =>
      dsimp only at h
      split_ifs at h
      · exact mem_onSession h
      · cases h
    | abandon r ok errno =>
      cases hq : w.requests[r]? with
      | none =>
        simp only [hq] at h
        cases h
      | some q =>
        simp only [hq] at h
        split_ifs at h
        · cases h
        · exact mem_onSession h
    | _ => cases h

/-- After `execute:async:` only the result code of the session changes. -/
theorem settle_limits (r : RequestId) (async : Bool) (wait : Wait) (x : Executed) :
    (settle r async wait x).session.limits=x.world.session.limits := by
  obtain ⟨c,e,q,rs,t,f,fs,b,hw⟩ := settle_frame r async wait x
  rw [hw]

theorem note_session (w : World) (q : Request) : (w.note q).session=w.session := by
  obtain ⟨os,hn⟩ := note_frame w q
  rw [hn]

theorem bindOn_limits (w : World) (q : Request) (password : Arg String) (lib : BindLib) :
    (w.bindOn q password lib).world.session.limits=w.session.limits := by
  rw [bindOn]
  cases w.connection.ld <;> rfl

theorem search_limits (w : World) (r : RequestId) (q : Request) (o : SearchOptions)
    (lib : SearchLib) :
    (Search.execute w r q o lib).world.session.limits=w.session.limits := by
  rcases search_cases w r q o lib with ⟨-,hx⟩|⟨-,-,hx⟩|⟨-,names,h,-,-,hx⟩
  · rw [hx]
    rfl
  · rw [hx]
  · rw [hx]
    split_ifs <;> rfl

theorem perform_limits {w : World} {op : Op} (hw : w.aborted=false) :
    (w.perform op).session.limits=
      if w.installs op then Connect.limits w.connection else w.session.limits := by
  cases op with
  | connect o cb lib =>
    rw [perform,sendRequest,settle_limits]
    simp only [Connect.execute,installs,hw,note_connection]
    cases lib.rejects (o.uri.getD defaultUri) with
    | none => rfl
    | some e => simp [note_session]
  | simpleBind o cb lib =>
    rw [perform,sendRequest,settle_limits,bindOn_limits,note_session]
    rfl
  | saslBind o cb lib =>
    rw [perform,sendRequest,settle_limits,← note_session w { method := .saslBind, callbacks := cb }]
    simp only [SaslBind.execute,installs,Bool.false_eq_true,if_false]
    split_ifs
    · rfl
    · exact bindOn_limits _ _ _ _
  | search o cb lib =>
    rw [perform,sendRequest,settle_limits,search_limits,note_session]
    rfl
  | disconnect =>
    obtain ⟨c,l,h⟩ := disconnect_frame w
    rw [perform,h]
    rfl
  | destroy =>
    obtain ⟨c,l,h⟩ := disconnect_frame w
    rw [perform,h]
    rfl
  | abandon r ok errno =>
    rw [perform]
    rcases abandon_cases w r ok errno with ⟨-,fs,b,h⟩|⟨q,k,-,-,-,h⟩
    · rw [h]
      rfl
    · rw [h]
      rfl
  | resultCall i c =>
    obtain ⟨rs,es,fs,b,h⟩ := resultCall_frame w i c
    rw [perform,h]
    rfl
  | entryCall i c errno =>
    rw [perform,entryCall]
    cases w.entries[i]? with
    | none => rfl
    | some p => cases hc : p.call w.connection.ld c <;> simp only [hc] <;> rfl
  | _ => rfl

theorem installs_iff (w : World) (op : Op) :
    w.installs op=true ↔ ∃u t,w.slotOp op=.install u t := by
  unfold slotOp
  cases hw : w.aborted with
  | true => cases op <;> simp [installs,hw]
  | false =>
    cases op with
    | connect o cb lib => cases hj : lib.rejects (o.uri.getD defaultUri) <;> simp [installs,hw,hj]
    | _ => simp [installs]

theorem step_limits (w : World) (op : Op) : (step w op).session.limits=
    if w.installs op then Connect.limits w.connection else w.session.limits := by
  cases hw : w.aborted with
  | true =>
    have hi : w.installs op=false := by cases op <;> simp [installs,hw]
    simp [step,hw,hi]
  | false => simpa [step,hw] using perform_limits hw

/-- What a step does to the session: it installs a new one, drops it, or leaves it and its limits
as they are. -/
theorem step_session (w : World) (op : Op) :
    (w.installs op=true ∧ (step w op).connection.ld=some w.nextHandle ∧
      (step w op).session.limits=Connect.limits w.connection) ∨
    (w.installs op=false ∧
      ((step w op).connection.ld=w.connection.ld ∨ (step w op).connection.ld=none) ∧
      (step w op).session.limits=w.session.limits) := by
  have hld : (step w op).connection.ld=(w.slot.step .ios (w.slotOp op)).ld :=
    congrArg Slot.ld (step_slot w op)
  have hl := step_limits w op
  rcases w.slot.step_ld .ios (w.slotOp op) with ⟨hi,hd⟩|⟨hi,hd⟩
  · have hi : w.installs op=true := (installs_iff w op).mpr hi
    rw [hi,if_pos rfl] at hl
    exact .inl ⟨hi,hld.trans hd,hl⟩
  · have hi : w.installs op=false := by
      rw [Bool.eq_false_iff]
      intro h
      obtain ⟨u,t,ho⟩ := (installs_iff w op).mp h
      exact hi u t ho
    rw [hi,if_neg (by simp)] at hl
    rw [hld]
    exact .inr ⟨hi,hd,hl⟩

/-- Until another session is installed, the limits stay. -/
theorem run_limits {w : World} {ops : List Op}
    (h : Along step (fun w op => w.installs op=false) w ops) :
    (run step w ops).session.limits=w.session.limits := by
  induction ops generalizing w with
  | nil => rfl
  | cons op ops ih =>
    rw [run_cons,ih h.2]
    rcases w.step_session op with ⟨hi,-⟩|⟨-,-,hl⟩
    · rw [h.1] at hi
      cases hi
    · exact hl

namespace Search

/-- The timeout that reaches `ldap_result`: a synchronous search hands on its own, the wait for an
asynchronous one passes null. -/
def timeout (o : SearchOptions) : Option Timeval :=
  if o.async.getD false then none else some (timeVal o)

/-- The bound on the wait for the response to a search, if it has one. -/
def waits (w : World) (o : SearchOptions) : Option Timeval :=
  waitBound w.session.limits.apiTimeout (timeout o)

/-- The bound that a search asks for, else that of the connection if it is positive. -/
def intendedBound (connection search : Arg Int) : Option Timeval :=
  match search with
  | .val s => some ⟨s,0⟩
  | _ => match connection with
    | .val c => if 0<c then some ⟨c,0⟩ else none
    | _ => none

/-- The search repeats the time limit of the connection, or neither asks for one. -/
def boundGuard (connection search : Arg Int) : Prop :=
  match search with
  | .val s => connection=.val s
  | _ => ∀c,connection=.val c → c<0

theorem waitBound_null (c : ConnectionProxy) :
    waitBound (Connect.limits c).apiTimeout none=match c.timeLimit with
      | .val v => if 0≤v then some ⟨v,0⟩ else none
      | _ => none := by
  cases hs : c.sizeLimit <;> cases hc : c.timeLimit with
  | absent => simp [Connect.limits,hs,hc,waitBound]
  | null => simp [Connect.limits,hs,hc,waitBound]
  | val v =>
    by_cases hv : v<0
    · have hn : ¬0≤v := by omega
      simp [Connect.limits,Connect.timeval,hs,hc,hv,hn,waitBound]
    · have hn : 0≤v := by omega
      have hm : v≠ -1 := by omega
      simp [Connect.limits,Connect.timeval,hs,hc,hv,hn,hm,waitBound]

/-- The waits of both kinds of search under the limits of a connection. -/
theorem bound_iff (c : ConnectionProxy) {o : SearchOptions}
    (ho : ∀s,o.timeLimit=.val s → 0<s) :
    (∀async,waitBound (Connect.limits c).apiTimeout (timeout { o with async := .val async })=
      intendedBound c.timeLimit o.timeLimit) ↔ boundGuard c.timeLimit o.timeLimit := by
  simp only [Bool.forall_bool,timeout,Arg.getD,Bool.false_eq_true,if_false,if_true,
    waitBound_null,timeVal]
  cases hs : o.timeLimit with
  | val s =>
    have hpos : 0<s := ho s hs
    have hm : s≠ -1 := by omega
    simp only [waitBound,intendedBound,boundGuard,ne_eq,hm,not_false_iff,if_true,true_and]
    cases hc : c.timeLimit with
    | val v =>
      by_cases hv : 0≤v
      · simp [hv]
      · have hne : v≠s := by omega
        simp [hv,hne]
    | _ => simp
  | _ =>
    simp only [waitBound,intendedBound,boundGuard]
    cases hc : c.timeLimit with
    | val v =>
      by_cases hv : 0≤v
      · have hn : ¬v<0 := by omega
        by_cases h0 : 0<v
        · simp [hv,hn,h0]
        · simp [hv,hn,h0]
      · have hn : v<0 := by omega
        have h0 : ¬0<v := by omega
        simp [hv,hn,h0]
    | _ => simp

end Search

/-- Where StartTLS runs, the connection asks for no limit but the ones a session starts with. -/
def limitGuard (w : World) (op : Op) : Prop :=
  w.installs op=true → w.connection.useTLS.getD false=true →
    w.connection.timeLimit.get?=none ∧ w.connection.sizeLimit.getD 0=0

end World

/-- A run with its exchanges (newest first), each beside the limits that the properties of the
connection asked for when its session was installed. `owed` are those of the current session. -/
structure Watch where
  world : World := {}
  owed : Limits := {}
  calls : List (NetworkCall × Limits) := []

namespace Watch

def step (s : Watch) (op : Op) : Watch :=
  let owed := if s.world.installs op then World.Connect.limits s.world.connection else s.owed
  { world := Ios.step s.world op
    owed := owed
    calls := (s.world.exchanges op).map (fun c => (c,owed))++s.calls }

/-- Every exchange so far ran under the limits that were asked for. -/
def InForce (s : Watch) : Prop := ∀c∈s.calls,c.1.limits=c.2

/-- The current session has the limits that were asked for. -/
def Settled (s : Watch) : Prop := s.world.connection.ld≠none → s.world.session.limits=s.owed

theorem step_settled (s : Watch) (op : Op) (h : s.Settled) : (s.step op).Settled := by
  intro hld
  simp only [step] at hld ⊢
  rcases s.world.step_session op with ⟨hi,-,hl⟩|⟨hi,hd,hl⟩
  · simp [hi,hl]
  · simp only [hi,hl,Bool.false_eq_true,if_false]
    apply h
    rcases hd with hd|hd
    · rwa [hd] at hld
    · exact absurd hd hld

theorem step_inForce (s : Watch) (op : Op) (hs : s.Settled) (hf : s.InForce) :
    (s.step op).InForce ↔ s.world.limitGuard op := by
  have hsplit : (s.step op).InForce ↔ ∀c∈s.world.exchanges op,c.limits=
      if s.world.installs op then World.Connect.limits s.world.connection else s.owed := by
    simp only [InForce,step,List.forall_mem_append,List.forall_mem_map]
    exact ⟨fun h => h.1,fun h => ⟨h,hf⟩⟩
  rw [hsplit]
  cases hi : s.world.installs op with
  | false =>
    constructor
    · intro _ hi'
      rw [hi] at hi'
      cases hi'
    · intro _ c hc
      obtain ⟨hld,hl⟩ := World.exchanges_limits hi hc
      rw [hl]
      exact hs hld
  | true =>
    cases op with
    | connect o cb lib =>
      obtain ⟨hw,hj⟩ : s.world.aborted=false ∧ lib.rejects (o.uri.getD defaultUri)=none := by
        simpa [World.installs] using hi
      simp only [if_true,World.limitGuard,hi,true_implies,← World.Connect.limits_eq_default_iff]
      cases hu : s.world.connection.useTLS.getD false with
      | false => simp [World.exchanges,hw,hj,World.Connect.script,hu]
      | true => simp [World.exchanges,hw,hj,World.Connect.script,hu,eq_comm]
    | _ => cases hi

end Watch

end TiLdap.Ios
