import TiLdap.Android.Limits
import TiLdap.Contract.Sessions
import TiLdap.Ios.Limits

namespace TiLdap

open Framework OpenLdap

/-- Every exchange of a run is made under the limits that the properties of the connection ask for
exactly when no connect starts TLS while they ask for any but those of a new session. -/
theorem limits_in_force_iff (ops : List Ios.Op) :
    Always Ios.Watch.step Ios.Watch.InForce {} ops ↔
      Along Ios.Watch.step (fun s op => s.world.limitGuard op) {} ops := by
  apply always_iff_along Ios.Watch.step_settled Ios.Watch.step_inForce
  · intro h
    exact absurd rfl h
  · intro c hc
    cases hc

/-- With a time limit of five seconds, StartTLS waits for its answer without a limit. -/
theorem startTls_unlimited :
    ¬Always Ios.Watch.step Ios.Watch.InForce {}
      [.setTimeLimit (.val 5),.setUseTLS (.val true),
        .connect {} ⟨true,true⟩ ⟨fun _ => none,fun _ => false,none,ldapSuccess⟩] := by
  apply not_always
  intro h
  have hc := h (⟨.startTls,0,{}⟩,⟨0,5,⟨5,0⟩,⟨5,0⟩⟩) (List.mem_singleton.mpr rfl)
  cases hc

/-- After a connect, until the next one, searches of both kinds wait as long as the search asks
for, or else the connection, exactly when both ask for the same or neither asks. -/
theorem wait_bound_iff (w : Ios.World) (o : ConnectOptions) (cb : Callbacks)
    (lib : Ios.ConnectLib) (later : List Ios.Op) (q : SearchOptions)
    (hi : w.installs (.connect o cb lib)=true)
    (hl : Along Ios.step (fun w op => w.installs op=false) (Ios.step w (.connect o cb lib)) later)
    (hq : ∀s,q.timeLimit=.val s → 0< s) :
    (∀async,Ios.World.Search.waits (run Ios.step (Ios.step w (.connect o cb lib)) later)
        { q with async := .val async }=
      Ios.World.Search.intendedBound w.connection.timeLimit q.timeLimit) ↔
    Ios.World.Search.boundGuard w.connection.timeLimit q.timeLimit := by
  have hw : (Ios.step w (.connect o cb lib)).session.limits=
      Ios.World.Connect.limits w.connection := by
    rcases w.step_session (.connect o cb lib) with ⟨-,-,h⟩|⟨h,-⟩
    · exact h
    · rw [hi] at h
      cases h
  simp only [Ios.World.Search.waits,Ios.World.run_limits hl,hw]
  exact Ios.World.Search.bound_iff w.connection hq

/-- A connection and a search that both ask for five seconds. -/
theorem wait_bound_five :
    Ios.World.Search.waits
        (run Ios.step (Ios.step { connection := { timeLimit := .val 5 } } (Ios.connects none))
          [Ios.binds]) { timeLimit := .val 5, async := .val true }=some ⟨5,0⟩ ∧
    Ios.World.Search.waits
        (run Ios.step (Ios.step { connection := { timeLimit := .val 5 } } (Ios.connects none))
          [Ios.binds]) { timeLimit := .val 5, async := .val false }=some ⟨5,0⟩ := by
  have h := (wait_bound_iff { connection := { timeLimit := .val 5 } } {} ⟨true,true⟩
    ⟨fun _ => none,fun _ => false,none,ldapSuccess⟩ [Ios.binds] { timeLimit := .val 5 } rfl
    ⟨rfl,trivial⟩ (by simp)).mpr rfl
  exact ⟨h true,h false⟩

/-- Of two seconds for a connection and five for a search, a synchronous search waits five and an
asynchronous one two; without a limit of its own a synchronous one waits for ever. -/
theorem wait_bound_differs :
    let w := run Ios.step Ios.init [.setTimeLimit (.val 2),Ios.connects none,Ios.binds]
    Ios.World.Search.waits w { timeLimit := .val 5, async := .val true }≠
      Ios.World.Search.intendedBound (.val 2) (.val 5) ∧
    Ios.World.Search.waits w {}≠Ios.World.Search.intendedBound (.val 2) .absent := by
  decide

namespace Android.LDAPConnectionOptions

/-- What `setTimeLimit` stores, in integers: the milliseconds asked for, or as many as an int
holds. -/
structure Converts (o : LDAPConnectionOptions) (v : Int32) : Prop where
  response : (o.setTimeLimit v).responseTimeoutMillis.toInt=millis v
  connect : (o.setTimeLimit v).connectTimeoutMillis.toInt=min (millis v) (2^31-1)
  /-- A positive limit is not read as no timeout. -/
  limited : 0<v.toInt → 0<(o.setTimeLimit v).responseTimeoutMillis.toInt ∧
    0<(o.setTimeLimit v).connectTimeoutMillis.toInt
  /-- A smaller positive limit gives no longer timeouts. -/
  monotone : ∀u : Int32,0<u.toInt → u.toInt≤v.toInt →
    (o.setTimeLimit u).responseTimeoutMillis.toInt≤
      (o.setTimeLimit v).responseTimeoutMillis.toInt ∧
    (o.setTimeLimit u).connectTimeoutMillis.toInt≤(o.setTimeLimit v).connectTimeoutMillis.toInt
  getter : -2^31≤1000*v.toInt → 1000*v.toInt<2^31 →
    (o.setTimeLimit v).getTimeLimit.toInt=max v.toInt 0
  nonneg : 0≤(o.setTimeLimit v).getTimeLimit.toInt

end Android.LDAPConnectionOptions

section TimeLimit

open Android.LDAPConnectionOptions

/-- The conversion to milliseconds is exact exactly for the time limits whose milliseconds fit an
int, even where a long is to hold them. -/
theorem time_limit_converts_iff (o : Android.LDAPConnectionOptions) (v : Int32) :
    o.Converts v ↔ 1000*v.toInt<2^31 := by
  constructor
  · intro h
    -- the long holds an int
    have hr := h.response
    rw [setTimeLimit_response] at hr
    have hlt := (o.setTimeLimit v).connectTimeoutMillis.toInt_lt
    rw [hr,millis] at hlt
    omega
  · intro h
    have hv := o.setTimeLimit_fits h
    have hm : millis v<2^31 := by
      rw [millis]
      omega
    have hg : (o.setTimeLimit v).getTimeLimit.toInt=max v.toInt 0 := by
      rw [getTimeLimit_eq,hv,millis]
      exact Int.mul_tdiv_cancel_left _ (by decide)
    constructor
    · rw [setTimeLimit_response,hv]
    · rw [hv]
      omega
    · intro hpos
      rw [setTimeLimit_response,hv,millis]
      omega
    · intro u hu huv
      have hu' := o.setTimeLimit_fits (v := u) (by omega)
      rw [setTimeLimit_response,setTimeLimit_response,hv,hu',millis,millis]
      omega
    · intro _ _
      exact hg
    · rw [hg]
      exact le_max_right _ _

/-- A limit of 2147484 seconds becomes a negative number of milliseconds, which is no timeout, and
one of 4294968 seconds becomes 704 milliseconds. -/
theorem time_limit_wraps :
    ¬Android.LDAPConnectionOptions.Converts ⟨0,0⟩ 2147484 ∧
    ((⟨0,0⟩ : Android.LDAPConnectionOptions).setTimeLimit 2147484).responseTimeoutMillis=
      -2147483296 ∧
    ((⟨0,0⟩ : Android.LDAPConnectionOptions).setTimeLimit 4294968).responseTimeoutMillis=704 := by
  refine ⟨?_,by decide,by decide⟩
  intro h
  exact absurd h.response (by decide)

end TimeLimit

end TiLdap
