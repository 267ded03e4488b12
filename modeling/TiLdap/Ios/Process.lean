import TiLdap.Ios.World
import TiLdap.OpenLdap.Tls

namespace TiLdap.Ios

open Framework OpenLdap

/-- The options that `startTLS` sets for the whole process; a file without a path clears its
option. -/
def ConnectionProxy.setOptions (c : ConnectionProxy) (t : TlsOptions) : TlsOptions :=
  match c.certFile with
  | .val f =>
    let t := { t with certFile := getFilePath f }
    match c.caCertFile with
    | .val g => { t with caCertFile := getFilePath g }
    | _ => t
  | _ => { t with requireCert := .allow }

def ConnectionProxy.configure (c : ConnectionProxy) (t : Tls) : Tls :=
  { t with options := c.setOptions t.options }

/-- The policy of a connect that starts TLS. The handle exists, with its copy of the
requirement, before `startTLS` sets anything. -/
def ConnectionProxy.policy (c : ConnectionProxy) (t : Tls) : Policy :=
  ⟨(c.configure t).effective,t.options.requireCert⟩

namespace World

/-- A connect that gets as far as `ldap_start_tls_s`. -/
def startsTLS (w : World) : Op → Bool
  | .connect o _ lib =>
    (lib.rejects (o.uri.getD defaultUri)).isNone && w.connection.useTLS.getD false
  | _ => false

/-- A call in which the library may open a TLS connection of its own accord: to an ldaps server
or after a referral. -/
def talks (w : World) : Op → Bool
  | .simpleBind _ _ _ => w.connection.ld.isSome
  | .saslBind _ _ _ => w.connection.ld.isSome
  | .search _ _ _ => w.connection.ld.isSome
  | _ => false

end World

/-- A call on one of the connections of a process, and whether the library builds the default
context in it where it comes to that. -/
structure Call where
  connection : Nat
  op : Op
  built : Bool

/-- The connections of a process with what they share; `started` records the policies under
which connects started TLS, newest first. -/
structure Process where
  tls : Tls
  worlds : Nat → World := fun _ => init
  aborted : Bool := false
  started : List (Nat × Policy) := []

namespace Process

/-- The shared part after a call on connection `w`. -/
def tlsAfter (t : Tls) (w : World) (op : Op) (built : Bool) : Tls :=
  if w.startsTLS op then (w.connection.configure t).initDefCtx built
  else if w.talks op then t.initDefCtx built
  else t

def step (p : Process) (x : Call) : Process :=
  if p.aborted then p
  else
    let w := p.worlds x.connection
    { tls := tlsAfter p.tls w x.op x.built
      worlds := Function.update p.worlds x.connection (Ios.step w x.op)
      aborted := (Ios.step w x.op).aborted
      started := if w.startsTLS x.op then (x.connection,w.connection.policy p.tls)::p.started
        else p.started }

/-- A process at its start, under the options that the library finds configured. -/
def start (t : TlsOptions) : Process := { tls := { options := t } }

/-- A call that can neither set an option nor build the context. -/
def quietGuard (p : Process) (x : Call) : Prop :=
  p.aborted=false → (p.worlds x.connection).startsTLS x.op=false ∧
    ((p.worlds x.connection).talks x.op=true → x.built=false)

/-- A call leaves the other connections alone. -/
theorem step_frame (p : Process) {x : Call} {c : Nat} (h : x.connection≠c) :
    (step p x).worlds c=p.worlds c ∧ (step p x).started.lookup c=p.started.lookup c := by
  have hne : (c==x.connection)=false := by simpa using Ne.symm h
  by_cases ha : p.aborted=true
  · rw [step,if_pos ha]
    exact ⟨rfl,rfl⟩
  · rw [step,if_neg ha]
    refine ⟨Function.update_of_ne (Ne.symm h) _ _,?_⟩
    dsimp only
    split_ifs
    · rw [List.lookup_cons,hne]
    · rfl

theorem run_frame (p : Process) {xs : List Call} {c : Nat} (h : ∀x∈xs,x.connection≠c) :
    (run step p xs).worlds c=p.worlds c ∧
    (run step p xs).started.lookup c=p.started.lookup c := by
  induction xs generalizing p with
  | nil => exact ⟨rfl,rfl⟩
  | cons x xs ih =>
    obtain ⟨hw,hs⟩ := step_frame p (h x List.mem_cons_self)
    obtain ⟨hw',hs'⟩ := ih (step p x) fun y hy => h y (List.mem_cons_of_mem x hy)
    exact ⟨hw'.trans hw,hs'.trans hs⟩

theorem step_quiet {p : Process} {x : Call} (h : quietGuard p x) : (step p x).tls=p.tls := by
  by_cases ha : p.aborted=true
  · rw [step,if_pos ha]
  · obtain ⟨hs,ht⟩ := h (by simpa using ha)
    rw [step,if_neg ha]
    dsimp only
    rw [tlsAfter,hs,if_neg (by simp)]
    split_ifs with hk
    · rw [ht hk]
      cases hc : p.tls.context <;> simp [Tls.initDefCtx,hc]
    · rfl

theorem run_quiet {p : Process} {xs : List Call} (h : Along step quietGuard p xs) :
    (run step p xs).tls=p.tls := by
  induction xs generalizing p with
  | nil => rfl
  | cons x xs ih => exact (ih h.2).trans (step_quiet h.1)

end Process

end TiLdap.Ios
