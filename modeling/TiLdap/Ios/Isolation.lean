import TiLdap.Ios.Process

namespace TiLdap.Ios

open Framework OpenLdap

/-- The properties of a connection with `useTLS` true. -/
def secured (certFile caCertFile : Arg FileArg) : ConnectionProxy :=
  { useTLS := .val true, certFile := certFile, caCertFile := caCertFile }

namespace Process

/-- A new connection gets its properties and connects. -/
def arrival (c : Nat) (certFile caCertFile : Arg FileArg) (o : ConnectOptions) (cb : Callbacks)
    (lib : ConnectLib) (built : Bool) : List Call :=
  [⟨c,.setUseTLS (.val true),false⟩,⟨c,.setCertFile certFile,false⟩,
    ⟨c,.setCaCertFile caCertFile,false⟩,⟨c,.connect o cb lib,built⟩]

/-- The policy under which that connect starts TLS, if it does. -/
def observed (p : Process) (c : Nat) (certFile caCertFile : Arg FileArg) (o : ConnectOptions)
    (cb : Callbacks) (lib : ConnectLib) (built : Bool) : Option Policy :=
  (run step p (arrival c certFile caCertFile o cb lib built)).started.lookup c

/-- The process after a history of calls on connections other than `c`. -/
def after (t : TlsOptions) {c : Nat} (h : List {x : Call // x.connection≠c}) : Process :=
  run step (start t) (h.map Subtype.val)

/-- Connection `c` cannot tell the two histories of the others apart by the policy it gets. -/
def Isolated (t : TlsOptions) {c : Nat} (h h' : List {x : Call // x.connection≠c}) : Prop :=
  ∀certFile caCertFile o cb lib built,
    ∀v∈observed (after t h) c certFile caCertFile o cb lib built,
    ∀v'∈observed (after t h') c certFile caCertFile o cb lib built,v=v'

/-- The same requirement and the same context or, where there is none yet, the same options. -/
def SameTls (t t' : Tls) : Prop :=
  t.options.requireCert=t'.options.requireCert ∧ t.context=t'.context ∧
  (t.context=none → t.options=t'.options)

theorem run_aborted {p : Process} (h : p.aborted=true) (xs : List Call) : run step p xs=p := by
  induction xs with
  | nil => rfl
  | cons x xs ih =>
    have hx : step p x=p := by rw [step,if_pos h]
    rw [run_cons,hx]
    exact ih

/-- A call that the shared part does not notice. -/
theorem step_silent {t : Tls} {ws : Nat → World} {st : List (Nat × Policy)} {c : Nat}
    {w : World} {op : Op} (w' : World) (hw : ws c=w) (hs : w.startsTLS op=false)
    (ht : w.talks op=false) (hx : Ios.step w op=w') (ha : w'.aborted=false) (built : Bool) :
    step ⟨t,ws,false,st⟩ ⟨c,op,built⟩=⟨t,Function.update ws c w',false,st⟩ := by
  simp [step,tlsAfter,hw,hs,ht,hx,ha]

/-- The setters only fill in the properties. -/
theorem run_setters {t : Tls} {ws : Nat → World} {st : List (Nat × Policy)} {c : Nat}
    (hw : ws c=init) (certFile caCertFile : Arg FileArg) (xs : List Call) :
    run step ⟨t,ws,false,st⟩ (⟨c,.setUseTLS (.val true),false⟩::⟨c,.setCertFile certFile,false⟩::
        ⟨c,.setCaCertFile caCertFile,false⟩::xs)=
      run step ⟨t,Function.update ws c { connection := secured certFile caCertFile },false,st⟩
        xs := by
  let w1 : World := { connection := { useTLS := .val true } }
  let w2 : World := { connection := { useTLS := .val true, certFile := certFile } }
  let w3 : World := { connection := secured certFile caCertFile }
  have h1 : step ⟨t,ws,false,st⟩ ⟨c,.setUseTLS (.val true),false⟩=
      ⟨t,Function.update ws c w1,false,st⟩ := step_silent w1 hw rfl rfl rfl rfl false
  have h2 : step ⟨t,Function.update ws c w1,false,st⟩ ⟨c,.setCertFile certFile,false⟩=
      ⟨t,Function.update ws c w2,false,st⟩ := by
    rw [step_silent w2 (Function.update_self c w1 ws) rfl rfl rfl rfl,Function.update_idem]
  have h3 : step ⟨t,Function.update ws c w2,false,st⟩ ⟨c,.setCaCertFile caCertFile,false⟩=
      ⟨t,Function.update ws c w3,false,st⟩ := by
    rw [step_silent w3 (Function.update_self c w2 ws) rfl rfl rfl rfl,Function.update_idem]
  rw [run_cons,h1,run_cons,h2,run_cons,h3]

theorem observed_eq {p : Process} {c : Nat} (hw : p.worlds c=init)
    (hs : p.started.lookup c=none) (certFile caCertFile : Arg FileArg) (o : ConnectOptions)
    (cb : Callbacks) (lib : ConnectLib) (built : Bool) :
    observed p c certFile caCertFile o cb lib built=
      if p.aborted=false ∧ lib.rejects (o.uri.getD defaultUri)=none then
        some ((secured certFile caCertFile).policy p.tls)
      else none := by
  obtain ⟨t,ws,aborted,st⟩ := p
  have hs : st.lookup c=none := hs
  rw [observed,arrival]
  cases aborted with
  | true =>
    rw [run_aborted rfl,hs]
    simp
  | false =>
    rw [run_setters hw,run_cons,run_nil,step,if_neg (by simp)]
    dsimp only
    rw [Function.update_self]
    cases hr : lib.rejects (o.uri.getD defaultUri) with
    | none =>
      have hstart : World.startsTLS { connection := secured certFile caCertFile }
          (.connect o cb lib)=true := by
        simp only [World.startsTLS,hr]
        rfl
      simp [hstart]
    | some e => simp [World.startsTLS,hr,hs]

theorem after_frame (t : TlsOptions) {c : Nat} (h : List {x : Call // x.connection≠c}) :
    (after t h).worlds c=init ∧ (after t h).started.lookup c=none := by
  apply run_frame (start t)
  intro x hx
  obtain ⟨y,-,rfl⟩ := List.mem_map.mp hx
  exact y.2

/-- A connection that names a file sees whether there is a context, one that names none sees the
files that others left. -/
theorem sameTls_of_policy {t t' : Tls}
    (h : ∀certFile caCertFile,(secured certFile caCertFile).policy t=
      (secured certFile caCertFile).policy t') : SameTls t t' := by
  have named : ∀s : String,t.context.getD { t.options with certFile := some s }=
      t'.context.getD { t'.options with certFile := some s } :=
    fun s => congrArg Policy.context (h (.val (.file s)) .absent)
  have unnamed : t.context.getD { t.options with requireCert := .allow }=
      t'.context.getD { t'.options with requireCert := .allow } :=
    congrArg Policy.context (h .absent .absent)
  have hreq : t.options.requireCert=t'.options.requireCert :=
    congrArg Policy.requireCert (h .absent .absent)
  have ha := congrArg TlsOptions.certFile (named "a")
  have hb := congrArg TlsOptions.certFile (named "b")
  refine ⟨hreq,?_⟩
  cases hc : t.context with
  | none =>
    cases hc' : t'.context with
    | none =>
      simp only [hc,hc',Option.getD_none,TlsOptions.mk.injEq,true_and] at unnamed
      exact ⟨rfl,fun _ => TlsOptions.ext hreq unnamed.1 unnamed.2⟩
    | some y =>
      simp only [hc,hc',Option.getD_none,Option.getD_some] at ha hb
      rw [← ha] at hb
      simp at hb
  | some x =>
    cases hc' : t'.context with
    | none =>
      simp only [hc,hc',Option.getD_none,Option.getD_some] at ha hb
      rw [ha] at hb
      simp at hb
    | some y =>
      simp only [hc,hc',Option.getD_some] at unnamed
      exact ⟨congrArg some unnamed,by simp⟩

theorem policy_of_sameTls {t t' : Tls} (h : SameTls t t') (c : ConnectionProxy) :
    c.policy t=c.policy t' := by
  obtain ⟨hreq,hctx,hopt⟩ := h
  have hp : ∀u : Tls,c.policy u=
      ⟨u.context.getD (c.setOptions u.options),u.options.requireCert⟩ := fun u => rfl
  rw [hp,hp,hreq,← hctx]
  cases hc : t.context with
  | none => rw [hopt hc]
  | some x => rfl

theorem isolated_iff (t : TlsOptions) {c : Nat} (h h' : List {x : Call // x.connection≠c}) :
    Isolated t h h' ↔ ((after t h).aborted=false → (after t h').aborted=false →
      SameTls (after t h).tls (after t h').tls) := by
  obtain ⟨hw,hs⟩ := after_frame t h
  obtain ⟨hw',hs'⟩ := after_frame t h'
  rw [Isolated]
  simp only [observed_eq hw hs,observed_eq hw' hs']
  constructor
  · intro hi ha ha'
    apply sameTls_of_policy
    intro certFile caCertFile
    -- A connect that the library accepts shows the policies.
    apply hi certFile caCertFile {} ⟨true,true⟩ ⟨fun _ => none,fun _ => false,none,ldapSuccess⟩ true
    · simp [ha]
    · simp [ha']
  · intro hi certFile caCertFile o cb lib built v hv v' hv'
    have hv : ((after t h).aborted=false ∧ lib.rejects (o.uri.getD defaultUri)=none) ∧
        (secured certFile caCertFile).policy (after t h).tls=v := by simpa using hv
    have hv' : ((after t h').aborted=false ∧ lib.rejects (o.uri.getD defaultUri)=none) ∧
        (secured certFile caCertFile).policy (after t h').tls=v' := by simpa using hv'
    rw [← hv.2,← hv'.2]
    exact policy_of_sameTls (hi hv.1.1 hv'.1.1) _

end Process

end TiLdap.Ios
