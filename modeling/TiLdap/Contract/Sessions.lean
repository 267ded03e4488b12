import TiLdap.Android.Connects
import TiLdap.Ios.Connects

namespace TiLdap

open Framework

namespace Android

/-- A connect that the SDK carries out, over TLS when asked for and `created`. -/
def connects (created : Bool) : Op :=
  .connect {} ⟨true,true⟩ ⟨fun _ => some ⟨some "127.0.0.1",389⟩,created,none⟩

/-- A bind that the server accepts. -/
def binds : Op := .simpleBind { password := .val "secret" } ⟨true,true⟩ none

end Android

namespace Ios

/-- A connect that the library carries out; `startTls` is the failure of StartTLS, if any. -/
def connects (startTls : Option TlsFailure) : Op :=
  .connect {} ⟨true,true⟩ ⟨fun _ => none,fun _ => false,startTls,ldapSuccess⟩

/-- A bind that the server accepts. -/
def binds : Op := .simpleBind { password := .val "secret" } ⟨true,true⟩ ⟨none,ldapSuccess⟩

end Ios

/-- The bound state is that of the newest bind on the current session throughout a run exactly
when no call installs a session or has a bind rejected while the connection is bound. -/
theorem boundState_authentic_iff (useTLS : Option Bool) (certFile : Arg FileArg)
    (ops : List Android.Op) (ops' : List Ios.Op) :
    (Always Android.step (fun w => w.slot.Authentic) (Android.init useTLS certFile) ops ↔
      Along Android.step (fun w op => w.slot.bindGuard (w.slotOp op))
        (Android.init useTLS certFile) ops) ∧
    (Always Ios.step (fun w => w.slot.Authentic) Ios.init ops' ↔
      Along Ios.step (fun w op => w.slot.bindGuard (w.slotOp op)) Ios.init ops') := by
  have fresh : Slot.Authentic Slot.init := by simp [Slot.Authentic,Slot.isBound,Slot.init]
  constructor
  · apply always_iff_along Android.World.step_valid
    · intro w op hv ha
      rw [Android.World.step_slot]
      exact Slot.step_authentic .android (w.slotOp op) hv ha
    · exact Slot.init_valid
    · exact fresh
  · apply always_iff_along Ios.World.step_valid
    · intro w op hv ha
      rw [Ios.World.step_slot]
      exact Slot.step_authentic .ios (w.slotOp op) hv ha
    · exact Slot.init_valid
    · exact fresh

/-- Reconnecting without a disconnect leaves the new session bound on both platforms. -/
theorem reconnect_keeps_bound :
    ¬Always Android.step (fun w => w.slot.Authentic) (Android.init none .absent)
      [Android.connects true,Android.binds,Android.connects true] ∧
    ¬Always Ios.step (fun w => w.slot.Authentic) Ios.init
      [Ios.connects none,Ios.binds,Ios.connects none] := by
  have stale : ¬Slot.Authentic ⟨some 1,true,2,[.transport 1 false false,.opened 1,
      .bound 0 (some "secret") true,.transport 0 false false,.opened 0]⟩ := by
    simp [Slot.Authentic,Slot.isBound,Slot.lastBind]
  exact ⟨not_always stale,not_always stale⟩

/-- A successful connect with `useTLS` gives a session with TLS in force exactly when the TLS
set-up put it in place, and the sessions of a run and the passwords handed to them are protected
throughout exactly when it does so in all of its connects. -/
theorem tls_protects_iff (w : Android.World) (w' : Ios.World) (o : ConnectOptions)
    (cb : Callbacks) (lib : Android.ConnectLib) (lib' : Ios.ConnectLib) (useTLS : Option Bool)
    (certFile : Arg FileArg) (ops : List Android.Op) (ops' : List Ios.Op) :
    (w.Honest o cb lib ↔ (cb.success=true → w.tlsGuard (.connect o cb lib))) ∧
    (w'.Honest o cb lib' ↔ (cb.success=true → w'.tlsGuard (.connect o cb lib'))) ∧
    (Always Android.step (fun w => w.slot.Shielded) (Android.init useTLS certFile) ops ↔
      Along Android.step Android.World.tlsGuard (Android.init useTLS certFile) ops) ∧
    (Always Ios.step (fun w => w.slot.Shielded) Ios.init ops' ↔
      Along Ios.step Ios.World.tlsGuard Ios.init ops') := by
  have fresh : Slot.Shielded Slot.init :=
    (Slot.shielded_iff Slot.init_valid).mpr (by simp [Slot.Protected,Slot.init])
  refine ⟨Android.World.honest_iff w o cb lib,Ios.World.honest_iff w' o cb lib',?_,?_⟩
  · apply always_iff_along Android.World.step_valid
    · intro w op hv hs
      rw [Slot.shielded_iff (Android.World.step_valid w op hv),Android.World.step_slot,
        Slot.step_protected .android _ hs.1,Android.World.tlsGuard_iff]
    · exact Slot.init_valid
    · exact fresh
  · apply always_iff_along Ios.World.step_valid
    · intro w op hv hs
      rw [Slot.shielded_iff (Ios.World.step_valid w op hv),Ios.World.step_slot,
        Slot.step_protected .ios _ hs.1,Ios.World.tlsGuard_iff]
    · exact Slot.init_valid
    · exact fresh

/-- When TLS cannot be set up, connect succeeds all the same and the next bind sends its
password in plaintext. -/
theorem failed_tls_is_plaintext :
    ¬Always Android.step (fun w => w.slot.Shielded) (Android.init (some true) .absent)
      [Android.connects false,Android.binds] ∧
    ¬Always Ios.step (fun w => w.slot.Shielded) Ios.init
      [.setUseTLS (.val true),Ios.connects (some ⟨⟨2,by decide⟩,false⟩),Ios.binds] := by
  have leak : ¬Slot.Shielded ⟨some 0,true,1,[.bound 0 (some "secret") true,
      .transport 0 true false,.opened 0]⟩ := by
    intro h
    exact h.1 0 (by simp)
  exact ⟨not_always leak,not_always leak⟩

/-- The open sessions are exactly the current one throughout a run exactly when sessions are
installed only where there is none and, on iOS, disconnected only when bound. No session is
ever closed twice. -/
theorem handles_accounted_iff (useTLS : Option Bool) (certFile : Arg FileArg)
    (ops : List Android.Op) (ops' : List Ios.Op) :
    ((Always Android.step (fun w => w.slot.Balanced) (Android.init useTLS certFile) ops ↔
        Along Android.step (fun w op => w.slot.accountGuard .android (w.slotOp op))
          (Android.init useTLS certFile) ops) ∧
      Always Android.step (fun w => (Ledger.released (Slot.accounts w.ledger)).Nodup)
        (Android.init useTLS certFile) ops) ∧
    ((Always Ios.step (fun w => w.slot.Balanced) Ios.init ops' ↔
        Along Ios.step (fun w op => w.slot.accountGuard .ios (w.slotOp op)) Ios.init ops') ∧
      Always Ios.step (fun w => (Ledger.released (Slot.accounts w.ledger)).Nodup)
        Ios.init ops') := by
  have fresh : Slot.Balanced Slot.init :=
    (Slot.balanced_iff Slot.init_valid).mpr
      (by simp [Slot.Accounted,Slot.init,Slot.accounts,Ledger.live])
  constructor
  · constructor
    · apply always_iff_along Android.World.step_valid
      · intro w op hv hb
        rw [Slot.balanced_iff (Android.World.step_valid w op hv),Android.World.step_slot,
          Slot.step_accounted .android _ hv hb.1]
      · exact Slot.init_valid
      · exact fresh
    · intro n
      have hv := always_of_inductive Android.World.step_valid
        (s := Android.init useTLS certFile) Slot.init_valid ops n
      exact Ledger.released_nodup hv.sound
  · constructor
    · apply always_iff_along Ios.World.step_valid
      · intro w op hv hb
        rw [Slot.balanced_iff (Ios.World.step_valid w op hv),Ios.World.step_slot,
          Slot.step_accounted .ios _ hv hb.1]
      · exact Slot.init_valid
      · exact fresh
    · intro n
      have hv := always_of_inductive Ios.World.step_valid (s := Ios.init) Slot.init_valid ops' n
      exact Ledger.released_nodup hv.sound

/-- A second connect leaks the first session; on iOS a disconnect before any bind leaks too. -/
theorem reconnect_leaks :
    ¬Always Android.step (fun w => w.slot.Balanced) (Android.init none .absent)
      [Android.connects true,Android.connects true] ∧
    ¬Always Ios.step (fun w => w.slot.Balanced) Ios.init [Ios.connects none,.disconnect] := by
  constructor
  · have leak : ¬Slot.Balanced ⟨some 1,false,2,[.transport 1 false false,.opened 1,
        .transport 0 false false,.opened 0]⟩ := by
      intro h
      have hl : ({1,0} : Finset Handle)={1} := h.1
      exact absurd hl (by decide)
    exact not_always leak
  · have leak : ¬Slot.Balanced ⟨none,false,1,[.transport 0 false false,.opened 0]⟩ := by
      intro h
      have hl : ({0} : Finset Handle)=∅ := h.1
      exact absurd hl (by decide)
    exact not_always leak

end TiLdap
