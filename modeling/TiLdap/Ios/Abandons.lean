import TiLdap.Ios.Callbacks
import TiLdap.Session.Wire

namespace TiLdap.Ios.World

open OpenLdap Wire

/-- One step on the wire that abandons nothing. -/
structure Calm (w w' : World) : Prop where
  numbered : Numbered w'.nextMessage w'.traffic
  traffic : ∃new,w'.traffic=new++w.traffic ∧ ∀e∈new,isAbandon e=false

theorem Calm.quiet {w w' : World} (hi : Numbered w.nextMessage w.traffic)
    (ht : w'.traffic=w.traffic) (hn : w'.nextMessage=w.nextMessage) : Calm w w' := by
  refine ⟨?_,[],by simpa using ht,by simp⟩
  rw [ht,hn]
  exact hi

/-- The end of `sendRequest:` adds at most the delivery of the response it waited for. -/
theorem settle_wire (r : RequestId) (async : Bool) (wait : Wait) (x : Executed) :
    (∃k,(settle r async wait x).traffic=List.replicate k (.delivered r)++x.world.traffic) ∧
    (settle r async wait x).nextMessage=x.world.nextMessage := by
  have handled : ∀(w : World) (q : Request) (v : Verdict),
      (w.handle r q v).traffic=w.traffic ∧ (w.handle r q v).nextMessage=w.nextMessage := by
    intro w q v
    simp only [handle]
    split_ifs <;> exact ⟨rfl,rfl⟩
  rw [settle]
  cases x.result with
  | error f => exact ⟨⟨0,rfl⟩,rfl⟩
  | ok code =>
    dsimp only
    split_ifs
    · have hd : ∃k,(if (ldapResult x.world.session.errno wait).chain.isSome=true
          then Traffic.delivered r::x.world.traffic else x.world.traffic)=
          List.replicate k (.delivered r)++x.world.traffic := by
        split_ifs
        · exact ⟨1,rfl⟩
        · exact ⟨0,rfl⟩
      simp only [waitForResult]
      cases waitVerdict (ldapResult x.world.session.errno wait) with
      | error f => exact ⟨hd,rfl⟩
      | ok v =>
        dsimp only
        rw [(handled _ _ _).1,(handled _ _ _).2]
        exact ⟨hd,rfl⟩
    · rw [(handled _ _ _).1,(handled _ _ _).2]
      exact ⟨⟨0,rfl⟩,rfl⟩

/-- A request calms the wire when what it put there in `execute:async:` does. -/
theorem Calm.settle {w : World} {r : RequestId} {async : Bool} {wait : Wait} {x : Executed}
    (h : Calm w x.world) : Calm w (settle r async wait x) := by
  obtain ⟨⟨k,ht⟩,hn⟩ := settle_wire r async wait x
  obtain ⟨new,ht',hnew⟩ := h.traffic
  refine ⟨?_,List.replicate k (.delivered r)++new,?_,?_⟩
  · rw [ht,hn]
    apply h.numbered.append
    simp
  · rw [ht,ht',List.append_assoc]
  · intro e he
    rcases List.mem_append.mp he with he|he
    · rw [List.eq_of_mem_replicate he]
      rfl
    · exact hnew e he

theorem plain_calm {w : World} (hi : Numbered w.nextMessage w.traffic) {op : Op}
    (h : (∃o cb lib,op=.connect o cb lib) ∨ (∃o cb lib,op=.simpleBind o cb lib) ∨
      ∃o cb lib,op=.saslBind o cb lib) : Calm w (w.perform op) := by
  obtain ⟨async,wait,x,hx,-,-,c,s,n,l,os,hw⟩ := plain_cases w h
  rw [hx]
  apply Calm.settle
  apply Calm.quiet hi <;> rw [hw]

theorem count_mono (w : World) (h : Handle) (o : SearchOptions) (send : Send) (k : Handle) :
    w.nextMessage k≤Search.count w h o send k := by
  rw [Search.count]
  split_ifs
  · apply update_mono
    cases send <;> simp only [Search.messageNumber] <;> omega
  · exact Nat.le_refl _

theorem ldapSearchExt_calm {w : World} (hi : Numbered w.nextMessage w.traffic) (r : RequestId)
    (q : Request) (h : Handle) (o : SearchOptions) (send : Send) :
    Calm w (Search.ldapSearchExt w r q h o send).world := by
  simp only [Search.ldapSearchExt]
  have hid : w.nextMessage h≤Search.messageNumber w h send := by
    cases send <;> simp only [Search.messageNumber] <;> omega
  cases hl : Search.leaves o send with
  | false =>
    simp only [Search.count,hl,Bool.false_eq_true,if_false]
    exact Calm.quiet hi rfl rfl
  | true =>
    simp only [Search.count,hl,if_true]
    exact ⟨hi.sent r hid,[.sent r h (Search.messageNumber w h send)],rfl,by simp [isAbandon]⟩

theorem search_calm {w : World} (hi : Numbered w.nextMessage w.traffic) (o : SearchOptions)
    (cb : Callbacks) (lib : SearchLib) : Calm w (w.perform (.search o cb lib)) := by
  rw [perform,sendRequest]
  obtain ⟨os,hn⟩ := note_frame w { method := .search, callbacks := cb }
  rw [hn]
  apply Calm.settle
  rcases search_cases { w with orphans := os } w.requests.length
      { method := .search, callbacks := cb } o lib with
    ⟨-,hx⟩|⟨-,-,hx⟩|⟨-,names,h,-,-,hx⟩
  · rw [hx]
    exact Calm.quiet hi rfl rfl
  · rw [hx]
    exact Calm.quiet hi rfl rfl
  · rw [hx]
    split_ifs
    · obtain ⟨hnum,htr⟩ := ldapSearchExt_calm (w := { w with
        orphans := os, searches := Search.request o names::w.searches }) hi
        w.requests.length { method := .search, callbacks := cb } h o lib.send
      exact ⟨hnum,htr⟩
    · refine ⟨?_,[],rfl,by simp⟩
      exact hi.mono fun k => count_mono { w with
        orphans := os, searches := Search.request o names::w.searches } h o lib.send k

/-- An abandon that reaches the library comes from a request that is outstanding on the session
in place. -/
def abandonGuard (w : World) : Op → Prop
  | .abandon r _ _ => w.aborted=false → ∀q h,w.requests[r]?=some q → 0≤q.messageId →
      w.connection.ld=some h → Outstanding w.traffic r h q.messageId.toNat
  | _ => True

theorem perform_calm {w : World} (hi : Numbered w.nextMessage w.traffic) {op : Op}
    (h : ∀r b e,op≠.abandon r b e) : Calm w (w.perform op) := by
  cases op with
  | connect o cb lib => exact plain_calm hi (.inl ⟨o,cb,lib,rfl⟩)
  | simpleBind o cb lib => exact plain_calm hi (.inr (.inl ⟨o,cb,lib,rfl⟩))
  | saslBind o cb lib => exact plain_calm hi (.inr (.inr ⟨o,cb,lib,rfl⟩))
  | search o cb lib => exact search_calm hi o cb lib
  | abandon r b e => exact absurd rfl (h r b e)
  | disconnect =>
    obtain ⟨c,l,hw⟩ := disconnect_frame w
    rw [perform,hw]
    exact Calm.quiet hi rfl rfl
  | destroy =>
    obtain ⟨c,l,hw⟩ := disconnect_frame w
    rw [perform,hw]
    exact Calm.quiet hi rfl rfl
  | resultCall i c =>
    obtain ⟨rs,es,fs,b,hw⟩ := resultCall_frame w i c
    rw [perform,hw]
    exact Calm.quiet hi rfl rfl
  | entryCall i c errno =>
    obtain ⟨s,es,fs,b,hw⟩ := entryCall_frame w i c errno
    rw [perform,hw]
    exact Calm.quiet hi rfl rfl
  | _ => exact Calm.quiet hi rfl rfl

theorem step_numbered (w : World) (op : Op) (hi : Numbered w.nextMessage w.traffic) :
    Numbered (step w op).nextMessage (step w op).traffic := by
  rw [step]
  split_ifs with hw
  · exact hi
  · by_cases h : ∃r b e,op=.abandon r b e
    · obtain ⟨r,b,e,rfl⟩ := h
      rw [perform]
      rcases abandon_cases w r b e with ⟨-,fs,a,hw⟩|⟨q,h,-,-,-,hw⟩
      · rw [hw]
        exact hi
      · rw [hw]
        exact hi.append [.abandoned r h q.messageId.toNat b] (by simp)
    · exact (perform_calm hi fun r b e he => h ⟨r,b,e,he⟩).numbered

/-- A step keeps every abandon on its own request exactly when it meets `abandonGuard`. -/
theorem step_own (w : World) (op : Op) (hi : Numbered w.nextMessage w.traffic)
    (ho : Own w.traffic) : Own (step w op).traffic ↔ w.abandonGuard op := by
  rw [step]
  cases hw : w.aborted with
  | true =>
    refine iff_of_true (by simpa using ho) ?_
    cases op with
    | abandon r b e =>
      intro ha
      rw [hw] at ha
      cases ha
    | _ => trivial
  | false =>
    simp only [Bool.false_eq_true,if_false]
    by_cases h : ∃r b e,op=.abandon r b e
    · obtain ⟨r,b,e,rfl⟩ := h
      rw [perform]
      rcases abandon_cases w r b e with ⟨hno,fs,a,hx⟩|⟨q,h,hq,hm,hld,hx⟩
      · rw [hx]
        refine iff_of_true ho ?_
        intro _ q h hq hm hld
        exact absurd hld (fun hld => hno q h hq hm hld)
      · rw [hx,own_abandoned hi ho]
        constructor
        · intro hout _ p k hp _ hk
          rw [hq] at hp
          cases hp
          rw [hld] at hk
          cases hk
          exact hout
        · intro hg
          exact hg hw q h hq hm hld
    · have hc := perform_calm hi fun r b e he => h ⟨r,b,e,he⟩
      obtain ⟨new,ht,hnew⟩ := hc.traffic
      rw [ht,own_append hnew]
      refine iff_of_true ho ?_
      cases op with
      | abandon r b e => exact absurd ⟨r,b,e,rfl⟩ h
      | _ => trivial

end TiLdap.Ios.World
