import TiLdap.Ios.Outcomes

namespace TiLdap.Ios.World

open OpenLdap

/-- A success stands for a request that was sent and a final result with code zero that came in,
and carries its chain; an error has another code than zero. -/
def Sound (o : SearchOptions) (lib : SearchLib) : Callback SearchResultProxy → Prop
  | .success _ p => Search.leaves o lib.send=true ∧
      ∃c,lib.wait.chain?=some c ∧ c.final=some ldapSuccess ∧ p=some ⟨some c,none⟩
  | .error _ code _ => code≠ldapSuccess

/-- The callbacks of a search on a bound connection are sound. -/
def SearchSound (w : World) : Op → Prop
  | .search o cb lib =>
    w.connection.isBound=true → ∀x∈posted w (.search o cb lib),Sound o lib x
  | _ => True

/-- A search is not misled: an asynchronous one with a zero time limit meets a failed last
operation; a queued response that starts with a reference or an intermediate message is a
successful one where a synchronous search finds no result code in the session; a failed wait
leaves a result code. Nothing is asked for a callback that is not there. -/
def searchGuard (w : World) : Op → Prop
  | .search o cb lib => Accepted w o →
    ((Search.timeVal o).zero → o.async.getD false=true → w.session.errno=ldapSuccess →
      cb.success=false) ∧
    (¬(Search.timeVal o).zero → ∀skip busy,lib.send=.sent skip busy →
      (∀c,lib.wait=.queued c → c.leadsAside=true → o.async.getD false=false → busy=false →
        c.final≠some ldapSuccess → cb.success=false) ∧
      (∀rc stored,lib.wait=.failed rc stored → stored.getD (sentErrno busy)=ldapSuccess →
        if o.async.getD false=true then (rc : Int)= -1 → cb.error=false else cb.success=false))
  | _ => True

/-- What the verdict has to be for the callbacks to be sound. -/
def SoundVerdict (o : SearchOptions) (cb : Callbacks) (lib : SearchLib) (m : Option Chain) :
    Verdict → Prop
  | .initiated => True
  | .succeeded => cb.success=true → Search.leaves o lib.send=true ∧
      ∃c,lib.wait.chain?=some c ∧ c.final=some ldapSuccess ∧ m=some c
  | .failed code _ => cb.error=true → code≠ldapSuccess

theorem emit_sound (o : SearchOptions) (cb : Callbacks) (lib : SearchLib) (m : Option Chain)
    (v : Verdict) :
    (∀x∈Request.emit { method := .search, callbacks := cb, ldapMessage := m } v,Sound o lib x) ↔
      SoundVerdict o cb lib m v := by
  cases v with
  | initiated => simp [Request.emit,Callbacks.emit,SoundVerdict]
  | succeeded =>
    cases hs : cb.success <;>
      simp [Request.emit,Callbacks.emit,SoundVerdict,hs,Sound,Request.resultProxy]
  | failed code t =>
    cases he : cb.error <;> simp [Request.emit,Callbacks.emit,SoundVerdict,he,Sound]

theorem soundVerdict_verdictOf {o : SearchOptions} {cb : Callbacks} {lib : SearchLib}
    {m : Option Chain} {code : Int} (h : code≠ldapSuccess) :
    SoundVerdict o cb lib m (verdictOf code) := by
  rw [verdictOf,if_neg h]
  intro _
  exact h

theorem soundVerdict_chain {o : SearchOptions} {cb : Callbacks} {lib : SearchLib} {c : Chain}
    (hl : Search.leaves o lib.send=true) (hc : lib.wait.chain?=some c) :
    SoundVerdict o cb lib (some c) (chainVerdict c) := by
  rw [chainVerdict]
  split_ifs with hf
  · intro _
    exact ⟨hl,c,hc,hf,rfl⟩
  · intro _
    rw [ldapParseResult]
    cases hcode : c.final with
    | none => decide
    | some code =>
      rintro rfl
      exact hf hcode

theorem leaves_sent {o : SearchOptions} (ht : ¬(Search.timeVal o).zero) (skip : Nat)
    (busy : Bool) : Search.leaves o (.sent skip busy)=true := by
  have ht : ¬((Search.timeVal o).sec=0 ∧ (Search.timeVal o).usec=0) := ht
  exact decide_eq_true ht

theorem syncVerdict_sound {o : SearchOptions} (ht : ¬(Search.timeVal o).zero) (cb : Callbacks)
    (skip : Nat) (busy : Bool) (wait : Wait) :
    SoundVerdict o cb ⟨.sent skip busy,wait⟩ wait.chain? (syncVerdict busy wait) ↔
      (∀c,wait=.queued c → c.leadsAside=true → busy=false → c.final≠some ldapSuccess →
        cb.success=false) ∧
      (∀rc stored,wait=.failed rc stored → stored.getD (sentErrno busy)=ldapSuccess →
        cb.success=false) := by
  have hl := leaves_sent ht skip busy
  cases wait with
  | read c =>
    refine iff_of_true (soundVerdict_chain hl rfl) ?_
    simp
  | timedOut =>
    refine iff_of_true ?_ ?_
    · intro _
      decide
    · simp
  | failed rc stored =>
    by_cases hz : stored.getD (sentErrno busy)=ldapSuccess
    · have hv : syncVerdict busy (.failed rc stored)=.succeeded := by
        simp [syncVerdict,verdictOf,hz]
      rw [hv]
      simp [SoundVerdict,Wait.chain?,hz]
    · refine iff_of_true (soundVerdict_verdictOf hz) ?_
      simp [hz]
  | queued c =>
    cases ha : c.leadsAside with
    | false =>
      have hv : syncVerdict busy (.queued c)=chainVerdict c := by simp [syncVerdict,ha]
      rw [hv]
      refine iff_of_true (soundVerdict_chain hl rfl) ?_
      simp [ha]
    | true =>
      have hv : syncVerdict busy (.queued c)=verdictOf (sentErrno busy) := by
        simp [syncVerdict,ha]
      rw [hv]
      cases busy with
      | true =>
        refine iff_of_true (soundVerdict_verdictOf (by decide)) ?_
        simp
      | false =>
        have hs : SoundVerdict o cb ⟨.sent skip false,.queued c⟩ (some c) .succeeded ↔
            (cb.success=true → c.final=some ldapSuccess) := by
          simp [SoundVerdict,Wait.chain?,hl]
        have hg : (cb.success=true → c.final=some ldapSuccess) ↔
            (c.final≠some ldapSuccess → cb.success=false) := by
          cases cb.success <;> simp
        exact (hs.trans hg).trans (by simp [ha])

theorem asyncVerdict_sound {o : SearchOptions} (ht : ¬(Search.timeVal o).zero) (cb : Callbacks)
    (skip : Nat) (busy : Bool) (wait : Wait) :
    SoundVerdict o cb ⟨.sent skip busy,wait⟩ wait.chain? (asyncVerdict busy wait) ↔
      ∀rc stored,wait=.failed rc stored → stored.getD (sentErrno busy)=ldapSuccess →
        (rc : Int)= -1 → cb.error=false := by
  have hl := leaves_sent ht skip busy
  cases wait with
  | read c =>
    refine iff_of_true (soundVerdict_chain hl rfl) ?_
    simp
  | timedOut =>
    refine iff_of_true ?_ ?_
    · intro _
      decide
    · simp
  | queued c =>
    refine iff_of_true ?_ (by simp)
    rcases msgtype_eq c with ⟨ha,hm⟩|⟨ha,-⟩
    · rw [asyncVerdict,if_pos ha]
      intro _
      rcases hm with hm|hm <;> rw [hm] <;> decide
    · have hv : asyncVerdict busy (.queued c)=chainVerdict c := by simp [asyncVerdict,ha]
      rw [hv]
      exact soundVerdict_chain hl rfl
  | failed rc stored =>
    have hneg : (rc : Int)<0 := rc.2
    by_cases h1 : (rc : Int)= -1
    · rw [asyncVerdict,if_pos h1]
      have hg : (cb.error=true → stored.getD (sentErrno busy)≠ldapSuccess) ↔
          (stored.getD (sentErrno busy)=ldapSuccess → cb.error=false) := by
        cases cb.error <;> simp
      exact hg.trans (by simp [h1])
    · rw [asyncVerdict,if_neg h1]
      refine iff_of_true ?_ ?_
      · intro _
        exact ne_of_lt hneg
      · simp [h1]

/-- A request that stays behind gets no message id, and a code unlike zero, which only the
check of the timeout does not store. -/
theorem ldapPvtSearch_unsent (errno : Int) (t : Timeval) (id : Nat) {send : Send}
    (h : ¬t.zero → ∀skip busy,send≠.sent skip busy) :
    (ldapPvtSearch errno (-1) t id send).msgid= -1 ∧
    (ldapPvtSearch errno (-1) t id send).rc≠ldapSuccess ∧
    ((ldapPvtSearch errno (-1) t id send).errno=ldapSuccess ↔ t.zero ∧ errno=ldapSuccess) := by
  by_cases ht : t.sec=0 ∧ t.usec=0
  · have hz : t.zero := ht
    simp only [ldapPvtSearch,if_pos ht]
    refine ⟨trivial,by decide,?_⟩
    simp [hz]
  · have hz : ¬t.zero := ht
    simp only [ldapPvtSearch,if_neg ht]
    cases send with
    | buildFailed e => exact ⟨rfl,e.2,by simpa [hz] using e.2⟩
    | sendFailed e => exact ⟨rfl,e.2,by simpa [hz] using e.2⟩
    | sent skip busy => exact absurd rfl (h hz skip busy)

theorem sync_unsent {w : World} {o : SearchOptions} (ha : Accepted w o)
    (hs : o.async.getD false=false) (cb : Callbacks) {lib : SearchLib}
    (h : ¬(Search.timeVal o).zero → ∀skip busy,lib.send≠.sent skip busy) :
    ∀x∈posted w (.search o cb lib),Sound o lib x := by
  obtain ⟨id,hp⟩ := posted_sync ha hs cb lib
  obtain ⟨-,hrc,-⟩ := ldapPvtSearch_unsent w.session.errno (Search.timeVal o) id h
  rw [hp,ldapPvtSearchS,if_pos hrc]
  exact (emit_sound o cb lib _ _).mpr (soundVerdict_verdictOf hrc)

theorem async_unsent {w : World} {o : SearchOptions} (ha : Accepted w o)
    (hs : o.async.getD false=true) (cb : Callbacks) {lib : SearchLib}
    (h : ¬(Search.timeVal o).zero → ∀skip busy,lib.send≠.sent skip busy) :
    (∀x∈posted w (.search o cb lib),Sound o lib x) ↔
      ((Search.timeVal o).zero → w.session.errno=ldapSuccess → cb.success=false) := by
  obtain ⟨id,hp⟩ := posted_async ha hs cb lib
  obtain ⟨hm,-,he⟩ := ldapPvtSearch_unsent w.session.errno (Search.timeVal o) id h
  rw [hp]
  dsimp only
  rw [hm,if_neg (by decide),emit_sound]
  by_cases hz :
      (ldapPvtSearch w.session.errno (-1) (Search.timeVal o) id lib.send).errno=ldapSuccess
  · obtain ⟨ht,herr⟩ := he.mp hz
    have hv : verdictOf ldapSuccess=.succeeded := rfl
    rw [hz,hv]
    simp [SoundVerdict,ht,herr]
  · refine iff_of_true (soundVerdict_verdictOf hz) ?_
    intro ht herr
    exact absurd (he.mpr ⟨ht,herr⟩) hz

theorem posted_rejected {w : World} {o : SearchOptions} (hb : w.connection.isBound=true)
    (hr : ¬Accepted w o) (cb : Callbacks) (lib : SearchLib) :
    posted w (.search o cb lib)=[] := by
  apply posted_eq (r := 0)
  by_cases hrun : w.aborted=true
  · rw [step,if_pos hrun]
    rfl
  · have hf : w.aborted=false := by simpa using hrun
    obtain ⟨os,hn⟩ := note_frame w { method := .search, callbacks := cb }
    rw [step,if_neg hrun,perform,sendRequest,hn]
    rcases search_cases { w with orphans := os } w.requests.length
        { method := .search, callbacks := cb } o lib with
      ⟨hb',-⟩|⟨-,-,hx⟩|⟨-,names,h,hn,-,-⟩
    · have hb' : w.connection.isBound=false := hb'
      rw [hb'] at hb
      cases hb
    · rw [hx]
      rfl
    · exact absurd ⟨hf,hb,by simp [hn]⟩ hr

/-- The callbacks of an accepted search are sound exactly when it is not misled. -/
theorem accepted_sound {w : World} {o : SearchOptions} (ha : Accepted w o) (cb : Callbacks)
    (lib : SearchLib) :
    (∀x∈posted w (.search o cb lib),Sound o lib x) ↔ w.searchGuard (.search o cb lib) := by
  have guard : w.searchGuard (.search o cb lib) ↔ _ := forall_prop_of_true ha
  rw [guard]
  by_cases hsent : ¬(Search.timeVal o).zero ∧ ∃skip busy,lib.send=.sent skip busy
  · obtain ⟨ht,skip,busy,hsend⟩ := hsent
    obtain ⟨send,wait⟩ := lib
    have hsend : send=.sent skip busy := hsend
    subst hsend
    cases hs : o.async.getD false with
    | false =>
      rw [posted_sync_sent ha hs ht,emit_sound,syncVerdict_sound ht]
      simp [ht]
    | true =>
      rw [posted_async_sent ha hs ht,emit_sound,asyncVerdict_sound ht]
      simp [ht]
  · have hun : ¬(Search.timeVal o).zero → ∀skip busy,lib.send≠.sent skip busy := by
      intro ht skip busy hsend
      exact hsent ⟨ht,skip,busy,hsend⟩
    cases hs : o.async.getD false with
    | false =>
      refine iff_of_true (sync_unsent ha hs cb hun) ⟨by simp,?_⟩
      intro ht skip busy hsend
      exact absurd hsend (hun ht skip busy)
    | true =>
      rw [async_unsent ha hs cb hun]
      refine ⟨fun h => ⟨fun ht _ => h ht,?_⟩,fun h ht => h.1 ht rfl⟩
      intro ht skip busy hsend
      exact absurd hsend (hun ht skip busy)

theorem search_sound (w : World) (op : Op) : SearchSound w op ↔ w.searchGuard op := by
  cases op with
  | search o cb lib =>
    rw [SearchSound]
    by_cases hb : w.connection.isBound=true
    · rw [forall_prop_of_true hb]
      by_cases ha : Accepted w o
      · exact accepted_sound ha cb lib
      · refine iff_of_true ?_ ?_
        · rw [posted_rejected hb ha]
          simp
        · intro h
          exact absurd h ha
    · refine iff_of_true ?_ ?_
      · intro h
        exact absurd h hb
      · intro h
        exact absurd h.bound hb
  | _ => exact Iff.rfl

end TiLdap.Ios.World
