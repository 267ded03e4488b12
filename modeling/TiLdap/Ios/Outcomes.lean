import TiLdap.Ios.Callbacks

namespace TiLdap

open OpenLdap

namespace OpenLdap

/-- The first message is neither an entry nor the final result. -/
def Chain.leadsAside (c : Chain) : Bool :=
  match c.items with
  | .reference _::_ => true
  | .intermediate::_ => true
  | _ => false

/-- The response that a wait brings in. -/
def Wait.chain? : Wait → Option Chain
  | .queued c => some c
  | .read c => some c
  | _ => none

/-- The result code that a sent request leaves in the session. -/
def sentErrno (busy : Bool) : Int := if busy then ldapBusy else ldapSuccess

def Timeval.zero (t : Timeval) : Prop := t.sec=0 ∧ t.usec=0

theorem msgtype_eq (c : Chain) :
    (c.leadsAside=true ∧ (c.msgtype=resSearchReference ∨ c.msgtype=resIntermediate)) ∨
    (c.leadsAside=false ∧ (c.msgtype=resSearchEntry ∨ c.msgtype=resSearchResult)) := by
  rw [Chain.leadsAside,Chain.msgtype]
  cases c.items with
  | nil => exact .inr ⟨rfl,.inr rfl⟩
  | cons i l =>
    cases i with
    | entry e => exact .inr ⟨rfl,.inl rfl⟩
    | reference urls => exact .inl ⟨rfl,.inl rfl⟩
    | intermediate => exact .inl ⟨rfl,.inr rfl⟩

theorem ldapResult2Error_eq_zero (c : Chain) :
    ldapResult2Error c=ldapSuccess ↔ c.final=some ldapSuccess := by
  rw [ldapResult2Error,ldapParseResult]
  cases hf : c.final with
  | none => simp [ldapDecodingError,ldapSuccess]
  | some code =>
    by_cases hc : code=ldapSuccess
    · simp [hc]
    · simp [hc]

theorem ldapPvtSearch_sent (errno msgid : Int) {t : Timeval} (ht : ¬t.zero) (id skip : Nat)
    (busy : Bool) : ldapPvtSearch errno msgid t id (.sent skip busy)=
      ⟨ldapSuccess,id,sentErrno busy⟩ := by
  have ht : ¬(t.sec=0 ∧ t.usec=0) := ht
  rw [ldapPvtSearch,if_neg ht]
  rfl

/-- The synchronous search once its request is sent. -/
theorem ldapPvtSearchS_sent (errno : Int) {t : Timeval} (ht : ¬t.zero) (id skip : Nat)
    (busy : Bool) (wait : Wait) :
    (ldapPvtSearchS errno t id (.sent skip busy) wait).chain=wait.chain? ∧
    (ldapPvtSearchS errno t id (.sent skip busy) wait).rc=match wait with
      | .queued c => if c.leadsAside then sentErrno busy else ldapResult2Error c
      | .read c => ldapResult2Error c
      | .timedOut => ldapTimeout
      | .failed _ stored => stored.getD (sentErrno busy) := by
  simp only [ldapPvtSearchS,ldapPvtSearch_sent errno (-1) ht]
  cases wait with
  | queued c =>
    rcases msgtype_eq c with ⟨hl,hm|hm⟩|⟨hl,hm|hm⟩ <;>
      simp [ldapResult,Wait.chain?,hl,hm,resSearchReference,resIntermediate,resSearchEntry,
        resSearchResult]
  | read c => simp [ldapResult,Wait.chain?,resSearchReference,resIntermediate,resSearchResult]
  | timedOut => simp [ldapResult,Wait.chain?]
  | failed rc stored =>
    have hrc : (rc : Int)≤0 := le_of_lt rc.2
    simp [ldapResult,Wait.chain?,hrc]

end OpenLdap

namespace Ios.World

/-- The callbacks that a call fires. -/
def posted (w : World) (op : Op) : List (Callback SearchResultProxy) :=
  ((step w op).fired.take ((step w op).fired.length-w.fired.length)).map Prod.snd

theorem posted_eq {w : World} {op : Op} {r : RequestId} {new : List (Callback SearchResultProxy)}
    (h : (step w op).fired=new.map (fun c => (r,c))++w.fired) : posted w op=new := by
  rw [posted,h,List.length_append,Nat.add_sub_cancel,List.take_left,List.map_map]
  simp

/-- A search whose arguments are well typed, on a bound connection. -/
structure Accepted (w : World) (o : SearchOptions) : Prop where
  running : w.aborted=false
  bound : w.connection.isBound=true
  attrs : Search.attrs o≠.error .illTyped

theorem accepted_cases {w : World} {o : SearchOptions} (ha : Accepted w o) (cb : Callbacks)
    (lib : SearchLib) : ∃(v : World) (h : Handle),v.session=w.session ∧ v.fired=w.fired ∧
      step w (.search o cb lib)=settle w.requests.length (o.async.getD false) lib.wait
        (if o.async.getD false=true then
          Search.ldapSearchExt v w.requests.length { method := .search, callbacks := cb } h o
            lib.send
        else Search.ldapSearchExtS v { method := .search, callbacks := cb } h o lib) := by
  obtain ⟨os,hn⟩ := note_frame w { method := .search, callbacks := cb }
  rcases search_cases { w with orphans := os } w.requests.length
      { method := .search, callbacks := cb } o lib with
    ⟨hb,-⟩|⟨-,hi,-⟩|⟨-,names,h,-,-,hx⟩
  · have hb' := ha.bound
    rw [hb] at hb'
    cases hb'
  · exact absurd hi ha.attrs
  · refine ⟨{ w with orphans := os, searches := Search.request o names::w.searches },h,rfl,rfl,?_⟩
    rw [step,if_neg (by simp [ha.running]),perform,sendRequest,hn,hx]

/-- The callbacks at the end of the wait. -/
def waitPosts (q : Request) (a : Reply) : List (Callback SearchResultProxy) :=
  match waitVerdict a with
  | .error _ => []
  | .ok x => Request.emit { q with ldapMessage := a.chain } x.1

theorem settle_wait (r : RequestId) (wait : Wait) {x : Executed} {code : Int}
    (hr : x.result=.ok code) (hm : 0≤x.request.messageId) :
    (settle r true wait x).fired=
      (waitPosts x.request (ldapResult x.world.session.errno wait)).map (fun c => (r,c))++
        x.world.fired := by
  simp only [settle,hr,hm,decide_true,Bool.and_self,if_true,waitForResult,waitPosts]
  cases waitVerdict (ldapResult x.world.session.errno wait) with
  | error f => rfl
  | ok y => exact handle_fired _ _ _ _

theorem settle_at_once (r : RequestId) (wait : Wait) {x : Executed} {code : Int}
    (hr : x.result=.ok code) (hm : ¬0≤x.request.messageId) :
    (settle r true wait x).fired=
      (x.request.emit (verdictOf code)).map (fun c => (r,c))++x.world.fired := by
  simp only [settle,hr,hm,decide_false,Bool.and_false,Bool.false_eq_true,if_false]
  exact handle_fired _ _ _ _

/-- What a synchronous search posts. -/
theorem posted_sync {w : World} {o : SearchOptions} (ha : Accepted w o)
    (hs : o.async.getD false=false) (cb : Callbacks) (lib : SearchLib) :
    ∃id,posted w (.search o cb lib)=
      let a := ldapPvtSearchS w.session.errno (Search.timeVal o) id lib.send lib.wait
      Request.emit { method := .search, callbacks := cb, ldapMessage := a.chain }
        (verdictOf a.rc) := by
  obtain ⟨v,h,hv,hf,hx⟩ := accepted_cases ha cb lib
  rw [hs,if_neg (by simp)] at hx
  refine ⟨Search.messageNumber v h lib.send,?_⟩
  apply posted_eq (r := w.requests.length)
  rw [hx,settle_code _ _ _ rfl rfl,handle_fired,← hv,← hf]
  rfl

/-- What an asynchronous search posts: at once when there is no message id, else after the
wait. -/
theorem posted_async {w : World} {o : SearchOptions} (ha : Accepted w o)
    (hs : o.async.getD false=true) (cb : Callbacks) (lib : SearchLib) :
    ∃id : Nat,posted w (.search o cb lib)=
      let p := ldapPvtSearch w.session.errno (-1) (Search.timeVal o) id lib.send
      if 0≤p.msgid then
        waitPosts { method := .search, callbacks := cb } (ldapResult p.errno lib.wait)
      else Request.emit { method := .search, callbacks := cb } (verdictOf p.errno) := by
  obtain ⟨v,h,hv,hf,hx⟩ := accepted_cases ha cb lib
  rw [hs,if_pos rfl] at hx
  refine ⟨Search.messageNumber v h lib.send,?_⟩
  apply posted_eq (r := w.requests.length)
  rw [hx,← hv,← hf]
  dsimp only
  split_ifs with hm
  · exact settle_wait _ _ rfl hm
  · exact settle_at_once _ _ rfl hm

/-- The verdict on a response that is read as one. -/
def chainVerdict (c : Chain) : Verdict :=
  if c.final=some ldapSuccess then .succeeded else errorVerdict (ldapParseResult c).2

/-- The verdict on a synchronous search whose request was sent. -/
def syncVerdict (busy : Bool) : Wait → Verdict
  | .queued c => if c.leadsAside then verdictOf (sentErrno busy) else chainVerdict c
  | .read c => chainVerdict c
  | .timedOut => errorVerdict ldapTimeout
  | .failed _ stored => verdictOf (stored.getD (sentErrno busy))

/-- The verdict on an asynchronous search whose request was sent. -/
def asyncVerdict (busy : Bool) : Wait → Verdict
  | .queued c =>
    if c.leadsAside then .failed c.msgtype (.text "Unexpected response from ldap_result")
    else chainVerdict c
  | .read c => chainVerdict c
  | .timedOut => errorVerdict ldapTimeout
  | .failed rc stored =>
    if (rc : Int)= -1 then errorVerdict (stored.getD (sentErrno busy))
    else .failed rc (.text "Unexpected response from ldap_result")

theorem verdictOf_result2Error (c : Chain) : verdictOf (ldapResult2Error c)=chainVerdict c := by
  have hz := ldapResult2Error_eq_zero c
  rw [verdictOf,chainVerdict]
  by_cases hf : c.final=some ldapSuccess
  · rw [if_pos (hz.mpr hf),if_pos hf]
  · rw [if_neg (mt hz.mp hf),if_neg hf]
    congr 1
    rw [ldapResult2Error,ldapParseResult]
    cases hc : c.final with
    | none => rfl
    | some code =>
      have hne : code≠ldapSuccess := by
        rintro rfl
        exact hf hc
      simp [hne]

/-- A chain whose head is an entry or the final result is judged by its last message. -/
theorem waitVerdict_parsed {a : Reply} {c : Chain}
    (hrc : a.rc=resSearchEntry ∨ a.rc=resSearchResult) (hc : a.chain=some c) :
    ∃e,waitVerdict a=.ok (chainVerdict c,e) := by
  have hk : a.rc=resBind ∨ a.rc=resSearchEntry ∨ a.rc=resSearchResult := .inr hrc
  unfold waitVerdict chainVerdict ldapParseResult
  cases hf : c.final with
  | none => exact ⟨_,by simp [hk,hc,hf,ldapDecodingError,ldapSuccess]; rfl⟩
  | some code =>
    by_cases hz : code=ldapSuccess
    · exact ⟨_,by simp [hk,hc,hf,hz]; rfl⟩
    · exact ⟨_,by simp [hk,hc,hf,hz]; rfl⟩

theorem waitVerdict_unexpected {a : Reply} (hb : a.rc≠resBind) (he : a.rc≠resSearchEntry)
    (hr : a.rc≠resSearchResult) (h0 : a.rc≠0) (h1 : a.rc≠ -1) :
    waitVerdict a=.ok (.failed a.rc (.text "Unexpected response from ldap_result"),a.errno) := by
  simp [waitVerdict,hb,he,hr,h0,h1]

theorem waitVerdict_sent (busy : Bool) (wait : Wait) :
    ∃e,waitVerdict (ldapResult (sentErrno busy) wait)=.ok (asyncVerdict busy wait,e) := by
  cases wait with
  | queued c =>
    rcases msgtype_eq c with ⟨hl,hm⟩|⟨hl,hm⟩
    · have hu := waitVerdict_unexpected (a := ldapResult (sentErrno busy) (.queued c))
      simp only [ldapResult,asyncVerdict,hl,if_true] at hu ⊢
      refine ⟨_,hu ?_ ?_ ?_ ?_ ?_⟩ <;> rcases hm with hm|hm <;> rw [hm] <;> decide
    · obtain ⟨e,he⟩ := waitVerdict_parsed (a := ldapResult (sentErrno busy) (.queued c)) hm rfl
      exact ⟨e,by simpa [asyncVerdict,hl] using he⟩
  | read c => exact waitVerdict_parsed (.inr rfl) rfl
  | timedOut => exact ⟨_,rfl⟩
  | failed rc stored =>
    have hrc : (rc : Int)<0 := rc.2
    have hb : (rc : Int)≠resBind := by unfold resBind; omega
    have he : (rc : Int)≠resSearchEntry := by unfold resSearchEntry; omega
    have hr : (rc : Int)≠resSearchResult := by unfold resSearchResult; omega
    by_cases h1 : (rc : Int)= -1
    · exact ⟨_,by simp [waitVerdict,ldapResult,asyncVerdict,h1]; rfl⟩
    · have hu := waitVerdict_unexpected (a := ldapResult (sentErrno busy) (.failed rc stored))
        hb he hr (ne_of_lt hrc) h1
      exact ⟨_,by rw [asyncVerdict,if_neg h1]; exact hu⟩

theorem ldapResult_chain (errno : Int) (wait : Wait) :
    (ldapResult errno wait).chain=wait.chain? := by
  cases wait <;> rfl

theorem waitPosts_sent (q : Request) (busy : Bool) (wait : Wait) :
    waitPosts q (ldapResult (sentErrno busy) wait)=
      Request.emit { q with ldapMessage := wait.chain? } (asyncVerdict busy wait) := by
  obtain ⟨e,he⟩ := waitVerdict_sent busy wait
  rw [waitPosts,he,ldapResult_chain]

theorem verdictOf_sent (errno : Int) {t : Timeval} (ht : ¬t.zero) (id skip : Nat) (busy : Bool)
    (wait : Wait) : verdictOf (ldapPvtSearchS errno t id (.sent skip busy) wait).rc=
      syncVerdict busy wait := by
  rw [(ldapPvtSearchS_sent errno ht id skip busy wait).2]
  cases wait with
  | queued c =>
    cases hl : c.leadsAside with
    | true => simp [syncVerdict,hl]
    | false => simpa [syncVerdict,hl] using verdictOf_result2Error c
  | read c => exact verdictOf_result2Error c
  | timedOut => rfl
  | failed rc stored => rfl

/-- What a synchronous search posts once its request is sent. -/
theorem posted_sync_sent {w : World} {o : SearchOptions} (ha : Accepted w o)
    (hs : o.async.getD false=false) (ht : ¬(Search.timeVal o).zero) (cb : Callbacks) (skip : Nat)
    (busy : Bool) (wait : Wait) : posted w (.search o cb ⟨.sent skip busy,wait⟩)=
      Request.emit { method := .search, callbacks := cb, ldapMessage := wait.chain? }
        (syncVerdict busy wait) := by
  obtain ⟨id,hp⟩ := posted_sync ha hs cb ⟨.sent skip busy,wait⟩
  rw [hp]
  dsimp only
  rw [verdictOf_sent _ ht,(ldapPvtSearchS_sent _ ht id skip busy wait).1]

/-- What an asynchronous search posts once its request is sent. -/
theorem posted_async_sent {w : World} {o : SearchOptions} (ha : Accepted w o)
    (hs : o.async.getD false=true) (ht : ¬(Search.timeVal o).zero) (cb : Callbacks) (skip : Nat)
    (busy : Bool) (wait : Wait) : posted w (.search o cb ⟨.sent skip busy,wait⟩)=
      Request.emit { method := .search, callbacks := cb, ldapMessage := wait.chain? }
        (asyncVerdict busy wait) := by
  obtain ⟨id,hp⟩ := posted_async ha hs cb ⟨.sent skip busy,wait⟩
  have hid : (0 : Int)≤ id := Int.natCast_nonneg id
  rw [hp]
  dsimp only
  rw [ldapPvtSearch_sent _ _ ht,if_pos hid,waitPosts_sent]

end Ios.World

end TiLdap
