import TiLdap.Ios.World

namespace TiLdap.Ios.World

open OpenLdap

theorem note_frame (w : World) (q : Request) : ∃os,w.note q={ w with orphans := os } := by
  rw [note]
  split_ifs
  · exact ⟨_,rfl⟩
  · exact ⟨w.orphans,rfl⟩

@[simp] theorem note_connection (w : World) (q : Request) :
    (w.note q).connection=w.connection := by
  obtain ⟨os,hn⟩ := note_frame w q
  rw [hn]

theorem connect_frame (w : World) (q : Request) (o : ConnectOptions) (lib : ConnectLib) :
    (∃c s n l,(Connect.execute w q o lib).world=
      { w with connection := c, session := s, nextHandle := n, ledger := l }) ∧
    (Connect.execute w q o lib).request=q ∧
    ∃code,(Connect.execute w q o lib).result=.ok code := by
  simp only [Connect.execute]
  cases lib.rejects (o.uri.getD defaultUri) with
  | none => exact ⟨⟨_,_,_,_,rfl⟩,rfl,_,rfl⟩
  | some e => exact ⟨⟨_,_,_,_,rfl⟩,rfl,_,rfl⟩

theorem bindOn_frame (w : World) (q : Request) (password : Arg String) (lib : BindLib) :
    (∃s l,(w.bindOn q password lib).world={ w with session := s, ledger := l }) ∧
    (w.bindOn q password lib).request=q ∧
    (∀f,(w.bindOn q password lib).result=.error f ↔ w.connection.ld=none ∧ f=.nullHandle) := by
  rw [bindOn]
  cases w.connection.ld with
  | none => exact ⟨⟨_,_,rfl⟩,rfl,by simp [eq_comm]⟩
  | some h => exact ⟨⟨_,_,rfl⟩,rfl,by simp⟩

theorem saslBind_frame (w : World) (q : Request) (o : SaslBindOptions) (lib : BindLib) :
    (∃s l,(SaslBind.execute w q o lib).world={ w with session := s, ledger := l }) ∧
    (SaslBind.execute w q o lib).request=q ∧
    (w.connection.ld=none → ∃f,f.missing=true ∧
      (SaslBind.execute w q o lib).result=.error f) ∧
    (∀f,(SaslBind.execute w q o lib).result=.error f → w.connection.ld=none) := by
  simp only [SaslBind.execute]
  split_ifs with hc
  · exact ⟨⟨_,_,rfl⟩,rfl,fun _ => ⟨.unsetOutput,rfl,rfl⟩,fun _ _ => hc.1⟩
  · obtain ⟨hw,hq,hr⟩ := bindOn_frame w q o.password lib
    exact ⟨hw,hq,fun h => ⟨.nullHandle,rfl,(hr _).mpr ⟨h,rfl⟩⟩,fun f hf => ((hr f).mp hf).1⟩

theorem verdictOf_eq_succeeded (code : Int) : verdictOf code=.succeeded ↔ code=ldapSuccess := by
  by_cases h : code=ldapSuccess
  · simp [verdictOf,h]
  · simp [verdictOf,errorVerdict,h]

/-- Without a message id there is nothing to wait for. -/
theorem settle_code (r : RequestId) (async : Bool) (wait : Wait) {x : Executed} {code : Int}
    (hr : x.result=.ok code) (hm : x.request.messageId= -1) : settle r async wait x=
      (x.world.enroll (x.request.release (verdictOf code))).handle r x.request
        (verdictOf code) := by
  simp [settle,hr,hm]

theorem handle_frame (w : World) (r : RequestId) (q : Request) (v : Verdict) :
    ∃c rs f,w.handle r q v={ w with connection := c, results := rs, fired := f } := by
  simp only [handle]
  split_ifs <;> exact ⟨_,_,_,rfl⟩

/-- The end of `sendRequest:` enrols the request, notes what was delivered and the result code,
and sets the bound flag, fires or faults. -/
theorem settle_frame (r : RequestId) (async : Bool) (wait : Wait) (x : Executed) :
    ∃c e q rs t f fs b,settle r async wait x={ x.world with
      connection := c, session := { x.world.session with errno := e },
      requests := x.world.requests++[q], results := rs, traffic := t, fired := f, faults := fs,
      aborted := b } := by
  rw [settle]
  cases x.result with
  | error f => exact ⟨_,_,_,_,_,_,_,_,rfl⟩
  | ok code =>
    dsimp only
    split_ifs
    · simp only [waitForResult]
      cases waitVerdict (ldapResult x.world.session.errno wait) with
      | error f => exact ⟨_,_,_,_,_,_,_,_,rfl⟩
      | ok y =>
        dsimp only
        obtain ⟨c,rs,f,hw⟩ := handle_frame _ r _ y.1
        exact ⟨_,_,_,_,_,_,_,_,hw⟩
    · obtain ⟨c,rs,f,hw⟩ := handle_frame _ r x.request (verdictOf code)
      exact ⟨_,_,_,_,_,_,_,_,hw⟩

/-- Everything that `execute:async:` of a search can do. -/
theorem search_cases (w : World) (r : RequestId) (q : Request) (o : SearchOptions)
    (lib : SearchLib) :
    (w.connection.isBound=false ∧ Search.execute w r q o lib=
      ⟨w.fire r q (.failed (-2) (.text "[ERROR] Connection is not bound.")),q,.ok (-1)⟩) ∨
    (w.connection.isBound=true ∧ Search.attrs o=.error .illTyped ∧
      Search.execute w r q o lib=⟨w,q,.error .illTyped⟩) ∨
    (w.connection.isBound=true ∧ ∃names h,Search.attrs o=.ok names ∧ w.connection.ld=some h ∧
      Search.execute w r q o lib=
        if o.async.getD false=true then Search.ldapSearchExt
          { w with searches := Search.request o names::w.searches } r q h o lib.send
        else Search.ldapSearchExtS
          { w with searches := Search.request o names::w.searches } q h o lib) := by
  rw [Search.execute]
  cases hb : w.connection.isBound with
  | false => exact .inl ⟨rfl,by simp⟩
  | true =>
    refine .inr ?_
    obtain ⟨h,hld⟩ : ∃h,w.connection.ld=some h := by
      have hs : w.connection.ld.isSome=true := by
        rw [ConnectionProxy.isBound] at hb
        exact (Bool.and_eq_true_iff.mp hb).1
      exact Option.isSome_iff_exists.mp hs
    cases ha : Search.attrs o with
    | error f =>
      have hf : f=.illTyped := by
        rw [Search.attrs] at ha
        split at ha <;> cases ha
        rfl
      subst hf
      exact .inl ⟨rfl,rfl,by simp⟩
    | ok names => exact .inr ⟨rfl,names,h,rfl,hld,by simp [hld]⟩

/-- The accessors touch only the objects they return and move, and the faults. -/
theorem resultCall_frame (w : World) (i : Nat) (c : ResultCall) :
    ∃rs es fs b,w.resultCall i c=
      { w with results := rs, entries := es, faults := fs, aborted := b } := by
  rw [resultCall]
  cases w.results[i]? with
  | none => exact ⟨_,_,_,_,rfl⟩
  | some p =>
    cases hc : p.call w.connection.ld c <;> simp only [hc] <;> exact ⟨_,_,_,_,rfl⟩

theorem entryCall_frame (w : World) (i : Nat) (c : EntryCall) (errno : Int) :
    ∃s es fs b,w.entryCall i c errno=
      { w with session := s, entries := es, faults := fs, aborted := b } := by
  rw [entryCall]
  cases w.entries[i]? with
  | none => exact ⟨_,_,_,_,rfl⟩
  | some p =>
    cases hc : p.call w.connection.ld c <;> simp only [hc] <;> exact ⟨_,_,_,_,rfl⟩

theorem disconnect_frame (w : World) :
    ∃c l,w.disconnect={ w with connection := c, ledger := l } := by
  rw [disconnect]
  cases w.connection.ld with
  | none => exact ⟨_,_,rfl⟩
  | some h => cases w.connection.bound <;> exact ⟨_,_,rfl⟩

/-- Connects and binds: requests that touch only the session and what is known of it. -/
theorem plain_cases (w : World) {op : Op}
    (h : (∃o cb lib,op=.connect o cb lib) ∨ (∃o cb lib,op=.simpleBind o cb lib) ∨
      ∃o cb lib,op=.saslBind o cb lib) :
    ∃async wait x,w.perform op=settle w.requests.length async wait x ∧
      x.request.messageId= -1 ∧ x.request.method≠.search ∧ ∃c s n l os,x.world={ w with
        connection := c, session := s, nextHandle := n, ledger := l, orphans := os } := by
  rcases h with ⟨o,cb,lib,rfl⟩|⟨o,cb,lib,rfl⟩|⟨o,cb,lib,rfl⟩
  · obtain ⟨os,hn⟩ := note_frame w { method := .connect, callbacks := cb }
    obtain ⟨⟨c,s,n,l,hw⟩,hq,-⟩ := connect_frame { w with orphans := os }
      { method := .connect, callbacks := cb } o lib
    refine ⟨_,_,_,by rw [perform,sendRequest,hn],?_,?_,c,s,n,l,os,hw⟩
    · rw [hq]
    · simp [hq]
  · obtain ⟨os,hn⟩ := note_frame w { method := .simpleBind, callbacks := cb }
    obtain ⟨⟨s,l,hw⟩,hq,-⟩ := bindOn_frame { w with orphans := os }
      { method := .simpleBind, callbacks := cb } o.password lib
    refine ⟨_,_,_,by rw [perform,sendRequest,hn],?_,?_,_,s,_,l,os,hw⟩
    · rw [hq]
    · simp [hq]
  · obtain ⟨os,hn⟩ := note_frame w { method := .saslBind, callbacks := cb }
    obtain ⟨⟨s,l,hw⟩,hq,-⟩ := saslBind_frame { w with orphans := os }
      { method := .saslBind, callbacks := cb } o lib
    refine ⟨_,_,_,by rw [perform,sendRequest,hn],?_,?_,_,s,_,l,os,hw⟩
    · rw [hq]
    · simp [hq]

/-- What an `abandon` call can do. -/
theorem abandon_cases (w : World) (r : RequestId) (ok : Bool) (errno : Int) :
    ((∀q h,w.requests[r]?=some q → 0≤q.messageId → w.connection.ld=some h → False) ∧
      ∃fs b,w.abandon r ok errno={ w with faults := fs, aborted := b }) ∨
    (∃q h,w.requests[r]?=some q ∧ 0≤q.messageId ∧ w.connection.ld=some h ∧
      w.abandon r ok errno={ w.store errno with
        traffic := .abandoned r h q.messageId.toNat ok::w.traffic }) := by
  unfold abandon
  cases hq : w.requests[r]? with
  | none => exact .inl ⟨by simp,w.faults,w.aborted,rfl⟩
  | some q =>
    dsimp only
    by_cases hm : q.messageId<0
    · rw [if_pos hm]
      refine .inl ⟨?_,w.faults,w.aborted,rfl⟩
      intro p h hp hge
      cases hp
      omega
    · rw [if_neg hm]
      cases hld : w.connection.ld with
      | none => exact .inl ⟨by simp,_,_,rfl⟩
      | some h => exact .inr ⟨q,h,rfl,by omega,rfl,rfl⟩

end TiLdap.Ios.World
