import TiLdap.Ios.Steps
import TiLdap.Framework.Ledger

namespace TiLdap.Ios.World

open Framework OpenLdap

theorem handle_fired (w : World) (r : RequestId) (q : Request) (v : Verdict) :
    (w.handle r q v).fired=(q.emit v).map (fun c => (r,c))++w.fired := by
  simp only [handle]
  split_ifs <;> rfl

theorem handle_requests (w : World) (r : RequestId) (q : Request) (v : Verdict) :
    (w.handle r q v).requests=w.requests := by
  simp only [handle]
  split_ifs <;> rfl

/-- The end of `sendRequest:`, with or without the wait, fires at most one callback. -/
theorem settle_fired (r : RequestId) (async : Bool) (wait : Wait) (x : Executed) :
    ∃(new : List (Callback SearchResultProxy)) (q : Request),
      (settle r async wait x).fired=new.map (fun c => (r,c))++x.world.fired ∧
      (settle r async wait x).requests=x.world.requests++[q] ∧ new.length≤1 := by
  rw [settle]
  cases x.result with
  | error f => exact ⟨[],_,rfl,rfl,by simp⟩
  | ok code =>
    dsimp only
    split_ifs
    · simp only [waitForResult]
      cases waitVerdict (ldapResult x.world.session.errno wait) with
      | error f => exact ⟨[],_,rfl,rfl,by simp⟩
      | ok v =>
        exact ⟨_,_,handle_fired _ _ _ _,handle_requests _ _ _ _,Callbacks.emit_length _ _ _ _⟩
    · exact ⟨_,_,handle_fired _ _ _ _,handle_requests _ _ _ _,Callbacks.emit_length _ _ _ _⟩

/-- Callbacks are fired for request objects that exist. -/
def Enrolled (w : World) : Prop := ∀f∈w.fired,f.1<w.requests.length

/-- The callbacks of one step belong to the request it makes, and there is at most one of them
exactly when `guard` holds. -/
structure Speaks (w w' : World) (guard : Prop) : Prop where
  inv : Enrolled w'
  fires : ∃r new,w'.fired=new.map (fun c => (r,c))++w.fired ∧
    (new≠[] → ∀f∈w.fired,f.1≠r) ∧ (new.length≤1 ↔ guard)

theorem Speaks.quiet {w w' : World} (hi : Enrolled w) (hr : w'.requests=w.requests)
    (hf : w'.fired=w.fired) : Speaks w w' True := by
  refine ⟨?_,0,[],?_,?_,?_⟩
  · rw [Enrolled]
    rw [hf,hr]
    exact hi
  · simpa using hf
  · simp
  · simp

theorem Speaks.of_requests {w w' : World} (hi : Enrolled w)
    {new : List (Callback SearchResultProxy)} {q : Request} {guard : Prop}
    (hr : w'.requests=w.requests++[q])
    (hf : w'.fired=new.map (fun c => (w.requests.length,c))++w.fired)
    (hg : new.length≤1 ↔ guard) : Speaks w w' guard := by
  refine ⟨?_,w.requests.length,new,hf,?_,hg⟩
  · intro f hm
    rw [hf] at hm
    rw [hr,List.length_append,List.length_singleton]
    rcases List.mem_append.mp hm with hm|hm
    · obtain ⟨c,-,rfl⟩ := List.mem_map.mp hm
      exact Nat.lt_succ_self _
    · exact Nat.lt_succ_of_lt (hi f hm)
  · intro _ f hm
    exact Nat.ne_of_lt (hi f hm)

theorem Speaks.plain {w : World} (hi : Enrolled w) {async : Bool} {wait : Wait} {x : Executed}
    (hr : x.world.requests=w.requests) (hf : x.world.fired=w.fired) :
    Speaks w (settle w.requests.length async wait x) True := by
  obtain ⟨new,q,hf',hr',hn⟩ := settle_fired w.requests.length async wait x
  rw [hf] at hf'
  rw [hr] at hr'
  exact Speaks.of_requests hi hr' hf' (by simpa using hn)

theorem plain_speaks {w : World} (hi : Enrolled w) {op : Op}
    (h : (∃o cb lib,op=.connect o cb lib) ∨ (∃o cb lib,op=.simpleBind o cb lib) ∨
      ∃o cb lib,op=.saslBind o cb lib) : Speaks w (w.perform op) True := by
  obtain ⟨async,wait,x,hx,-,-,c,s,n,l,os,hw⟩ := plain_cases w h
  rw [hx]
  apply Speaks.plain hi <;> rw [hw]

theorem search_speaks {w : World} (hi : Enrolled w) (o : SearchOptions) (cb : Callbacks)
    (lib : SearchLib) : Speaks w (w.perform (.search o cb lib))
      (cb.error=true → w.connection.isBound=true) := by
  rw [perform,sendRequest]
  obtain ⟨os,hn⟩ := note_frame w { method := .search, callbacks := cb }
  rw [hn]
  rcases search_cases { w with orphans := os } w.requests.length
      { method := .search, callbacks := cb } o lib with
    ⟨hb,hx⟩|⟨hb,-,hx⟩|⟨hb,names,h,-,-,hx⟩
  · rw [hx]
    have hb : w.connection.isBound=false := hb
    -- The guard inside `execute:async:` fires, and `sendRequest:` fires again on its result.
    rw [settle_code _ _ _ rfl rfl]
    have hlen : ((Request.emit { method := .search, callbacks := cb } (verdictOf (-1))++
        Request.emit { method := .search, callbacks := cb }
          (.failed (-2) (.text "[ERROR] Connection is not bound."))).length≤1 ↔
        (cb.error=true → w.connection.isBound=true)) := by
      cases he : cb.error <;>
        simp [verdictOf,errorVerdict,Request.emit,Callbacks.emit,he,hb,ldapSuccess]
    refine Speaks.of_requests hi (handle_requests _ _ _ _) ?_ hlen
    rw [handle_fired,List.map_append,List.append_assoc]
    rfl
  · have hb : w.connection.isBound=true := hb
    rw [hx]
    simpa [hb] using Speaks.plain hi rfl rfl
  · have hb : w.connection.isBound=true := hb
    rw [hx]
    simp only [hb,implies_true]
    split_ifs
    · exact Speaks.plain hi rfl rfl
    · exact Speaks.plain hi rfl rfl

/-- A search that can report errors is made only on a bound connection. -/
def callbackGuard (w : World) (op : Op) : Prop :=
  match op with
  | .search _ cb _ => w.aborted=false → cb.error=true → w.connection.isBound=true
  | _ => True

theorem perform_speaks {w : World} (hi : Enrolled w) (hw : w.aborted=false) (op : Op) :
    Speaks w (w.perform op) (w.callbackGuard op) := by
  cases op with
  | connect o cb lib => exact plain_speaks hi (.inl ⟨o,cb,lib,rfl⟩)
  | simpleBind o cb lib => exact plain_speaks hi (.inr (.inl ⟨o,cb,lib,rfl⟩))
  | saslBind o cb lib => exact plain_speaks hi (.inr (.inr ⟨o,cb,lib,rfl⟩))
  | search o cb lib => simpa [callbackGuard,hw] using search_speaks hi o cb lib
  | disconnect =>
    obtain ⟨c,l,h⟩ := disconnect_frame w
    rw [perform,h]
    exact Speaks.quiet hi rfl rfl
  | destroy =>
    obtain ⟨c,l,h⟩ := disconnect_frame w
    rw [perform,h]
    exact Speaks.quiet hi rfl rfl
  | abandon r ok errno =>
    rw [perform]
    rcases abandon_cases w r ok errno with ⟨-,fs,b,h⟩|⟨q,k,-,-,-,h⟩
    · rw [h]
      exact Speaks.quiet hi rfl rfl
    · rw [h]
      exact Speaks.quiet hi rfl rfl
  | resultCall i c =>
    obtain ⟨rs,es,fs,b,h⟩ := resultCall_frame w i c
    rw [perform,h]
    exact Speaks.quiet hi rfl rfl
  | entryCall i c errno =>
    obtain ⟨s,es,fs,b,h⟩ := entryCall_frame w i c errno
    rw [perform,h]
    exact Speaks.quiet hi rfl rfl
  | _ => exact Speaks.quiet hi rfl rfl

theorem step_speaks {w : World} (hi : Enrolled w) (op : Op) :
    Speaks w (step w op) (w.callbackGuard op) := by
  rw [step]
  cases hw : w.aborted with
  | true =>
    have hg : w.callbackGuard op := by
      cases op with
      | search o cb lib => intro ha; rw [hw] at ha; cases ha
      | _ => trivial
    simpa [hg] using Speaks.quiet hi rfl rfl
  | false => exact perform_speaks hi hw op

/-- No request has fired twice. -/
def Single (w : World) : Prop := ∀r,(w.fired.map Prod.fst).count r≤1

theorem step_single {w : World} (hi : Enrolled w) (hs : w.Single) (op : Op) :
    (step w op).Single ↔ w.callbackGuard op := by
  obtain ⟨-,r,new,hf,hr,hg⟩ := step_speaks hi op
  have hs : (w.fired.map Prod.fst).Nodup := List.nodup_iff_count_le_one.mpr hs
  rw [Single,← List.nodup_iff_count_le_one,hf,nodup_keys_append hs,← hg]
  constructor
  · rintro (rfl|⟨hl,-⟩)
    · exact Nat.zero_le _
    · exact hl
  · intro hl
    by_cases hne : new=[]
    · exact .inl hne
    · exact .inr ⟨hl,hr hne⟩

end TiLdap.Ios.World
