import TiLdap.Ios.Limits
import TiLdap.OpenLdap.Message

namespace TiLdap.Ios

open OpenLdap

namespace World

namespace Search

def filterError : ErrorCode := ⟨-7,by decide⟩

/-- How a request gets out of the library when nothing fails but the filter. -/
def sending (accepts : String → Bool) (o : SearchOptions) : Send :=
  if accepts (cString (o.filter.getD defaultFilter)) then .sent 0 false
  else .buildFailed filterError

/-- The message that a search over a bound connection sends, under the limits of its session. -/
def message (l : Limits) (accepts : String → Bool) (o : SearchOptions) : Option SearchMessage :=
  match attrs o with
  | .error _ => none
  | .ok names =>
    if leaves o (sending accepts o) then
      some (ldapBuildSearchReq l.sizeLimit l.timeLimit
        { request o names with timeLimit := timelimit (timeVal o) })
    else none

/-- Past the check of the timeout, the time limit is the one that the request was logged with. -/
theorem timelimit_of_leaves {o : SearchOptions} {send : Send} (h : leaves o send=true)
    (names : List String) : { request o names with timeLimit := timelimit (timeVal o) }=
      request o names := by
  have hs : (timeVal o).sec≠0 := by
    cases send with
    | sent skip busy =>
      intro h0
      cases ht : o.timeLimit with
      | val v =>
        have hv : v=0 := by simpa [timeVal,ht] using h0
        simp [leaves,timeVal,ht,hv] at h
      | _ => simp [timeVal,ht] at h0
    | _ => cases h
  rw [timelimit,if_pos hs]
  rfl

theorem attrs_eq (o : SearchOptions) :
    attrs o=if o.attrs=.val .other then .error .illTyped else .ok o.names := by
  rw [attrs,SearchOptions.names]
  cases ha : o.attrs with
  | val a => cases a <;> simp
  | _ => simp

/-- The time limit of the message: that of the session unless the search gives a positive one. -/
def sentTime (l : Limits) (o : SearchOptions) : Int :=
  if o.timeLimit.getD 0≤0 then l.timeLimit else o.timeLimit.getD 0

/-- A search sends a message exactly when its filter is accepted, its time limit is not zero and
its attributes come as an array. -/
theorem message_eq (l : Limits) (accepts : String → Bool) (o : SearchOptions) :
    message l accepts o=
      if accepts (cString (o.filter.getD defaultFilter))=true ∧ o.timeLimit≠.val 0 ∧
          o.attrs≠.val .other then
        some
          { base := cString (o.base.getD "")
            scope := o.scope.getD scopeDefault
            filter := cString (o.filter.getD defaultFilter)
            attributes := o.names.map cString
            typesOnly := o.attrsOnly.getD false
            sizeLimit := if o.sizeLimit.getD 0<0 then l.sizeLimit else o.sizeLimit.getD 0
            timeLimit := sentTime l o }
      else none := by
  have hl : leaves o (sending accepts o)=true ↔
      accepts (cString (o.filter.getD defaultFilter))=true ∧ o.timeLimit≠.val 0 := by
    rw [sending]
    cases ha : accepts (cString (o.filter.getD defaultFilter)) with
    | false => simp [leaves]
    | true => cases ht : o.timeLimit <;> simp [leaves,timeVal,ht]
  rw [message,attrs_eq]
  by_cases ho : o.attrs=.val .other
  · simp [ho]
  · simp only [ho,if_false,ne_eq,not_false_iff,and_true,hl]
    by_cases hs : accepts (cString (o.filter.getD defaultFilter))=true ∧ ¬o.timeLimit=.val 0
    · rw [if_pos hs,if_pos hs,timelimit_of_leaves (hl.mpr hs)]
      congr 1
      have hn : ((request o o.names).attrs.getD [])=o.names := by
        simp only [request]
        split_ifs with h
        · rw [h]
          rfl
        · rfl
      have ht : (if (timeVal o).sec<0 then l.timeLimit else (timeVal o).sec)=sentTime l o := by
        rw [sentTime]
        cases hv : o.timeLimit with
        | val v =>
          have hv0 : v≠0 := fun h => hs.2 (by rw [hv,h])
          simp only [timeVal,hv,Arg.getD]
          split_ifs <;> omega
        | _ => simp [timeVal,hv,Arg.getD]
      rw [← ht]
      simp only [ldapBuildSearchReq,hn]
      rfl
    · rw [if_neg hs,if_neg hs]

end Search

theorem settle_searches (r : RequestId) (async : Bool) (wait : Wait) (x : Executed) :
    (settle r async wait x).searches=x.world.searches := by
  obtain ⟨c,e,q,rs,t,f,fs,b,hw⟩ := settle_frame r async wait x
  rw [hw]

/-- A search over a bound connection that sends a message has logged the request that it stands
for. -/
theorem step_searches {w : World} (hw : w.aborted=false) (hb : w.connection.isBound=true)
    {accepts : String → Bool} {o : SearchOptions} (cb : Callbacks) (wait : Wait)
    {m : SearchMessage} (hm : Search.message w.session.limits accepts o=some m) :
    ∃rq,(step w (.search o cb ⟨Search.sending accepts o,wait⟩)).searches=rq::w.searches ∧
      m=ldapBuildSearchReq w.session.limits.sizeLimit w.session.limits.timeLimit rq := by
  rw [Search.message] at hm
  cases ha : Search.attrs o with
  | error f => simp [ha] at hm
  | ok names =>
    simp only [ha] at hm
    split_ifs at hm with hl
    · refine ⟨Search.request o names,?_,?_⟩
      · obtain ⟨os,hn⟩ := note_frame w { method := .search, callbacks := cb }
        have hs : step w (.search o cb ⟨Search.sending accepts o,wait⟩)=
            w.perform (.search o cb ⟨Search.sending accepts o,wait⟩) := by
          simp [step,hw]
        rw [hs,perform,sendRequest,settle_searches,hn]
        rcases search_cases { w with orphans := os } w.requests.length
            { method := .search, callbacks := cb } o ⟨Search.sending accepts o,wait⟩ with
          ⟨hu,-⟩|⟨-,he,-⟩|⟨-,names',h,he,-,hx⟩
        · rw [hb] at hu
          cases hu
        · rw [ha] at he
          cases he
        · rw [ha] at he
          cases he
          rw [hx]
          split_ifs <;> rfl
      · rw [Search.timelimit_of_leaves hl] at hm
        exact (Option.some.inj hm).symm

end World

end TiLdap.Ios
