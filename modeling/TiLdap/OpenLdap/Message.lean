import TiLdap.OpenLdap.Search
import Mathlib.Data.List.TakeWhile

namespace TiLdap.OpenLdap

def nul : Char := Char.ofNat 0

/-- A string that is handed over as a zero-terminated one ends at its first null character. -/
def cString (s : String) : String := String.ofList (s.toList.takeWhile (·≠nul))

theorem cString_eq_iff (s : String) : cString s=s ↔ nul∉s.toList := by
  have hl : cString s=s ↔ s.toList.takeWhile (·≠nul)=s.toList := by
    constructor
    · intro h
      have hc := congrArg String.toList h
      simpa [cString] using hc
    · intro h
      rw [cString,h,String.ofList_toList]
  rw [hl,List.takeWhile_eq_self_iff]
  constructor
  · intro h h0
    simpa using h nul h0
  · intro h c hc
    have hne : c≠nul := fun he => h (he ▸ hc)
    simpa using hne

/-- The time limit that `ldap_pvt_search` takes from its timeout. -/
def timelimit (timeout : Timeval) : Int := if timeout.sec≠0 then timeout.sec else 1

/-- `ldap_build_search_req`: a negative limit gives way to that of the session, and no attribute
array is an empty list. -/
def ldapBuildSearchReq (sizelimit timelimit : Int) (rq : SearchRequest) : SearchMessage where
  base := cString rq.base
  scope := rq.scope
  filter := cString rq.filter
  attributes := (rq.attrs.getD []).map cString
  typesOnly := rq.typesOnly
  sizeLimit := if rq.sizeLimit<0 then sizelimit else rq.sizeLimit
  timeLimit := if rq.timeLimit<0 then timelimit else rq.timeLimit

end TiLdap.OpenLdap
