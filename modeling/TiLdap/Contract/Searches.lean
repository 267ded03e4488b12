import TiLdap.Contract.Sessions
import TiLdap.Ios.Agreement
import TiLdap.Ios.Soundness

namespace TiLdap

open Framework OpenLdap

/-- For a search that is sent and answered, the two ways to run it agree exactly when neither
is misled by a reference or an intermediate message at the head of the queued response: the
asynchronous one then reports an error whatever the final code is, the synchronous one the
result code that sending left in the session. -/
theorem searches_agree_iff {w : Ios.World} {o : SearchOptions} (ha : w.Accepted o)
    (ht : ¬(Ios.World.Search.timeVal o).zero) (c : Chain) (skip skip' : Nat)
    (busy busy' queued queued' : Bool) :
    w.SearchesAgree o ⟨.sent skip busy,delivery c queued⟩
        ⟨.sent skip' busy',delivery c queued'⟩ c ↔
      (queued=true → c.leadsAside=true → (busy=false ↔ c.final=some ldapSuccess)) ∧
      (queued'=true → c.leadsAside=true → c.final≠some ldapSuccess) := by
  have has : w.Accepted { o with async := .val false } := ⟨ha.running,ha.bound,ha.attrs⟩
  have haa : w.Accepted { o with async := .val true } := ⟨ha.running,ha.bound,ha.attrs⟩
  have hs := Ios.World.delivery_ne_initiated busy queued c
  have hs' := Ios.World.delivery_ne_initiated busy' queued' c
  rw [Ios.World.SearchesAgree]
  simp only [Ios.World.posted_sync_sent has rfl ht,Ios.World.posted_async_sent haa rfl ht,
    delivery_chain]
  rw [forall_and,Ios.World.faithful_iff c hs.1,Ios.World.faithful_iff c hs'.2,
    Ios.World.syncVerdict_delivery,Ios.World.asyncVerdict_delivery]

/-- A bound session. -/
def Ios.boundWorld : Ios.World := run Ios.step Ios.init [Ios.connects none,Ios.binds]

def Ios.oneEntry : Chain := ⟨[.entry ⟨"cn=a",[]⟩],some 0⟩

def Ios.oneReference : Chain := ⟨[.reference ["ldap://b"]],some 0⟩

theorem boundWorld_accepts : Ios.boundWorld.Accepted {} :=
  ⟨rfl,rfl,by simp [Ios.World.Search.attrs]⟩

theorem default_unlimited : ¬(Ios.World.Search.timeVal {}).zero := by
  rintro ⟨hs,-⟩
  cases hs

/-- A response of one entry gives the same search result either way. -/
theorem searches_agree_entry :
    Ios.boundWorld.Accepted {} ∧ ¬(Ios.World.Search.timeVal {}).zero ∧
    Ios.boundWorld.SearchesAgree {} ⟨.sent 0 false,delivery Ios.oneEntry true⟩
      ⟨.sent 0 false,delivery Ios.oneEntry true⟩ Ios.oneEntry := by
  refine ⟨boundWorld_accepts,default_unlimited,
    (searches_agree_iff boundWorld_accepts default_unlimited _ 0 0 false false true true).mpr
      ⟨?_,?_⟩⟩
  · intro _ hl
    cases hl
  · intro _ hl
    cases hl

/-- After a single reference and a successful final result, queued before the wait, only the
synchronous search succeeds. -/
theorem reference_first_disagrees :
    Ios.boundWorld.Accepted {} ∧ ¬(Ios.World.Search.timeVal {}).zero ∧
    ¬Ios.boundWorld.SearchesAgree {} ⟨.sent 0 false,.queued Ios.oneReference⟩
      ⟨.sent 0 false,.queued Ios.oneReference⟩ Ios.oneReference := by
  refine ⟨boundWorld_accepts,default_unlimited,?_⟩
  intro h
  have hk := (h ⟨true,true⟩).2.1
  have hp : (Ios.boundWorld.posted (.search { async := .val true } ⟨true,true⟩
      ⟨.sent 0 false,.queued Ios.oneReference⟩)).map Callback.isSuccess=[false] := rfl
  rw [hp] at hk
  simp [Callbacks.expects,Ios.oneReference,ldapSuccess] at hk

/-- In every run, the searches on the bound connection all report what happened exactly when
none of them is misled by the result code of the session. -/
theorem searches_sound_iff (ops : List Ios.Op) :
    Along Ios.step Ios.World.SearchSound Ios.init ops ↔
      Along Ios.step Ios.World.searchGuard Ios.init ops :=
  along_congr Ios.World.search_sound

/-- An asynchronous search with a zero time limit is never sent and yet succeeds. -/
theorem unsent_search_succeeds :
    ¬Along Ios.step Ios.World.SearchSound Ios.init [Ios.connects none,Ios.binds,
      .search { async := .val true, timeLimit := .val 0 } ⟨true,true⟩
        ⟨.sent 0 false,.timedOut⟩] := by
  rintro ⟨-,-,h,-⟩
  have hp : (run Ios.step Ios.init [Ios.connects none,Ios.binds]).posted
      (.search { async := .val true, timeLimit := .val 0 } ⟨true,true⟩ ⟨.sent 0 false,.timedOut⟩)=
      [.success .search (some ⟨none,none⟩)] := rfl
  have hs := h rfl _ (hp ▸ List.mem_singleton.mpr rfl)
  exact absurd hs.1 (by decide)

end TiLdap
