import TiLdap.Android.Messages
import TiLdap.Ios.Messages

namespace TiLdap

open OpenLdap

/-- Two front ends issue the same search: one sends a message if and only if the other does, and
then it is the same message. -/
def SameSearch (a b : Option SearchMessage) : Prop :=
  (a.isSome ↔ b.isSome) ∧ ∀m m',a=some m → b=some m' → m=m'

theorem sameSearch_iff (p q : Prop) [Decidable p] [Decidable q] (m m' : SearchMessage) :
    SameSearch (if p then some m else none) (if q then some m' else none) ↔
      (p ↔ q) ∧ (p → m=m') := by
  by_cases hp : p <;> by_cases hq : q <;> simp [SameSearch,hp,hq]

/-- No string of a search has a null character in it. -/
def SearchOptions.NoNul (o : SearchOptions) : Prop :=
  nul∉(o.base.getD "").toList ∧ nul∉(o.filter.getD defaultFilter).toList ∧
    ∀n∈o.names,nul∉n.toList

theorem names_cString_iff (names : List String) :
    names=names.map cString ↔ ∀n∈names,nul∉n.toList := by
  induction names with
  | nil => simp
  | cons n names ih =>
    rw [List.map_cons,List.cons.injEq,ih,List.forall_mem_cons,eq_comm,cString_eq_iff]

/-- Where a search leaves a limit to the library, the session has none either. -/
def SearchOptions.OwnLimits (o : SearchOptions) (c : Ios.ConnectionProxy) : Prop :=
  (o.sizeLimit.getD 0<0 → c.sizeLimit.getD 0=0) ∧
  (o.timeLimit.getD 0≤0 → c.timeLimit.getD 0=0)

theorem sizeLimit_eq_iff (c : Ios.ConnectionProxy) (s : Int) :
    (if s<0 then 0 else s)=(if s<0 then (Ios.World.Connect.limits c).sizeLimit else s) ↔
      (s<0 → c.sizeLimit.getD 0=0) := by
  rw [Ios.World.Connect.limits_sizeLimit]
  by_cases hs : s<0
  · simp only [hs,if_true,true_implies]
    omega
  · simp [hs]

theorem timeLimit_eq_iff (c : Ios.ConnectionProxy) (o : SearchOptions) :
    (if o.timeLimit.getD 0<0 then 0 else o.timeLimit.getD 0)=
        Ios.World.Search.sentTime (Ios.World.Connect.limits c) o ↔
      (o.timeLimit.getD 0≤0 → c.timeLimit.getD 0=0) := by
  rw [Ios.World.Search.sentTime,Ios.World.Connect.limits_timeLimit]
  by_cases hs : o.timeLimit.getD 0≤0
  · have hz : (if o.timeLimit.getD 0<0 then 0 else o.timeLimit.getD 0)=0 := by
      split_ifs <;> omega
    rw [hz,if_pos hs]
    by_cases hc : c.timeLimit.getD 0<0
    · have hn : c.timeLimit.getD 0≠0 := by omega
      simp [hs,hc,hn]
    · simp [hs,hc,eq_comm]
  · have hn : ¬o.timeLimit.getD 0<0 := by omega
    simp [hs,hn]

/-- The two platforms issue the same search for the same options exactly when the SDK takes the
filter and the scope if and only if the library takes the filter, the time limit and the
attributes, and then no string has a null character and no limit comes from the session. -/
theorem messages_agree_iff (accepts accepts' : String → Bool) (c : Ios.ConnectionProxy)
    (o : SearchOptions) :
    SameSearch (Android.World.Search.message accepts o)
        (Ios.World.Search.message (Ios.World.Connect.limits c) accepts' o) ↔
      (accepts (o.filter.getD defaultFilter)=true ∧ legalScope (o.scope.getD scopeDefault) ↔
        accepts' (cString (o.filter.getD defaultFilter))=true ∧ o.timeLimit≠.val 0 ∧
          o.attrs≠.val .other) ∧
      (accepts (o.filter.getD defaultFilter)=true ∧ legalScope (o.scope.getD scopeDefault) →
        o.NoNul ∧ o.OwnLimits c) := by
  rw [Android.World.Search.message_eq,Ios.World.Search.message_eq,sameSearch_iff]
  apply and_congr_right'
  apply imp_congr_right
  intro _
  have hb := cString_eq_iff (o.base.getD "")
  have hf := cString_eq_iff (o.filter.getD defaultFilter)
  rw [SearchMessage.mk.injEq,names_cString_iff,sizeLimit_eq_iff,timeLimit_eq_iff,
    eq_comm (b := cString (o.base.getD "")),eq_comm (b := cString (o.filter.getD defaultFilter)),
    hb,hf,SearchOptions.NoNul,SearchOptions.OwnLimits]
  constructor
  · intro ⟨hbase,_,hfilter,hnames,_,hlimits⟩
    exact ⟨⟨hbase,hfilter,hnames⟩,hlimits⟩
  · intro ⟨⟨hbase,hfilter,hnames⟩,hlimits⟩
    exact ⟨hbase,rfl,hfilter,hnames,rfl,hlimits⟩

/-- Without options iOS sends a search with a scope that is not defined and Android sends none;
with a scope and a time limit of zero it is the other way round. -/
theorem messages_disagree :
    ¬SameSearch (Android.World.Search.message (fun _ => true) {})
      (Ios.World.Search.message (Ios.World.Connect.limits {}) (fun _ => true) {}) ∧
    ¬SameSearch
      (Android.World.Search.message (fun _ => true) { scope := .val 2, timeLimit := .val 0 })
      (Ios.World.Search.message (Ios.World.Connect.limits {}) (fun _ => true)
        { scope := .val 2, timeLimit := .val 0 }) := by
  simp only [Android.World.Search.message_eq,Ios.World.Search.message_eq,sameSearch_iff]
  decide

/-- Omitted and null keys are as good as their documented defaults, a negative time limit is as
good as none, and once the filter is accepted there is a message and it is a legal one. -/
def Regular {β : Type} (behaves : SearchOptions → Option β) (message : β → SearchMessage)
    (accepted : Prop) (o : SearchOptions) : Prop :=
  (∀keys,behaves (o.spell keys)=behaves o) ∧
  (∀v,o.timeLimit=.val v → v<0 → behaves o=behaves { o with timeLimit := .absent }) ∧
  (accepted → ∃b,behaves o=some b ∧ (message b).Legal)

namespace Android.World.Search

theorem message_spell (accepts : String → Bool) (o : SearchOptions) (keys : SearchKey → Bool) :
    message accepts (o.spell keys)=message accepts o := by
  obtain ⟨hs,hf,hn,ha,hz,ht⟩ := o.spell_read keys
  have hb : (o.spell keys).base=o.base := rfl
  rw [message_eq,message_eq,hs,hf,hn,ha,hz,ht,hb]

theorem message_negative (accepts : String → Bool) {o : SearchOptions} {v : Int}
    (ho : o.timeLimit=.val v) (hv : v<0) :
    message accepts o=message accepts { o with timeLimit := .absent } := by
  rw [message_eq,message_eq,ho]
  simp only [Arg.getD,hv,if_true,lt_irrefl,if_false]
  rfl

theorem regular_iff (accepts : String → Bool) (o : SearchOptions) :
    Regular (message accepts) (fun m => m) (accepts (o.filter.getD defaultFilter)=true) o ↔
      (accepts (o.filter.getD defaultFilter)=true → legalScope (o.scope.getD scopeDefault)) := by
  constructor
  · intro ⟨_,_,h⟩ ha
    obtain ⟨m,hm,-⟩ := h ha
    by_contra hs
    rw [message_eq,if_neg (fun hp => hs hp.2)] at hm
    cases hm
  · intro h
    refine ⟨message_spell accepts o,fun v ho hv => message_negative accepts ho hv,?_⟩
    intro ha
    rw [message_eq,if_pos ⟨ha,h ha⟩]
    refine ⟨_,rfl,h ha,?_,?_⟩
    · dsimp only
      split_ifs <;> omega
    · dsimp only
      split_ifs <;> omega

end Android.World.Search

namespace Ios.World.Search

/-- What a search sends, and the bound on its wait. -/
def behaves (l : Limits) (accepts : String → Bool) (o : SearchOptions) :
    Option (SearchMessage × Option Timeval) :=
  (message l accepts o).map fun m => (m,waitBound l.apiTimeout (timeout o))

/-- The library takes the filter, the time limit and the attributes. -/
def Takes (accepts : String → Bool) (o : SearchOptions) : Prop :=
  accepts (cString (o.filter.getD defaultFilter))=true ∧ o.timeLimit≠.val 0 ∧ o.attrs≠.val .other

theorem message_isSome_iff (l : Limits) (accepts : String → Bool) (o : SearchOptions) :
    (∃m,message l accepts o=some m) ↔ Takes accepts o := by
  rw [message_eq,Takes]
  by_cases h : accepts (cString (o.filter.getD defaultFilter))=true ∧ o.timeLimit≠.val 0 ∧
      o.attrs≠.val .other
  · simp [h]
  · simp [h]

theorem message_none_iff (l : Limits) (accepts : String → Bool) (o : SearchOptions) :
    message l accepts o=none ↔ ¬Takes accepts o := by
  rw [← message_isSome_iff l,← Option.isSome_iff_exists,Option.not_isSome_iff_eq_none]

/-- With a time limit of its own a search does not depend on which other keys are spelled out. -/
theorem behaves_spell (l : Limits) (accepts : String → Bool) {o : SearchOptions} {v : Int}
    (ho : o.timeLimit=.val v) (keys : SearchKey → Bool) :
    behaves l accepts (o.spell keys)=behaves l accepts o := by
  obtain ⟨hs,hf,hn,ha,hz,-⟩ := o.spell_read keys
  have hb : (o.spell keys).base=o.base := rfl
  have hy : (o.spell keys).async=o.async := rfl
  have ht : (o.spell keys).timeLimit=o.timeLimit := by rw [ho,SearchOptions.spell_timeLimit ho]
  simp only [behaves,message_eq,sentTime,timeout,timeVal,hs,hf,hn,ha,hz,hb,hy,ht,o.spell_attrs]

theorem takes_of_spell {accepts : String → Bool} {o : SearchOptions} {keys : SearchKey → Bool}
    (h : Takes accepts (o.spell keys)) : Takes accepts o := by
  obtain ⟨hf,ht,ha⟩ := h
  rw [(o.spell_read keys).2.1] at hf
  exact ⟨hf,fun h0 => ht (SearchOptions.spell_timeLimit h0 keys),(o.spell_attrs keys).mp ha⟩

/-- Without a time limit, the documented default of zero ends the search. -/
theorem behaves_spell_iff (l : Limits) (accepts : String → Bool) (o : SearchOptions) :
    (∀keys,behaves l accepts (o.spell keys)=behaves l accepts o) ↔
      (Takes accepts o → ∃v,o.timeLimit=.val v) := by
  constructor
  · intro h hp
    by_contra hn
    have ht : (o.spell fun _ => true).timeLimit=.val 0 := by
      cases hv : o.timeLimit with
      | val v => exact absurd ⟨v,hv⟩ hn
      | _ => simp [SearchOptions.spell,hv,Arg.orDefault]
    have hm : message l accepts (o.spell fun _ => true)=none :=
      (message_none_iff l accepts _).mpr (fun hq => hq.2.1 ht)
    obtain ⟨m,ho⟩ := (message_isSome_iff l accepts o).mpr hp
    have he := h fun _ => true
    rw [behaves,behaves,hm,ho] at he
    cases he
  · intro h keys
    by_cases hp : Takes accepts o
    · obtain ⟨v,hv⟩ := h hp
      exact behaves_spell l accepts hv keys
    · have hq : ¬Takes accepts (o.spell keys) := fun hq => hp (takes_of_spell hq)
      rw [behaves,behaves,(message_none_iff l accepts o).mpr hp,
        (message_none_iff l accepts _).mpr hq]
      rfl

/-- A synchronous search waits for a negative number of seconds other than -1. -/
theorem behaves_negative_iff (l : Limits) (accepts : String → Bool) {o : SearchOptions} {v : Int}
    (ho : o.timeLimit=.val v) (hv : v<0) :
    behaves l accepts o=behaves l accepts { o with timeLimit := .absent } ↔
      (Takes accepts o → o.async.getD false=true ∨ v= -1) := by
  have hm : message l accepts { o with timeLimit := .absent }=message l accepts o := by
    have hle : v≤0 := by omega
    have hne : v≠0 := by omega
    have hn : SearchOptions.names { o with timeLimit := .absent }=o.names := rfl
    simp [message_eq,sentTime,ho,Arg.getD,hle,hne,hn]
  have hw : waitBound l.apiTimeout (timeout o)=
        waitBound l.apiTimeout (timeout { o with timeLimit := .absent }) ↔
      o.async.getD false=true ∨ v= -1 := by
    cases ha : o.async.getD false with
    | true => simp [timeout,ha]
    | false =>
      by_cases h1 : v= -1
      · simp [timeout,ha,timeVal,ho,waitBound,h1]
      · simp [timeout,ha,timeVal,ho,waitBound,h1]
  rw [behaves,behaves,hm,← hw]
  cases hs : message l accepts o with
  | none => simp [(message_none_iff l accepts o).mp hs]
  | some m =>
    have hp := (message_isSome_iff l accepts o).mp ⟨m,hs⟩
    simp [hp]

/-- What a message is made of is legal when the scope is defined and the session has no negative
limit that the search leaves to it. -/
theorem legal_iff (c : ConnectionProxy) {accepts : String → Bool} {o : SearchOptions}
    (hp : Takes accepts o) :
    (∃b,behaves (Connect.limits c) accepts o=some b ∧ b.1.Legal) ↔
      legalScope (o.scope.getD scopeDefault) ∧
      (o.sizeLimit.getD 0<0 → 0≤ c.sizeLimit.getD 0) ∧
      (o.timeLimit.getD 0≤0 → 0≤ c.timeLimit.getD 0) := by
  rw [Takes] at hp
  rw [behaves,message_eq,if_pos hp,Option.map_some]
  simp only [Option.some.injEq,exists_eq_left',SearchMessage.Legal,sentTime,
    Connect.limits_sizeLimit,Connect.limits_timeLimit]
  apply and_congr_right'
  apply and_congr
  · split_ifs <;> omega
  · split_ifs <;> omega

/-- The attributes come as an array, the scope is defined, a limit that the search leaves to the
session is not negative there, and there is a time limit other than zero. If that one is negative,
the search is asynchronous or it is -1. -/
def Careful (c : ConnectionProxy) (o : SearchOptions) : Prop :=
  o.attrs≠.val .other ∧ legalScope (o.scope.getD scopeDefault) ∧
  (o.sizeLimit.getD 0<0 → 0≤ c.sizeLimit.getD 0) ∧
  ∃v,o.timeLimit=.val v ∧ v≠0 ∧
    (v<0 → 0≤ c.timeLimit.getD 0 ∧ (o.async.getD false=true ∨ v= -1))

theorem regular_iff (c : ConnectionProxy) (accepts : String → Bool) (o : SearchOptions) :
    Regular (behaves (Connect.limits c) accepts) Prod.fst
        (accepts (cString (o.filter.getD defaultFilter))=true) o ↔
      (accepts (cString (o.filter.getD defaultFilter))=true → Careful c o) := by
  rw [Regular,behaves_spell_iff]
  constructor
  · intro ⟨hk,hn,hl⟩ ha
    obtain ⟨b,hb,hlegal⟩ := hl ha
    have hp : Takes accepts o := by
      rw [← message_isSome_iff (Connect.limits c)]
      rw [behaves] at hb
      obtain ⟨m,hm,-⟩ := Option.map_eq_some_iff.mp hb
      exact ⟨m,hm⟩
    obtain ⟨v,hv⟩ := hk hp
    obtain ⟨hs,hz,ht⟩ := (legal_iff c hp).mp ⟨b,hb,hlegal⟩
    refine ⟨hp.2.2,hs,hz,v,hv,fun h0 => hp.2.1 (h0 ▸ hv),?_⟩
    intro hneg
    have hle : o.timeLimit.getD 0≤0 := by
      rw [hv]
      exact hneg.le
    exact ⟨ht hle,(behaves_negative_iff _ accepts hv hneg).mp (hn v hv hneg) hp⟩
  · intro h
    refine ⟨?_,?_,?_⟩
    · intro hp
      obtain ⟨-,-,-,v,hv,-⟩ := h hp.1
      exact ⟨v,hv⟩
    · intro v hv hneg
      rw [behaves_negative_iff _ accepts hv hneg]
      intro hp
      obtain ⟨-,-,-,v',hv',-,hc⟩ := h hp.1
      obtain rfl : v=v' := Arg.val.inj (hv.symm.trans hv')
      exact (hc hneg).2
    · intro ha
      obtain ⟨hx,hs,hz,v,hv,h0,hc⟩ := h ha
      have hp : Takes accepts o := ⟨ha,fun he => h0 (Arg.val.inj (hv.symm.trans he)),hx⟩
      refine (legal_iff c hp).mpr ⟨hs,hz,?_⟩
      intro hle
      rw [hv,Arg.getD] at hle
      exact (hc (by omega)).1

end Ios.World.Search

/-- A search treats omitted, null and default options alike, a negative time limit as none, and
sends a legal message: on Android exactly when the scope is defined, on iOS exactly when the
search is careful with what the library reads in its own way. -/
theorem defaults_regular_iff (accepts accepts' : String → Bool) (c : Ios.ConnectionProxy)
    (o : SearchOptions) :
    (Regular (Android.World.Search.message accepts) (fun m => m)
        (accepts (o.filter.getD defaultFilter)=true) o ↔
      (accepts (o.filter.getD defaultFilter)=true →
        legalScope (o.scope.getD scopeDefault))) ∧
    (Regular (Ios.World.Search.behaves (Ios.World.Connect.limits c) accepts') Prod.fst
        (accepts' (cString (o.filter.getD defaultFilter))=true) o ↔
      (accepts' (cString (o.filter.getD defaultFilter))=true →
        Ios.World.Search.Careful c o)) :=
  ⟨Android.World.Search.regular_iff accepts o,Ios.World.Search.regular_iff c accepts' o⟩

/-- The default scope cannot be sent on Android, and on iOS the default time limit cannot. -/
theorem defaults_irregular :
    ¬Regular (Android.World.Search.message fun _ => true) (fun m => m) True {} ∧
    ¬Regular (Ios.World.Search.behaves (Ios.World.Connect.limits {}) fun _ => true) Prod.fst True
      { scope := .val 2 } := by
  constructor
  · intro h
    obtain ⟨m,hm,-⟩ := h.2.2 trivial
    cases hm
  · intro h
    have hk := h.1 fun _ => true
    cases hk

end TiLdap
