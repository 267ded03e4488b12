import TiLdap.OpenLdap.Delivery

namespace TiLdap.OpenLdap

open Framework Lber

/-- The messages that a call comes back with. -/
def Got.items : Got → List LdapMessage
  | .chain c => c.items
  | _ => []

section Waiting

variable {w : Word} {msgid : Int} {all : LdapMsg} {P : List LdapMessage → Ld → Prop} {g : Got}
  {ld ld' : Ld}

/-- A property of a session and of what is on its way to the program that a wait keeps, since it
is kept by each of the things that a wait can do. -/
structure Steady (msgid : Int) (all : LdapMsg) (P : List LdapMessage → Ld → Prop) : Prop where
  code : ∀{out ld} e s,P out ld → P out { ld with errno := e, stuck := s }
  checked : ∀{ld r cs ab},Orderly ld → P [] ld →
    Checked msgid all ld.responses ld.abandoned r cs ab →
    P (handed r) { ld with responses := cs, abandoned := ab }
  passed : ∀{ld o ld'},Orderly ld → P [] ld → Admitted ld o ld' → P [] ld'
  accepted : ∀{ld x ld' r cs},Orderly ld → P [] ld → Admitted ld (.message x) ld' →
    (all=.msgOne → Unwanted msgid ld'.responses) → Queued msgid all x ld'.responses r cs →
    P (handed r) { ld' with accepted := ld'.accepted++[x], responses := cs }

/-- Where a wait has got to. -/
structure Waiting (msgid : Int) (all : LdapMsg) (P : List LdapMessage → Ld → Prop) (g : Got)
    (ld : Ld) : Prop where
  orderly : Orderly ld
  holds : P g.items ld
  unwanted : g=.keepLooking → all=.msgOne → Unwanted msgid ld.responses

theorem Waiting.code (h : Waiting msgid all P .keepLooking ld) (hP : Steady msgid all P)
    (rc e : Int) (s : List Nat) :
    Waiting msgid all P (.code rc) { ld with errno := e, stuck := s } :=
  ⟨h.orderly.code e s,hP.code e s h.holds,by simp⟩

/-- A message is read. -/
theorem Steady.takeArrival (hP : Steady msgid all P) (h : Waiting msgid all P .keepLooking ld)
    {c : Nat} {a : Arrival} (ht : takeArrival w msgid all c a ld=(g,ld')) :
    Waiting msgid all P g ld' := by
  cases a with
  | wouldBlock =>
    cases ht
    exact h
  | failed =>
    cases ht
    exact h.code hP _ _ _
  | broken =>
    cases ht
    exact ⟨h.orderly,h.holds,by simp⟩
  | element tag contents hops =>
    rw [OpenLdap.takeArrival] at ht
    split at ht
    · cases ht
      exact h.code hP _ _ _
    · cases hr : readMessage w msgid contents hops ld with
      | mk o ld₁ =>
        rw [hr] at ht
        have ha := readMessage_admitted h.orderly.forest h.orderly.positive hr
        have ho := h.orderly.admitted ha
        have hp := hP.passed h.orderly h.holds ha
        have hun : all=.msgOne → Unwanted msgid ld₁.responses := by
          rw [ha.responses]
          exact h.unwanted rfl
        cases o with
        | keepLooking =>
          cases ht
          exact ⟨ho,hp,fun _ => hun⟩
        | code rc =>
          cases ht
          exact ⟨ho,hp,by simp⟩
        | crash =>
          cases ht
          exact ⟨ho,hp,by simp⟩
        | message x =>
          dsimp only at ht
          cases hq : queueMessage msgid all x ld₁.responses with
          | mk r cs =>
            rw [hq] at ht
            have hQ := queueMessage_queued ho.bundled hq
            have ho₁ := h.orderly.accept ha hQ
            have hp₁ := hP.accepted h.orderly h.holds ha hun hQ
            cases r with
            | none =>
              cases ht
              exact ⟨ho₁,hp₁,fun _ hone => hQ.one rfl hone (hun hone)⟩
            | some c =>
              cases ht
              exact ⟨ho₁.code 0 _,hP.code 0 _ hp₁,by simp⟩

theorem Steady.tryRead (hP : Steady msgid all P) (h : Waiting msgid all P .keepLooking ld)
    {r : Read} (ht : tryRead w msgid all r ld=(g,ld')) : Waiting msgid all P g ld' := by
  rw [OpenLdap.tryRead] at ht
  split at ht
  · cases ht
    exact ⟨h.orderly,h.holds,by simp⟩
  · exact hP.takeArrival h ht

theorem Steady.tryRead1msg (hP : Steady msgid all P) (h : Waiting msgid all P .keepLooking ld)
    {rs : List Read} (ht : tryRead1msg w msgid all rs ld=(g,ld')) : Waiting msgid all P g ld' := by
  induction rs generalizing ld with
  | nil =>
    cases ht
    exact h
  | cons r rs ih =>
    rw [OpenLdap.tryRead1msg] at ht
    split at ht
    · rename_i ld₁ hr
      exact ih (hP.tryRead h hr) ht
    · rename_i g₁ ld₁ _ hr
      cases ht
      exact hP.tryRead h hr

theorem Steady.waitRound (hP : Steady msgid all P) (h : Waiting msgid all P .keepLooking ld)
    {r : Round} (ht : waitRound w msgid all r ld=(g,ld')) : Waiting msgid all P g ld' := by
  cases r with
  | timeout =>
    cases ht
    exact h.code hP _ _ _
  | failed =>
    cases ht
    exact h.code hP _ _ _
  | interrupted expired =>
    dsimp only [OpenLdap.waitRound] at ht
    split at ht
    · split at ht
      · cases ht
        exact h.code hP _ _ _
      · cases ht
        exact h
    · cases ht
      exact h.code hP _ _ _
  | ready reads buffered expired =>
    dsimp only [OpenLdap.waitRound] at ht
    split at ht
    · cases ht
      exact ⟨h.orderly,h.holds,by simp⟩
    · split at ht
      · rename_i ld₁ hr
        have h₁ := hP.tryRead1msg h hr
        split at ht
        · cases ht
          exact h₁.code hP _ _ _
        · cases ht
          exact h₁
      · rename_i g₁ ld₁ _ hr
        cases ht
        exact hP.tryRead1msg h hr

/-- The responses are looked through before each round. -/
theorem Steady.chkResponseList (hP : Steady msgid all P) (h : Orderly ld) (hp : P [] ld)
    {r : Option (Strand LdapMessage)} {cs : List (Strand LdapMessage)} {ab : List Nat}
    (hc : chkResponseList msgid all ld.responses ld.abandoned=(r,cs,ab)) :
    Orderly { ld with responses := cs, abandoned := ab } ∧
      P (handed r) { ld with responses := cs, abandoned := ab } ∧
      (r=none → all=.msgOne → Unwanted msgid cs) := by
  have hC := chkResponseList_checked h.bundled h.ascending hc
  exact ⟨h.fewer hC.ascending hC.bundled hC.subset,hP.checked h hp hC,hC.one⟩

theorem Steady.wait4msg (hP : Steady msgid all P) (h : Orderly ld) (hp : P [] ld)
    {rs : List Round} (ht : wait4msg w msgid all rs ld=(g,ld')) : Waiting msgid all P g ld' := by
  induction rs generalizing ld with
  | nil =>
    rw [OpenLdap.wait4msg] at ht
    split at ht
    · rename_i c cs ab hc
      cases ht
      obtain ⟨ho,hp,-⟩ := hP.chkResponseList h hp hc
      exact ⟨ho,hp,by simp⟩
    · rename_i cs ab hc
      cases ht
      obtain ⟨ho,hp,-⟩ := hP.chkResponseList h hp hc
      exact ⟨ho,hp,by simp⟩
  | cons r rs ih =>
    rw [OpenLdap.wait4msg] at ht
    split at ht
    · rename_i c cs ab hc
      cases ht
      obtain ⟨ho,hp,-⟩ := hP.chkResponseList h hp hc
      exact ⟨ho,hp,by simp⟩
    · rename_i cs ab hc
      obtain ⟨ho,hp,hone⟩ := hP.chkResponseList h hp hc
      have hw : Waiting msgid all P .keepLooking { ld with responses := cs, abandoned := ab } :=
        ⟨ho,hp,fun _ => hone rfl⟩
      dsimp only at ht
      split at ht
      · rename_i ld₁ hr
        have h₁ := hP.waitRound hw hr
        exact ih h₁.orderly h₁.holds ht
      · rename_i g₁ ld₁ _ hr
        cases ht
        exact hP.waitRound hw hr

/-- What a wait keeps holds of what a call hands out, when that is handed out. -/
theorem Steady.ldapResultOf (hP : Steady msgid all P) (h : Orderly ld) (hp : P [] ld)
    (rs : List Round) : ∃ld₁,Orderly ld₁ ∧ P (ldapResultOf w msgid all rs ld).1.items ld₁ ∧
      (ldapResultOf w msgid all rs ld).2={ ld₁ with
        returned := ld₁.returned++(ldapResultOf w msgid all rs ld).1.items } := by
  cases hr : OpenLdap.wait4msg w msgid all rs ld with
  | mk g ld₁ =>
    have hw := hP.wait4msg h hp hr
    refine ⟨ld₁,hw.orderly,?_⟩
    rw [OpenLdap.ldapResultOf,hr]
    cases g with
    | chain c => exact ⟨hw.holds,rfl⟩
    | blocked => exact ⟨hw.holds,by simp [Got.items]⟩
    | keepLooking => exact ⟨hw.holds,by simp [Got.items]⟩
    | code rc => exact ⟨hw.holds,by simp [Got.items]⟩
    | crash => exact ⟨hw.holds,by simp [Got.items]⟩

theorem Orderly.hand (h : Orderly ld) (out : List LdapMessage) :
    Orderly { ld with returned := ld.returned++out } :=
  { h with }

end Waiting

section Kept

variable {w : Word} {msgid : Int} {all : LdapMsg}

theorem steady_accounted (A : Nat → Prop) : Steady msgid all (Accounted A) where
  code := fun e s h => h.code e s
  checked := fun _ h hc => h.checked hc
  passed := fun h ha hd => ha.admitted h.ascending hd
  accepted := fun h ha hd hun hq => ha.accept h hd hun hq

/-- An operation for which nothing comes any more, with what was made and handed out for it. -/
def Silent (m : Nat) (acc ret out : List LdapMessage) (ld : Ld) : Prop :=
  Gone m ld ∧ mine m ld.accepted=acc ∧ mine m (ld.returned++out)=ret

theorem steady_silent {m : Nat} (hm : 0< m) (acc ret : List LdapMessage) :
    Steady msgid all (Silent m acc ret) where
  code := fun _ _ h => h
  checked := by
    intro ld r cs ab _ hs hc
    have hg : Gone m ld := hs.1
    have hr := hs.2.2
    have hout : mine m (handed r)=[] := by
      rw [List.eq_nil_iff_forall_not_mem]
      intro x hx
      obtain ⟨hx,hxm⟩ := mem_mine.mp hx
      have hin := (hc.taken x hx).2.2
      rw [hxm,hg.2.2] at hin
      cases hin
    refine ⟨⟨hg.1,hg.2.1,queued_eq_nil (hc.subset m) hg.2.2⟩,hs.2.1,?_⟩
    rw [List.append_nil] at hr
    rw [mine_append,hout,List.append_nil]
    exact hr
  passed := by
    intro ld o ld' _ hs hd
    have hg : Gone m ld := hs.1
    refine ⟨hg.admitted hd,?_,?_⟩
    · rw [hd.accepted]
      exact hs.2.1
    · rw [hd.returned]
      exact hs.2.2
  accepted := by
    intro ld x ld' r cs h hs hd _ hq
    have hg : Gone m ld := hs.1
    have hr := hs.2.2
    obtain ⟨hne,hout,hg'⟩ := hg.accept h hm hd hq
    refine ⟨hg',?_,?_⟩
    · show mine m (ld'.accepted++[x])=acc
      rw [mine_append,mine_singleton_ne hne,List.append_nil,hd.accepted]
      exact hs.2.1
    · show mine m (ld'.returned++handed r)=ret
      rw [List.append_nil] at hr
      rw [mine_append,hout,List.append_nil,hd.returned]
      exact hr

/-- What is handed out together is of one operation that is waited for, and where all of it is
asked for and it is data of a search, its end is there and no more of it waits. -/
def Together (msgid : Int) (all : LdapMsg) (out : List LdapMessage) (ld : Ld) : Prop :=
  ∀x∈out,wanted msgid x=true ∧ (∀y∈out,y.msgid=x.msgid) ∧
    (all=.msgAll → msgid≠ldapResUnsolicited → (∀y∈out,searchType y.msgtype=true) →
      (∃y∈out,openType y.msgtype=false) ∧ queued x.msgid ld.responses=[])

theorem steady_together : Steady msgid all (Together msgid all) where
  code := fun _ _ h => h
  checked := by
    intro ld r cs ab _ _ hc x hx
    cases r with
    | none => cases hx
    | some c =>
      have hu := hc.uniform c rfl
      refine ⟨(hc.taken x hx).2.1,fun y hy => (hu y hy).trans (hu x hx).symm,?_⟩
      intro hall hne _
      obtain ⟨h1,h2⟩ := hc.complete c rfl hall hne
      refine ⟨⟨c.last,List.mem_of_getLast? c.getLast?_items,h1⟩,?_⟩
      rw [hu x hx]
      exact h2
  passed := by
    rintro ld o ld' - - - x ⟨⟩
  accepted := by
    intro ld x ld' r cs _ _ _ _ hq y hy
    cases r with
    | none => cases hy
    | some c =>
      obtain ⟨hw,hx,hu⟩ := hq.found c rfl
      refine ⟨(wanted_congr (hu y hy)).trans hw,fun z hz => (hu z hz).trans (hu y hy).symm,?_⟩
      intro hall _ hs
      obtain ⟨h1,h2⟩ := hq.complete (by simp) hall (hs x hx)
      refine ⟨⟨x,hx,h1⟩,?_⟩
      rw [hu y hy]
      exact h2

/-- A wait only adds to the messages that were made, and hands none out before it ends. -/
theorem steady_history (acc ret : List LdapMessage) :
    Steady msgid all fun _ ld => acc<+:ld.accepted ∧ ld.returned=ret where
  code := fun _ _ h => h
  checked := fun _ h _ => h
  passed := by
    intro ld o ld' _ h hd
    rw [hd.accepted,hd.returned]
    exact h
  accepted := by
    intro ld x ld' r cs _ h hd _ _
    show acc<+:ld'.accepted++[x] ∧ ld'.returned=ret
    rw [hd.accepted,hd.returned]
    exact ⟨h.1.trans (List.prefix_append _ _),h.2⟩

theorem Steady.and {P R : List LdapMessage → Ld → Prop} (hP : Steady msgid all P)
    (hR : Steady msgid all R) : Steady msgid all fun out ld => P out ld ∧ R out ld where
  code := fun e s h => ⟨hP.code e s h.1,hR.code e s h.2⟩
  checked := fun ho h hc => ⟨hP.checked ho h.1 hc,hR.checked ho h.2 hc⟩
  passed := fun ho h hd => ⟨hP.passed ho h.1 hd,hR.passed ho h.2 hd⟩
  accepted := fun ho h hd hun hq => ⟨hP.accepted ho h.1 hd hun hq,hR.accepted ho h.2 hd hun hq⟩

end Kept

end TiLdap.OpenLdap
