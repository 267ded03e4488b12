import TiLdap.OpenLdap.Runs

namespace TiLdap.OpenLdap

open Framework Lber

section Following

variable (ld : Ld)

/-- With its original request at hand, a referral is followed without reading from a null
pointer. -/
theorem chaseV3Loop_isSome {origid : Nat} {hops : List Hop} {refs : List (List UInt8)}
    {c : Chasing} (h : Forest 0 ld.msgid ld.requests)
    (hroot : ∃q∈ld.requests,q.msgid=origid ∧ q.parent=none) (h0 : origid≠0) :
    (chaseV3Loop origid hops refs c ld).isSome=true := by
  induction hops generalizing refs c ld with
  | nil =>
    cases refs with
    | nil => rfl
    | cons ref refs => rfl
  | cons hop hops ih =>
    cases refs with
    | nil => rfl
    | cons ref refs =>
      cases hop with
      | badUrl => rfl
      | critical => rfl
      | looped =>
        rw [chaseV3Loop]
        exact ih { ld with errno := ldapClientLoop } h hroot
      | unencoded =>
        rw [chaseV3Loop,if_neg h0]
        rfl
      | request s =>
        obtain ⟨q,hq,hid,hp⟩ := hroot
        have hfind : ld.request? origid=some q := hid ▸ h.find hq
        rw [chaseV3Loop,hfind]
        dsimp only
        rw [if_neg h0]
        cases hsend : ldapSendServerRequest s (ld.msgid+1) (some q) (ldapNextMsgid ld) with
        | mk rc ld₁ =>
          obtain ⟨hf₁,-,hroot₁⟩ := ldapSendServerRequest_original h hq hp s hsend
          rw [hid] at hroot₁
          dsimp only
          split
          · exact ih { ld₁ with errno := ldapReferral } hf₁ hroot₁
          · rfl

theorem ldapChaseV3referrals_isSome {lr : Request} {refs : List (List UInt8)} {hops : List Hop}
    (h : Forest 0 ld.msgid ld.requests) (hlr : ∃r∈ld.requests,r.origid=lr.origid)
    (h0 : lr.origid≠0) : (ldapChaseV3referrals lr refs hops ld).isSome=true := by
  obtain ⟨r,hr,ho⟩ := hlr
  have hroot := h.orig r hr
  rw [ho] at hroot
  rw [ldapChaseV3referrals,Option.isSome_map]
  dsimp only
  split
  · rfl
  · split
    · rfl
    · exact chaseV3Loop_isSome { ld with errno := 0 } h hroot h0

theorem chaseLoop_isSome {lr q : Request} {before : List UInt8} {hops : List Hop}
    {refs : List (List UInt8)} {c : Chasing} (h : Forest lr.msgid ld.msgid ld.requests)
    (hq : q∈ld.requests) (hid : q.msgid=lr.msgid) (hx : q.parent=none ∨ q.status≠.completed)
    (h0 : lr.origid≠0) : (chaseLoop lr before hops refs c ld).isSome=true := by
  induction hops generalizing refs c ld q with
  | nil =>
    cases refs with
    | nil => rfl
    | cons ref refs => rfl
  | cons hop hops ih =>
    cases refs with
    | nil => rfl
    | cons ref refs =>
      cases hop with
      | badUrl => exact ih ld h hq hid hx
      | critical => exact ih ld h hq hid hx
      | looped => rfl
      | unencoded =>
        rw [chaseLoop,if_neg h0]
        rfl
      | request s =>
        have hfind : ld.request? lr.msgid=some q := hid ▸ h.find hq
        rw [chaseLoop,hfind]
        dsimp only
        rw [if_neg h0]
        cases hsend : ldapSendServerRequest s (ld.msgid+1) (some q) (ldapNextMsgid ld) with
        | mk rc ld₁ =>
          obtain ⟨hf,hs⟩ := ldapSendServerRequest_child h hq (hx.imp_right (⟨·,hid⟩)) s hsend
          dsimp only
          split
          · rcases hs with ⟨-,hs⟩|⟨hpos,-⟩
            · obtain ⟨r,hr,hsame,-⟩ := hs.forth q hq
              have hx₁ : r.parent=none ∨ r.status≠.completed := by
                rw [hsame.parent,hsame.status]
                exact hx
              exact ih ld₁ hf hr (hsame.msgid.trans hid) hx₁
            · omega
          · rfl

theorem ldapChaseReferrals_isSome {lr q : Request} {hops : List Hop}
    (h : Forest lr.msgid ld.msgid ld.requests) (hq : q∈ld.requests) (hid : q.msgid=lr.msgid)
    (hx : q.parent=none ∨ q.status≠.completed) (h0 : lr.origid≠0) :
    (ldapChaseReferrals lr hops ld).isSome=true := by
  rw [ldapChaseReferrals]
  dsimp only
  split
  · rfl
  · split
    · rfl
    · rw [Option.isSome_map]
      exact chaseLoop_isSome { ld with errno := 0 } h hq hid hx h0

end Following

section Reading

variable {w : Word} {lr : Request} {ld ld' : Ld}

variable (ld) in
theorem chaseResult_isSome {tag : Nat} {hops : List Hop} {s : Scanned}
    (h : Forest 0 ld.msgid ld.requests) (hlr : lr∈ld.requests)
    (hx : lr.parent=none ∨ lr.status≠.completed) (h0 : lr.origid≠0) :
    (chaseResult w lr tag hops s ld).isSome=true := by
  rw [chaseResult]
  split
  · rfl
  · split
    · split
      · rfl
      · split
        · rfl
        · rw [Option.isSome_map]
          exact ldapChaseV3referrals_isSome ld h ⟨lr,hlr,rfl⟩ h0
    · split
      · rfl
      · split
        · rfl
        · rfl
        · rw [Option.isSome_map]
          exact ldapChaseReferrals_isSome ld (h.exempt _) hlr rfl hx h0

theorem readResult_isSome {tag : Nat} {b : Reader} {hops : List Hop}
    (h : Forest 0 ld.msgid ld.requests) (hlr : lr∈ld.requests)
    (hx : lr.parent=none ∨ lr.status≠.completed) (h0 : lr.origid≠0) :
    (readResult w lr tag b hops ld).isSome=true := by
  rw [readResult]
  split
  · rfl
  · rename_i lderr matched text tmp hres
    have hcalm : Calm lr { lr with
        resMatched := matched
        resError := addText text lr.resError } := ⟨⟨rfl,rfl,rfl⟩,rfl,id⟩
    dsimp only
    rw [Option.isSome_map]
    exact chaseResult_isSome (ld.setRequest lr.msgid _) (h.set (h.put hlr hcalm))
      (mem_setRequest hlr _) hx h0

variable (ld) in
theorem takeResult_ne_crash {tag : Nat} {b : Reader} {hops : List Hop}
    (h : Forest 0 ld.msgid ld.requests) (hlr : lr∈ld.requests)
    (hx : lr.parent=none ∨ lr.status≠.completed) (h0 : lr.origid≠0) :
    (takeResult w lr tag b hops ld).1≠.crash := by
  have hsome : (readResult w lr tag b hops ld).isSome=true := readResult_isSome h hlr hx h0
  rw [takeResult]
  cases hres : readResult w lr tag b hops ld with
  | none =>
    rw [hres] at hsome
    cases hsome
  | some p =>
    obtain ⟨s,ld₁⟩ := p
    have hch := readResult_chased h hlr hx hres
    dsimp only
    split
    · simp
    · split
      · rename_i hcnt
        exact (finishResult_spec hch hcnt rfl).2.2.2
      · simp

variable (w ld) in
theorem chaseReference_isSome (b : Reader) (hops : List Hop)
    (h : Forest 0 ld.msgid ld.requests) (hlr : lr∈ld.requests) (h0 : lr.origid≠0) :
    (chaseReference w lr b hops ld).isSome=true := by
  rw [chaseReference]
  split
  · rfl
  · split
    · rfl
    · rw [Option.isSome_map]
      exact ldapChaseV3referrals_isSome ld h ⟨lr,hlr,rfl⟩ h0

/-- No answer to a request makes the library read from a null pointer. -/
theorem takeMessage_ne_crash {tag : Nat} {b : Reader} {hops : List Hop}
    (h : Forest 0 ld.msgid ld.requests) (hlr : lr∈ld.requests) (hx : lr.status≠.completed)
    (h0 : lr.origid≠0) : (takeMessage w lr tag b hops ld).1≠.crash := by
  have hcalm : Calm lr { lr with resMsgtype := tag } := ⟨⟨rfl,rfl,rfl⟩,rfl,id⟩
  have h₁ := h.set (h.put hlr hcalm)
  have hlr₁ := mem_setRequest hlr { lr with resMsgtype := tag }
  rw [takeMessage]
  dsimp only
  split
  · split
    · rename_i hnone
      have hsome := chaseReference_isSome w (ld.setRequest lr.msgid _) b hops h₁ hlr₁ h0
      rw [hnone] at hsome
      cases hsome
    · simp
  · split
    · simp
    · exact takeResult_ne_crash (ld.setRequest lr.msgid _) h₁ hlr₁ (.inr hx) h0

/-- The id of the message is read as 0. -/
def Unsolicited (w : Word) (contents : List UInt8) : Prop :=
  ∃b,berGetInt w ⟨true,0,contents⟩=(some 0,b)

theorem readMessage_crash {msgid : Int} {contents : List UInt8} {hops : List Hop}
    (h : Orderly ld) (hc : (readMessage w msgid contents hops ld).1=.crash) :
    Unsolicited w contents := by
  rw [readMessage] at hc
  split at hc
  · cases hc
  · rename_i id b hget
    split at hc
    · cases hc
    · rename_i hneg
      dsimp only at hc
      split at hc
      · split at hc
        · cases hc
        · split at hc
          · cases hc
          · cases hc
      · split at hc
        · rename_i hzero
          refine ⟨b,?_⟩
          have hid : id=0 := by
            have hle : ¬id.toInt<0 := fun hl => hneg (Int32.lt_iff_toInt_lt.mpr hl)
            apply Int32.toInt_inj.mp
            have h0 : (0 : Int32).toInt=0 := rfl
            omega
          rw [hget,hid]
        · split at hc
          · cases hc
          · rename_i lr hfind
            split at hc
            · cases hc
            · have hlr : lr∈ld.requests := List.mem_of_find?_eq_some hfind
              have hst : lr.status≠.completed := by
                have hp := List.find?_some hfind
                simp only [decide_eq_true_eq] at hp
                exact hp.1
              obtain ⟨q,hq,h1,-⟩ := h.forest.orig lr hlr
              have hpos := h.positive q hq
              exact absurd hc (takeMessage_ne_crash h.forest hlr hst (by omega))

end Reading

section Waiting

variable {w : Word} {msgid : Int} {all : LdapMsg} {ld ld' : Ld} {g : Got}

/-- A read that brings a message with the id 0. -/
def Read.Unsolicited (w : Word) (r : Read) : Prop :=
  ∃contents hops,r.arrival=.element ldapTagMessage contents hops ∧
    OpenLdap.Unsolicited w contents

/-- A read on connection `c` that brings an element which is no message. -/
def Read.Misread (c : Nat) (r : Read) : Prop :=
  r.conn=c ∧ ∃tag contents hops,r.arrival=.element tag contents hops ∧ tag≠ldapTagMessage

/-- The reads that bring the library down. -/
def Read.Fatal (w : Word) (stuck : List Nat) (r : Read) : Prop :=
  r.Unsolicited w ∨ r.arrival=.broken ∨ r.conn∈stuck

/-- A round with such a read. -/
def Round.Has (p : Read → Prop) (r : Round) : Prop :=
  ∃reads buffered expired,r=.ready reads buffered expired ∧ ∃q∈reads,p q

/-- A call with such a round. -/
def LdCall.Has (p : Read → Prop) (c : LdCall) : Prop :=
  ∃msgid all rounds,c=.result msgid all rounds ∧ ∃r∈rounds,r.Has p

theorem Round.Has.mono {p q : Read → Prop} {r : Round} (h : r.Has p) (hpq : ∀x,p x → q x) :
    r.Has q := by
  obtain ⟨reads,buffered,expired,he,x,hx,hp⟩ := h
  exact ⟨reads,buffered,expired,he,x,hx,hpq x hp⟩

/-- What a step of a wait has to do with the connections that hold an element: it goes on only if
there is no new one, and what goes wrong has its cause among the reads of the step. -/
structure Fate (w : Word) (ld : Ld) (among : (Read → Prop) → Prop) (g : Got) (ld' : Ld) :
    Prop where
  going : g=.keepLooking → ld'.stuck=ld.stuck
  crash : g=.crash → among (·.Fatal w ld.stuck)
  stuck : ∀c∈ld'.stuck,c∈ld.stuck ∨ among (·.Misread c)

/-- A step that leaves the connections as they are. -/
theorem Fate.quiet {among : (Read → Prop) → Prop} (hs : ld'.stuck=ld.stuck) (hg : g≠.crash) :
    Fate w ld among g ld' :=
  ⟨fun _ => hs,fun h => absurd h hg,fun _ hc => .inl (hs ▸ hc)⟩

theorem Fate.mono {among among' : (Read → Prop) → Prop} (h : Fate w ld among g ld')
    (hm : ∀p,among p → among' p) : Fate w ld among' g ld' :=
  ⟨h.going,fun hc => hm _ (h.crash hc),fun c hc => (h.stuck c hc).imp_right (hm _)⟩

theorem steady_true : Steady msgid all fun _ _ => True :=
  ⟨fun _ _ _ => trivial,fun _ _ _ => trivial,fun _ _ _ => trivial,fun _ _ _ _ _ => trivial⟩

theorem takeArrival_fate (h : Orderly ld) {r : Read}
    (ht : takeArrival w msgid all r.conn r.arrival ld=(g,ld')) : Fate w ld (· r) g ld' := by
  cases ha : r.arrival with
  | wouldBlock =>
    rw [ha] at ht
    cases ht
    exact .quiet rfl (by simp)
  | failed =>
    rw [ha] at ht
    cases ht
    exact .quiet rfl (by simp)
  | broken =>
    rw [ha] at ht
    cases ht
    exact ⟨fun _ => rfl,fun _ => .inr (.inl ha),fun _ => .inl⟩
  | element tag contents hops =>
    rw [ha,takeArrival] at ht
    split at ht
    · rename_i htag
      cases ht
      refine ⟨by simp,by simp,?_⟩
      intro c hc
      rcases List.mem_cons.mp hc with rfl|hc
      · exact .inr ⟨rfl,tag,contents,hops,ha,htag⟩
      · exact .inl hc
    · rename_i htag
      rw [ne_eq,not_not] at htag
      subst htag
      cases hm : readMessage w msgid contents hops ld with
      | mk o ld₁ =>
        have hst := (readMessage_admitted h.forest h.positive hm).stuck
        rw [hm] at ht
        cases o with
        | keepLooking =>
          cases ht
          exact .quiet hst (by simp)
        | code rc =>
          cases ht
          exact .quiet hst (by simp)
        | crash =>
          cases ht
          have hu := readMessage_crash h (congrArg Prod.fst hm)
          exact ⟨fun _ => hst,fun _ => .inl ⟨contents,hops,ha,hu⟩,fun c hc => .inl (hst ▸ hc)⟩
        | message x =>
          dsimp only at ht
          split at ht
          · cases ht
            exact .quiet hst (by simp)
          · cases ht
            exact .quiet hst (by simp)

theorem tryRead_fate (h : Orderly ld) {r : Read} (ht : tryRead w msgid all r ld=(g,ld')) :
    Fate w ld (· r) g ld' := by
  rw [tryRead] at ht
  split at ht
  · rename_i hr
    cases ht
    exact ⟨fun _ => rfl,fun _ => .inr (.inr hr),fun _ => .inl⟩
  · exact takeArrival_fate h ht

/-- A step that went on, and the next one. -/
theorem Fate.then {among among' : (Read → Prop) → Prop} {ld₁ : Ld}
    (h : Fate w ld among .keepLooking ld₁) (h' : Fate w ld₁ among' g ld') :
    Fate w ld (fun p => among p ∨ among' p) g ld' := by
  have hs := h.going rfl
  refine ⟨fun hg => (h'.going hg).trans hs,?_,?_⟩
  · intro hg
    rw [← hs]
    exact .inr (h'.crash hg)
  · intro c hc
    rcases h'.stuck c hc with hc|hc
    · exact .inl (hs ▸ hc)
    · exact .inr (.inr hc)

theorem tryRead1msg_fate (h : Waiting msgid all (fun _ _ => True) .keepLooking ld)
    {rs : List Read} (ht : tryRead1msg w msgid all rs ld=(g,ld')) :
    Fate w ld (fun p => ∃r∈rs,p r) g ld' := by
  induction rs generalizing ld with
  | nil =>
    cases ht
    exact .quiet rfl (by simp)
  | cons r rs ih =>
    rw [tryRead1msg] at ht
    split at ht
    · rename_i ld₁ hr
      have hrest := ih (steady_true.tryRead h hr) ht
      refine ((tryRead_fate h.orderly hr).then hrest).mono ?_
      rintro p (hp|⟨q,hq,hp⟩)
      · exact ⟨r,List.mem_cons_self,hp⟩
      · exact ⟨q,List.mem_cons_of_mem r hq,hp⟩
    · rename_i g₁ ld₁ _ hr
      cases ht
      exact (tryRead_fate h.orderly hr).mono fun p hp => ⟨r,List.mem_cons_self,hp⟩

theorem waitRound_fate (h : Waiting msgid all (fun _ _ => True) .keepLooking ld) {r : Round}
    (ht : waitRound w msgid all r ld=(g,ld')) : Fate w ld r.Has g ld' := by
  cases r with
  | timeout =>
    cases ht
    exact .quiet rfl (by simp)
  | failed =>
    cases ht
    exact .quiet rfl (by simp)
  | interrupted expired =>
    dsimp only [waitRound] at ht
    split at ht
    · split at ht
      · cases ht
        exact .quiet rfl (by simp)
      · cases ht
        exact .quiet rfl (by simp)
    · cases ht
      exact .quiet rfl (by simp)
  | ready reads buffered expired =>
    have lift : ∀p : Read → Prop,(∃q∈reads,p q) → (Round.ready reads buffered expired).Has p :=
      fun p hp => ⟨reads,buffered,expired,rfl,hp⟩
    dsimp only [waitRound] at ht
    split at ht
    · cases ht
      exact .quiet rfl (by simp)
    · split at ht
      · rename_i ld₁ hr
        have hf := tryRead1msg_fate h hr
        split at ht
        · cases ht
          exact .quiet (hf.going rfl) (by simp)
        · cases ht
          exact hf.mono lift
      · rename_i g₁ ld₁ _ hr
        cases ht
        exact (tryRead1msg_fate h hr).mono lift

theorem wait4msg_fate (h : Orderly ld) {rs : List Round}
    (ht : wait4msg w msgid all rs ld=(g,ld')) : Fate w ld (fun p => ∃r∈rs,r.Has p) g ld' := by
  induction rs generalizing ld with
  | nil =>
    rw [wait4msg] at ht
    split at ht
    · cases ht
      exact .quiet rfl (by simp)
    · cases ht
      exact .quiet rfl (by simp)
  | cons r rs ih =>
    rw [wait4msg] at ht
    split at ht
    · cases ht
      exact .quiet rfl (by simp)
    · rename_i cs ab hchk
      obtain ⟨ho,hp,hone⟩ := steady_true.chkResponseList h trivial hchk
      have hw : Waiting msgid all (fun _ _ => True) .keepLooking
          { ld with responses := cs, abandoned := ab } := ⟨ho,hp,fun _ => hone rfl⟩
      -- The list of responses has nothing to do with the connections.
      have same : ∀{g ld'} {among : (Read → Prop) → Prop},
          Fate w { ld with responses := cs, abandoned := ab } among g ld' →
          Fate w ld among g ld' := fun hf => ⟨hf.going,hf.crash,hf.stuck⟩
      dsimp only at ht
      split at ht
      · rename_i ld₁ hr
        have hrest := ih (steady_true.waitRound hw hr).orderly ht
        refine (same ((waitRound_fate hw hr).then hrest)).mono ?_
        rintro p (hp|⟨q,hq,hp⟩)
        · exact ⟨r,List.mem_cons_self,hp⟩
        · exact ⟨q,List.mem_cons_of_mem r hq,hp⟩
      · rename_i g₁ ld₁ _ hr
        cases ht
        exact (same (waitRound_fate hw hr)).mono fun p hp => ⟨r,List.mem_cons_self,hp⟩

theorem ldapResultOf_fate (h : Orderly ld) {rs : List Round}
    (ht : ldapResultOf w msgid all rs ld=(g,ld')) :
    Fate w ld (fun p => ∃r∈rs,r.Has p) g ld' := by
  rw [ldapResultOf] at ht
  split at ht
  · rename_i c ld₁ hr
    cases ht
    have hf := wait4msg_fate h hr
    exact ⟨by simp,by simp,hf.stuck⟩
  · rename_i hr
    cases ht
    exact wait4msg_fate h hr

/-- An element that is held on a connection was read there in one of the calls. -/
theorem stuck_run {w : Word} {ld : Ld} (h : Orderly ld) (calls : List LdCall) :
    ∀c∈(run (ldStep w) ld calls).stuck,c∈ld.stuck ∨ ∃x∈calls,x.Has (·.Misread c) := by
  induction calls generalizing ld with
  | nil => exact fun _ => .inl
  | cons x calls ih =>
    intro c hc
    have hx : c∈(ldStep w ld x).stuck → c∈ld.stuck ∨ x.Has (·.Misread c) := by
      intro hc
      cases x with
      | request encoded s => exact .inl ((sendRequest_frame h encoded s).2.2.2.2 ▸ hc)
      | result msgid all rounds =>
        exact ((ldapResultOf_fate (w := w) h rfl).stuck c hc).imp_right fun hm =>
          ⟨msgid,all,rounds,rfl,hm⟩
      | abandon es m => exact .inl ((doAbandon_frame h es m).2.2 ▸ hc)
    rcases ih (h.step x) c hc with hc|⟨y,hy,hm⟩
    · exact (hx hc).imp_right fun hm => ⟨x,List.mem_cons_self,hm⟩
    · exact .inr ⟨y,List.mem_cons_of_mem x hy,hm⟩

end Waiting

end TiLdap.OpenLdap
