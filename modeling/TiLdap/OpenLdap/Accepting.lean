import TiLdap.OpenLdap.Completion

namespace TiLdap.OpenLdap

open Framework Lber

/-- No request is left on behalf of an operation. -/
def Closed (m : Nat) (l : List Request) : Prop := ∀r∈l,r.origid≠m

section Results

variable {w : Word} {lr : Request} {s : Scanned} {ld ld₀ ld' : Ld}

/-- A root is done once it is completed and counts no child any more. -/
theorem Forest.requestDone {r : Request} (h : Forest 0 ld.msgid ld.requests) (hr : r∈ld.requests)
    (hp : r.parent=none) (hs : r.status=.completed) (hout : r.outrefcnt≤0) :
    requestDone r ld=true := by
  have hcount := h.counted r hr
  have hz : ld.requests.countP (pending r.msgid)=0 := by omega
  rw [List.countP_eq_zero] at hz
  have hall : ∀c∈ld.requests,c.parent=some r.msgid → c.status=.completed := by
    intro c hc hpc
    by_contra hn
    exact hz c hc (by simp [pending,hpc,hn])
  simp only [OpenLdap.requestDone,hout,hp,hs,decide_true,Bool.and_self,Bool.true_and,
    List.all_eq_true,Bool.or_eq_true,decide_eq_true_eq]
  intro c hc
  by_cases hpc : c.parent=some r.msgid
  · exact .inr (hall c hc hpc)
  · exact .inl hpc

theorem requestDone_iff {r : Request} (h : requestDone r ld=true) : r.parent=none := by
  simp only [requestDone,Bool.and_eq_true,decide_eq_true_eq] at h
  exact h.1.1.2

variable (ld) in
/-- When a root is freed, its operation is closed. -/
theorem ldapFreeRequest_closed {t : Request} (h : Forest 0 ld.msgid ld.requests)
    (ht : t∈ld.requests) (hp : t.parent=none) :
    Forest 0 (ldapFreeRequest t ld).msgid (ldapFreeRequest t ld).requests ∧
      Worked ld (ldapFreeRequest t ld) ∧ Closed t.msgid (ldapFreeRequest t ld).requests := by
  rw [ldapFreeRequest_root h ht hp]
  refine ⟨h.prune t.msgid,?_,?_⟩
  · apply Worked.of_subset (e := ld.errno)
    intro r hr
    exact ⟨r,(List.mem_filter.mp hr).1,rfl,rfl,rfl⟩
  · intro r hr
    simpa using (List.mem_filter.mp hr).2

variable (ld) in
/-- A root has no one to report to. -/
theorem mergeUp_root {r : Request} (h : Forest 0 ld.msgid ld.requests) (hr : r∈ld.requests)
    (hp : r.parent=none) (n : Nat) : mergeUp n r.msgid ld=(r.msgid,ld) := by
  cases n with
  | zero => rfl
  | succ n =>
    have hfind : ld.request? r.msgid=some r := h.find hr
    rw [mergeUp,hfind]
    simp only [hp,Option.bind_none]

/-- A result is handed on only when its operation is closed by it. -/
theorem finishResult_spec {tag : Nat} {b : Reader} {o : Outcome} (hch : Chased lr s ld₀ ld)
    (h0 : s.referCnt=0) (hf : finishResult w lr tag b s ld=(o,ld')) :
    Forest 0 ld'.msgid ld'.requests ∧ Worked ld ld' ∧
      (∀m,o=.message m → m.msgid=lr.origid ∧ Closed lr.origid ld'.requests) ∧ o≠.crash := by
  obtain ⟨r,hr,hid,horig,hpar,howe,hout⟩ := hch.kept
  have h := hch.forest
  have hfind : ld.request? lr.msgid=some r := hid ▸ h.find hr
  have hcalm : ∀c∈ld.requests,c.msgid=lr.msgid → Calm c (completed c) :=
    fun c _ _ => calm_completed c
  have hr₁ : completed r∈(ld.setRequest lr.msgid completed).requests :=
    List.mem_map.mpr ⟨r,hr,if_pos hid⟩
  have hready : (completed r).parent≠none → (completed r).status=.completed ∧
      (completed r).outrefcnt≤0 ∧
      Owing (ld.setRequest lr.msgid completed).requests (completed r) := by
    intro hp
    have ho := howe.set (m := lr.msgid) hr hcalm
    rw [if_pos hid] at ho
    exact ⟨rfl,hout h0 (hpar ▸ hp),ho⟩
  rw [finishResult,hfind] at hf
  dsimp only at hf
  cases hu : mergeUp ld.requests.length lr.msgid (ld.setRequest lr.msgid completed) with
  | mk m ld₁ =>
    obtain ⟨hf₁,hw₁,t,ht,htm,hto⟩ := mergeUp_spec (ld.setRequest lr.msgid completed)
      (h.set hcalm) hr₁ hid hready hu
    have hw₁ : Worked ld ld₁ := (Worked.set hcalm).trans hw₁
    have hfindt : ld₁.request? m=some t := htm ▸ hf₁.find ht
    simp only [hu,hfindt] at hf
    split at hf
    · rename_i hdone
      have hp := requestDone_iff hdone
      have htid : t.msgid=lr.origid := (hf₁.root t ht hp).symm.trans (hto.trans horig)
      obtain ⟨hf₂,hw₂,hcl⟩ := ldapFreeRequest_closed ld₁ hf₁ ht hp
      rw [htid] at hcl
      split at hf
      · cases hf
        refine ⟨hf₂,hw₁.trans hw₂,?_,by simp⟩
        rintro m ⟨⟩
        exact ⟨htid,hcl⟩
      · split at hf
        · cases hf
          obtain ⟨hf₃,hw₃,-⟩ := ldapFreeRequest_closed { ld₁ with errno := -3 } hf₁ ht hp
          have hw : Worked ld₁ { ld₁ with errno := -3 } :=
            .of_subset fun r hr => ⟨r,hr,rfl,rfl,rfl⟩
          refine ⟨hf₃,hw₁.trans (hw.trans hw₃),?_,by simp⟩
          rintro m ⟨⟩
        · cases hf
          refine ⟨hf₂,hw₁.trans hw₂,?_,by simp⟩
          rintro m ⟨⟩
          exact ⟨htid,hcl⟩
    · rename_i hnot
      split at hf
      · -- A root that counts no child is done.
        rename_i hkept
        have hroot := mergeUp_root (ld.setRequest lr.msgid completed) (h.set hcalm) hr₁
          hkept.2 ld.requests.length
        have hid' : (completed r).msgid=lr.msgid := hid
        rw [hid',hu] at hroot
        cases hroot
        have htr : t=completed r := hf₁.eq_of_msgid ht hr₁ (htm.trans hid.symm)
        subst htr
        exact absurd (hf₁.requestDone ht hkept.2 rfl hkept.1) hnot
      · cases hf
        refine ⟨hf₁,hw₁,?_,?_⟩
        · intro m hm
          split at hm <;> cases hm
        · split <;> simp

variable (ld) in
/-- So is any message that is not data. -/
theorem takeResult_spec {tag : Nat} {b : Reader} {hops : List Hop} {o : Outcome}
    {os : Option Scanned} (h : Forest 0 ld.msgid ld.requests) (hlr : lr∈ld.requests)
    (hx : lr.parent=none ∨ lr.status≠.completed)
    (ht : takeResult w lr tag b hops ld=(o,os,ld')) :
    Forest 0 ld'.msgid ld'.requests ∧ Worked ld ld' ∧
      ∀m,o=.message m → m.msgid=lr.origid ∧ Closed lr.origid ld'.requests := by
  rw [takeResult] at ht
  split at ht
  · cases ht
    exact ⟨h,.refl _,by rintro m ⟨⟩⟩
  · rename_i s ld₁ hres
    have hch := readResult_chased h hlr hx hres
    split at ht
    · cases ht
      exact ⟨hch.forest,hch.worked,by rintro m ⟨⟩⟩
    · split at ht
      · rename_i h0
        cases ht
        obtain ⟨hf,hw,hm,-⟩ := finishResult_spec hch h0 rfl
        exact ⟨hf,hch.worked.trans hw,hm⟩
      · cases ht
        have hset := hch.set (m := lr.msgid)
          (f := fun r => { r with resErrno := 0, resMatched := none })
          fun r _ _ => ⟨⟨rfl,rfl,rfl⟩,rfl,id⟩
        exact ⟨hset.forest,hset.worked,by rintro m ⟨⟩⟩

variable (ld) in
theorem chaseReference_spec {b : Reader} {hops : List Hop}
    (h : Forest 0 ld.msgid ld.requests) (hlr : lr∈ld.requests)
    (hc : chaseReference w lr b hops ld=some ld') :
    Forest 0 ld'.msgid ld'.requests ∧ Worked ld ld' := by
  rw [chaseReference] at hc
  split at hc
  · cases hc
    exact ⟨h,.refl _⟩
  · split at hc
    · cases hc
      exact ⟨h,.refl _⟩
    · obtain ⟨⟨⟨n,hadref⟩,ld₁⟩,hchase,he⟩ := Option.map_eq_some_iff.mp hc
      obtain ⟨hf,hs⟩ := ldapChaseV3referrals_spawned h ⟨lr,hlr,rfl⟩ hchase
      dsimp only at he
      split at he
      · cases he
        have hcalm : ∀r∈ld₁.requests,r.msgid=lr.msgid → Calm r
            (if r.status=.completed then r else { r with status := .chasingrefs }) := by
          intro r _ _
          split
          · exact .refl r
          · rename_i hn
            exact ⟨⟨rfl,rfl,rfl⟩,rfl,fun hc => absurd hc hn⟩
        exact ⟨hf.set hcalm,hs.worked.trans (.set hcalm)⟩
      · cases he
        exact ⟨hf,hs.worked⟩

/-- A message is handed on under the id of its operation. Unless it leaves the operation open, it
closes it. -/
theorem takeMessage_spec {tag : Nat} {b : Reader} {hops : List Hop} {o : Outcome}
    (h : Forest 0 ld.msgid ld.requests) (hlr : lr∈ld.requests) (hx : lr.status≠.completed)
    (ht : takeMessage w lr tag b hops ld=(o,ld')) :
    Forest 0 ld'.msgid ld'.requests ∧ Worked ld ld' ∧ ∀m,o=.message m → m.msgid=lr.origid ∧
      (openType m.msgtype=false → Closed lr.origid ld'.requests) := by
  have hcalm : Calm lr { lr with resMsgtype := tag } := ⟨⟨rfl,rfl,rfl⟩,rfl,id⟩
  have hput := h.put hlr hcalm
  have h₁ := h.set hput
  have hw₁ := Worked.set hput
  have hlr₁ := mem_setRequest hlr { lr with resMsgtype := tag }
  rw [takeMessage] at ht
  dsimp only at ht
  split at ht
  · rename_i href
    split at ht
    · cases ht
      exact ⟨h₁,hw₁,by rintro m ⟨⟩⟩
    · rename_i ld₂ hchase
      cases ht
      obtain ⟨hf,hw⟩ := chaseReference_spec (ld.setRequest lr.msgid _) h₁ hlr₁ hchase
      refine ⟨hf,hw₁.trans hw,?_⟩
      rintro m ⟨⟩
      refine ⟨rfl,?_⟩
      intro hopen
      have hdata : openType ldapResSearchReference=true := by decide
      rw [href,hdata] at hopen
      cases hopen
  · split at ht
    · rename_i hopen
      cases ht
      refine ⟨h₁,hw₁,?_⟩
      rintro m ⟨⟩
      exact ⟨rfl,fun hc => absurd (hopen.symm.trans hc) (by decide)⟩
    · cases ht
      obtain ⟨hf,hw,hm⟩ := takeResult_spec (ld.setRequest lr.msgid _) h₁ hlr₁ (.inr hx) rfl
      exact ⟨hf,hw₁.trans hw,fun m he => ⟨(hm m he).1,fun _ => (hm m he).2⟩⟩

/-- `dummy_lr` is a root like any other while it is there. -/
theorem Forest.concat_dummy (h : Forest 0 ld.msgid ld.requests)
    (hpos : ∀r∈ld.requests,0< r.msgid) {d : Request} (hd : d.msgid=0) (ho : d.origid=0)
    (hp : d.parent=none) (hout : d.outrefcnt=0) :
    Forest 0 ld.msgid (ld.requests++[d]) := by
  have hmem : ∀r,r∈ld.requests++[d] ↔ r∈ld.requests ∨ r=d := by simp
  have hold : ∀r∈ld.requests,r∈ld.requests++[d] := fun r hr => (hmem r).mpr (.inl hr)
  have hnone : ∀p,pending p d=false := by simp [pending,hp]
  refine ⟨?sorted,?bound,?root,?child,?orig,?counted,?inner⟩
  case sorted =>
    rw [List.pairwise_append]
    refine ⟨h.sorted,List.pairwise_singleton _ _,?_⟩
    intro r hr q hq
    rw [List.mem_singleton.mp hq,hd]
    exact hpos r hr
  case bound =>
    intro r hr
    rcases (hmem r).mp hr with hr|rfl
    · exact h.bound r hr
    · rw [hd]
      exact Nat.zero_le _
  case root =>
    intro r hr hpr
    rcases (hmem r).mp hr with hr|rfl
    · exact h.root r hr hpr
    · rw [hd,ho]
  case child =>
    intro r hr p hpr
    rcases (hmem r).mp hr with hr|rfl
    · obtain ⟨q,hq,h1⟩ := h.child r hr p hpr
      exact ⟨q,hold q hq,h1⟩
    · rw [hp] at hpr
      cases hpr
  case orig =>
    intro r hr
    rcases (hmem r).mp hr with hr|rfl
    · obtain ⟨q,hq,h1⟩ := h.orig r hr
      exact ⟨q,hold q hq,h1⟩
    · exact ⟨r,hr,hd.trans ho.symm,hp⟩
  case counted =>
    intro p hpm
    rw [List.countP_append,List.countP_singleton,hnone]
    rcases (hmem p).mp hpm with hpm|rfl
    · have hcount := h.counted p hpm
      simp only [Bool.false_eq_true,↓reduceIte]
      omega
    · have hz : ld.requests.countP (pending p.msgid)=0 := by
        rw [List.countP_eq_zero]
        intro r hr hpend
        obtain ⟨q,hq,h1,-⟩ := h.child r hr _ (parent_of_pending hpend)
        have hq0 := hpos q hq
        omega
      rw [hz,hout]
      rfl
  case inner =>
    intro r hr hpr hx hout'
    rcases (hmem r).mp hr with hr|rfl
    · exact h.inner r hr hpr hx hout'
    · exact absurd hp hpr

theorem notice_spec {m : LdapMessage} {o : Outcome} (hn : notice w s m ld=(o,ld')) :
    ld'={ ld with errno := ld'.errno } ∧ ∀m',o=.message m' → m'.msgid=m.msgid := by
  rw [notice] at hn
  split at hn
  · cases hn
    exact ⟨rfl,by rintro m' ⟨⟩; rfl⟩
  · split at hn
    · split at hn
      · cases hn
        exact ⟨rfl,by rintro m' ⟨⟩⟩
      · split at hn
        · cases hn
          exact ⟨rfl,by rintro m' ⟨⟩⟩
        · dsimp only at hn
          split at hn
          · split at hn
            · cases hn
              exact ⟨rfl,by rintro m' ⟨⟩⟩
            · cases hn
              exact ⟨rfl,by rintro m' ⟨⟩⟩
          · cases hn
            exact ⟨rfl,by rintro m' ⟨⟩; rfl⟩
    · cases hn
      exact ⟨rfl,by rintro m' ⟨⟩; rfl⟩

/-- Nothing of an unsolicited notification stays with the requests. -/
theorem takeUnsolicited_spec {msgid : Int} {b : Reader} {hops : List Hop} {o : Outcome}
    (h : Forest 0 ld.msgid ld.requests) (hpos : ∀r∈ld.requests,0< r.msgid)
    (ht : takeUnsolicited w msgid b hops ld=(o,ld')) :
    Forest 0 ld'.msgid ld'.requests ∧ Worked ld ld' ∧ ∀m,o=.message m → m.msgid=0 := by
  rw [takeUnsolicited] at ht
  dsimp only at ht
  cases hres : takeResult w { dummyLr with resMsgtype := ldapResExtended } ldapResExtended b hops
      { ld with requests := ld.requests++[{ dummyLr with resMsgtype := ldapResExtended }] } with
  | mk o₁ p =>
    obtain ⟨os,ld₁⟩ := p
    rw [hres] at ht
    dsimp only at ht
    have hd := h.concat_dummy hpos (d := { dummyLr with resMsgtype := ldapResExtended }) rfl rfl
      rfl rfl
    obtain ⟨hf,hw,hm⟩ := takeResult_spec { ld with requests := ld.requests++[_] } hd
      (by simp) (.inl rfl) hres
    have hw₂ : Worked ld { ld₁ with requests := ld₁.requests.filter (·.origid≠0) } := by
      refine ⟨by rw [hw.frame],hw.msgid,?_⟩
      intro r' hr'
      obtain ⟨hr',ho⟩ := List.mem_filter.mp hr'
      have ho : r'.origid≠0 := by simpa using ho
      have hcase : ∀{r : Request},r∈ld.requests++[{ dummyLr with resMsgtype := ldapResExtended }] →
          r.origid=r'.origid → r∈ld.requests := by
        intro r hr he
        rcases List.mem_append.mp hr with hr|hr
        · exact hr
        · rw [List.mem_singleton.mp hr] at he
          exact absurd he.symm ho
      rcases hw.back r' hr' with ⟨r,hr,h1,h2,h3⟩|⟨hlt,r,hr,he⟩
      · exact .inl ⟨r,hcase hr h2,h1,h2,h3⟩
      · exact .inr ⟨hlt,r,hcase hr he,he⟩
    have hf₂ := hf.prune 0
    split at ht
    · rename_i m s
      have hm0 := (hm m rfl).1
      split at ht
      · obtain ⟨hfr,hn⟩ := notice_spec ht
        rw [hfr]
        refine ⟨hf₂,hw₂.trans (.of_subset fun r hr => ⟨r,hr,rfl,rfl,rfl⟩),?_⟩
        intro m' he
        rw [hn m' he]
        exact hm0
      · cases ht
        refine ⟨hf₂,hw₂,?_⟩
        rintro m' ⟨⟩
        exact hm0
    · cases ht
      refine ⟨hf₂,hw₂,?_⟩
      intro m he
      exact (hm m he).1

/-- What becomes of the ids that are abandoned when a message under one of them is tossed. -/
def Tossed (ab ab' : List Nat) : Prop := ab'=ab ∨ ∃m,ab'=ldapMarkAbandoned m ab

/-- What the contents of a message can do, whatever they are. A message is only made of what
answers an operation that is open, or of a notification. -/
structure Admitted (ld : Ld) (o : Outcome) (ld' : Ld) : Prop where
  forest : Forest 0 ld'.msgid ld'.requests
  tossed : Tossed ld.abandoned ld'.abandoned
  worked : Worked { ld with abandoned := ld'.abandoned } ld'
  message : ∀m,o=.message m → ld'.abandoned=ld.abandoned ∧ (m.msgid=0 ∨
    (∃r∈ld.requests,r.origid=m.msgid) ∧
      (openType m.msgtype=false → Closed m.msgid ld'.requests))

/-- A message that is passed over. -/
theorem Forest.admitted {o : Outcome} (h : Forest 0 ld.msgid ld.requests)
    (hfr : ld'={ ld with errno := ld'.errno }) (hno : ∀m,o≠.message m) : Admitted ld o ld' := by
  rw [hfr]
  exact ⟨h,.inl rfl,.of_subset fun r hr => ⟨r,hr,rfl,rfl,rfl⟩,fun m hm => absurd hm (hno m)⟩

theorem Worked.abandoned (h : Worked ld ld') : ld'.abandoned=ld.abandoned := by rw [h.frame]

/-- A message for a request or a notification. -/
theorem Worked.admitted {o : Outcome} (hf : Forest 0 ld'.msgid ld'.requests)
    (hw : Worked ld ld') (hm : ∀m,o=.message m → m.msgid=0 ∨ (∃r∈ld.requests,r.origid=m.msgid) ∧
      (openType m.msgtype=false → Closed m.msgid ld'.requests)) : Admitted ld o ld' := by
  refine ⟨hf,.inl hw.abandoned,?_,fun m he => ⟨hw.abandoned,hm m he⟩⟩
  rw [hw.abandoned]
  exact hw

theorem readMessage_admitted {msgid : Int} {contents : List UInt8} {hops : List Hop}
    {o : Outcome} (h : Forest 0 ld.msgid ld.requests) (hpos : ∀r∈ld.requests,0< r.msgid)
    (ht : readMessage w msgid contents hops ld=(o,ld')) : Admitted ld o ld' := by
  rw [readMessage] at ht
  split at ht
  · cases ht
    exact h.admitted rfl (by simp)
  · split at ht
    · cases ht
      exact h.admitted rfl (by simp)
    · dsimp only at ht
      split at ht
      · split at ht
        · cases ht
          exact h.admitted rfl (by simp)
        · split at ht
          · cases ht
            exact h.admitted rfl (by simp)
          · cases ht
            exact ⟨h,.inr ⟨_,rfl⟩,.refl _,by simp⟩
      · split at ht
        · split at ht
          · cases ht
            exact h.admitted rfl (by simp)
          · split at ht
            · cases ht
              exact h.admitted rfl (by simp)
            · obtain ⟨hf,hw,hm⟩ := takeUnsolicited_spec h hpos ht
              exact hw.admitted hf fun m he => .inl (hm m he)
        · split at ht
          · cases ht
            exact h.admitted rfl (by simp)
          · rename_i lr hfind
            split at ht
            · cases ht
              exact h.admitted rfl (by simp)
            · have hlr : lr∈ld.requests := List.mem_of_find?_eq_some hfind
              have hst : lr.status≠.completed := by
                have hp := List.find?_some hfind
                simp only [decide_eq_true_eq] at hp
                exact hp.1
              obtain ⟨hf,hw,hm⟩ := takeMessage_spec h hlr hst ht
              refine hw.admitted hf ?_
              intro m he
              obtain ⟨hid,hcl⟩ := hm m he
              rw [hid]
              exact .inr ⟨⟨lr,hlr,rfl⟩,hcl⟩

end Results

end TiLdap.OpenLdap
