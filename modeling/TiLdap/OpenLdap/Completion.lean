import TiLdap.Framework.Lists
import TiLdap.OpenLdap.Chasing

namespace TiLdap.OpenLdap

open Framework Lber

/-- What reading a message can do to a session, as far as other messages go. -/
structure Worked (ld ld' : Ld) : Prop where
  frame : ld'={ ld with msgid := ld'.msgid, requests := ld'.requests, errno := ld'.errno }
  msgid : ld.msgid≤ ld'.msgid
  back : ∀r'∈ld'.requests,
    (∃r∈ld.requests,r.msgid=r'.msgid ∧ r.origid=r'.origid ∧ r.parent=r'.parent) ∨
    ld.msgid< r'.msgid ∧ ∃r∈ld.requests,r.origid=r'.origid

section Worked

variable {ld ld₁ ld₂ : Ld}

theorem Spawned.worked {p : Option Nat} (h : Spawned p ld ld₁) : Worked ld ld₁ := by
  refine ⟨h.frame,h.msgid,?_⟩
  intro r' hr'
  refine (h.back r' hr').imp_left ?_
  rintro ⟨r,hr,hs⟩
  exact ⟨r,hr,hs.msgid.symm,hs.origid.symm,hs.parent.symm⟩

theorem Worked.trans (h : Worked ld ld₁) (h' : Worked ld₁ ld₂) : Worked ld ld₂ := by
  constructor
  · rw [h'.frame,h.frame]
  · exact h.msgid.trans h'.msgid
  · intro r₂ hr₂
    have hle := h.msgid
    rcases h'.back r₂ hr₂ with ⟨r₁,hr₁,h1,h2,h3⟩|⟨hlt,r₁,hr₁,ho⟩
    · rcases h.back r₁ hr₁ with ⟨r,hr,h4,h5,h6⟩|⟨hlt,r,hr,ho⟩
      · exact .inl ⟨r,hr,h4.trans h1,h5.trans h2,h6.trans h3⟩
      · exact .inr ⟨h1 ▸ hlt,r,hr,ho.trans h2⟩
    · rcases h.back r₁ hr₁ with ⟨r,hr,-,h5,-⟩|⟨-,r,hr,ho'⟩
      · exact .inr ⟨by omega,r,hr,h5.trans ho⟩
      · exact .inr ⟨by omega,r,hr,ho'.trans ho⟩

theorem Worked.of_subset {e : Int} {l : List Request} (h : ∀r'∈l,∃r∈ld.requests,
      r.msgid=r'.msgid ∧ r.origid=r'.origid ∧ r.parent=r'.parent) :
    Worked ld { ld with requests := l, errno := e } :=
  ⟨rfl,Nat.le_refl _,fun r' hr' => .inl (h r' hr')⟩

theorem Worked.refl (ld : Ld) : Worked ld ld :=
  .of_subset fun r hr => ⟨r,hr,rfl,rfl,rfl⟩

theorem Worked.set {m : Nat} {f : Request → Request}
    (hf : ∀r∈ld.requests,r.msgid=m → Calm r (f r)) : Worked ld (ld.setRequest m f) := by
  apply Worked.of_subset
  intro r' hr'
  obtain ⟨r,hr,rfl⟩ := List.mem_map.mp hr'
  refine ⟨r,hr,?_⟩
  split
  · rename_i he
    have hc := hf r hr he
    exact ⟨hc.msgid.symm,hc.origid.symm,hc.parent.symm⟩
  · exact ⟨rfl,rfl,rfl⟩

end Worked

section Owing

variable {x n : Nat} {l : List Request} {r : Request}

/-- The parent of a request counts it, be it pending or not. -/
def Owing (l : List Request) (r : Request) : Prop :=
  ∀q∈l,r.parent=some q.msgid →
    (l.countP (fun c => pending q.msgid c && c.msgid≠r.msgid) : Int)+1≤q.outrefcnt

/-- A request that is pending is one of those that its parent counts. -/
theorem Forest.owing (h : Forest x n l) (hr : r∈l) (hs : r.status≠.completed ∨ 0< r.outrefcnt) :
    Owing l r := by
  intro q hq hp
  have hcount := h.counted q hq
  have hpend : pending q.msgid r=true := by
    rcases hs with hs|hs
    · simp [pending,hp,hs]
    · simp [pending,hp,hs]
  have hlt : l.countP (fun c => pending q.msgid c && c.msgid≠r.msgid)< l.countP (pending q.msgid) :=
    countP_lt (fun c _ hb => (Bool.and_eq_true_iff.mp hb).1) hr hpend (by simp)
  omega

theorem Owing.map {g : Request → Request} (h : Owing l r) (hr : r∈l) (hg : ∀c∈l,Tame c (g c))
    (hpar : ∀q∈l,r.parent=some q.msgid → (g q).outrefcnt=q.outrefcnt) :
    Owing (l.map g) (g r) := by
  intro q' hq' hp
  obtain ⟨q,hq,rfl⟩ := List.mem_map.mp hq'
  rw [(hg r hr).parent,(hg q hq).msgid] at hp
  have ho := h q hq hp
  rw [(hg q hq).msgid,hpar q hq hp,(hg r hr).msgid,List.countP_map]
  have hle : l.countP ((fun c => pending q.msgid c && c.msgid≠r.msgid)∘g)≤
      l.countP (fun c => pending q.msgid c && c.msgid≠r.msgid) := by
    apply List.countP_mono_left
    intro c hc hb
    obtain ⟨h1,h2⟩ := Bool.and_eq_true_iff.mp hb
    rw [(hg c hc).msgid] at h2
    exact Bool.and_eq_true_iff.mpr ⟨(hg c hc).pending h1,h2⟩
  omega

theorem Owing.set {m : Nat} {f : Request → Request} (h : Owing l r) (hr : r∈l)
    (hf : ∀c∈l,c.msgid=m → Calm c (f c)) :
    Owing (setRequest m f l) (if r.msgid=m then f r else r) := by
  have hg : ∀c∈l,Calm c (if c.msgid=m then f c else c) := by
    intro c hc
    split
    · exact hf c hc (by assumption)
    · exact .refl c
  exact h.map hr (fun c hc => (hg c hc).tame) fun q hq _ => (hg q hq).outrefcnt

theorem calm_completed (r : Request) : Calm r (completed r) := ⟨⟨rfl,rfl,rfl⟩,rfl,fun _ => rfl⟩

/-- Once its result has been read, a request is no exception any more. -/
theorem Forest.complete {m : Nat} (h : Forest m n l) : Forest 0 n (setRequest m completed l) := by
  have hc : Forest m n (setRequest m completed l) := h.set fun r _ _ => calm_completed r
  refine { hc with inner := ?_ }
  intro r' hr' hp _ hout
  by_cases hm : r'.msgid=m
  · obtain ⟨r,hr,rfl⟩ := List.mem_map.mp hr'
    split
    · rfl
    · rename_i hne
      rw [if_neg hne] at hm
      exact absurd hm hne
  · exact hc.inner r' hr' hp hm hout

end Owing

/-- A result has been read as far as its referrals. Its request is still there and its parent
counts it; where no referral is followed, it has no children to wait for. -/
structure Chased (lr : Request) (s : Scanned) (ld ld' : Ld) : Prop where
  forest : Forest 0 ld'.msgid ld'.requests
  worked : Worked ld ld'
  kept : ∃r∈ld'.requests,r.msgid=lr.msgid ∧ r.origid=lr.origid ∧ r.parent=lr.parent ∧
    Owing ld'.requests r ∧ (s.referCnt=0 → lr.parent≠none → r.outrefcnt≤0)

section Results

variable {w : Word} {lr : Request} {s s' : Scanned} {ld ld' ld₁ : Ld}

theorem owing_root {l : List Request} {r : Request} (h : r.parent=none) : Owing l r := by
  intro q _ hp
  rw [h] at hp
  cases hp

/-- Before its result has been read, a child has no children. -/
theorem Forest.outrefcnt_le {n : Nat} {l : List Request} (h : Forest 0 n l) {r : Request}
    (hr : r∈l) (hx : r.parent=none ∨ r.status≠.completed) (hp : r.parent≠none) :
    r.outrefcnt≤0 := by
  have hs := hx.resolve_left hp
  by_contra hout
  obtain ⟨p,hpar⟩ := Option.ne_none_iff_exists'.mp hp
  obtain ⟨-,-,-,-,hlt⟩ := h.child r hr p hpar
  exact hs (h.inner r hr hp (by omega) (by omega))

theorem Chased.set {m : Nat} {f : Request → Request} (h : Chased lr s ld ld')
    (hf : ∀r∈ld'.requests,r.msgid=m → Calm r (f r)) : Chased lr s ld (ld'.setRequest m f) := by
  obtain ⟨r,hr,h1,h2,h3,h4,h5⟩ := h.kept
  have hc : Calm r (if r.msgid=m then f r else r) := by
    split
    · exact hf r hr (by assumption)
    · exact .refl r
  refine ⟨h.forest.set hf,h.worked.trans (.set hf),_,List.mem_map_of_mem hr,
    hc.msgid.trans h1,hc.origid.trans h2,hc.parent.trans h3,h4.set hr hf,?_⟩
  intro hn hp
  rw [hc.outrefcnt]
  exact h5 hn hp

/-- The request of a result after its referrals, which complete it. -/
theorem Spawned.chased {p : Option Nat} (h : Spawned p ld ld₁) (h0 : Forest 0 ld.msgid ld.requests)
    (h1 : Forest lr.msgid ld₁.msgid ld₁.requests) (hlr : lr∈ld.requests)
    (hx : lr.parent=none ∨ lr.status≠.completed)
    (hp : s.referCnt=0 → lr.parent≠none → p≠some lr.msgid) :
    Chased lr s ld (ld₁.setRequest lr.msgid completed) := by
  obtain ⟨r,hr,hs,ho⟩ := h.forth lr hlr
  have howe : Owing ld₁.requests r := by
    rcases hx with hn|hn
    · exact owing_root (hs.parent.trans hn)
    · exact h1.owing hr (.inl (hs.status ▸ hn))
  have hcalm : ∀c∈ld₁.requests,c.msgid=lr.msgid → Calm c (completed c) :=
    fun c _ _ => calm_completed c
  have hset := howe.set (m := lr.msgid) hr hcalm
  rw [if_pos hs.msgid] at hset
  refine ⟨h1.complete,h.worked.trans (.set hcalm),completed r,?_,hs.msgid,hs.origid,hs.parent,
    hset,?_⟩
  · exact List.mem_map.mpr ⟨r,hr,if_pos hs.msgid⟩
  · intro hc hn
    have hout : (completed r).outrefcnt=lr.outrefcnt := ho (hp hc hn)
    rw [hout]
    exact h0.outrefcnt_le hlr hx hn

/-- A result without referrals leaves the requests as they are. -/
theorem Forest.chased (h : Forest 0 ld.msgid ld.requests) (hlr : lr∈ld.requests)
    (hx : lr.parent=none ∨ lr.status≠.completed) : Chased lr s ld ld := by
  refine ⟨h,.refl ld,lr,hlr,rfl,rfl,rfl,?_,fun _ => h.outrefcnt_le hlr hx⟩
  rcases hx with hn|hn
  · exact owing_root hn
  · exact h.owing hlr (.inl hn)

/-- The root of a child is another request. -/
theorem Forest.origid_ne {x n : Nat} {l : List Request} (h : Forest x n l) {r : Request}
    (hr : r∈l) (hp : r.parent≠none) : r.origid≠r.msgid := by
  intro he
  obtain ⟨q,hq,h1,h2⟩ := h.orig r hr
  rw [h.eq_of_msgid hq hr (h1.trans he)] at h2
  exact hp h2

variable (ld) in
theorem chaseResult_chased {tag : Nat} {hops : List Hop} (h : Forest 0 ld.msgid ld.requests)
    (hlr : lr∈ld.requests) (hx : lr.parent=none ∨ lr.status≠.completed)
    (hc : chaseResult w lr tag hops s ld=some (s',ld')) : Chased lr s' ld ld' := by
  rw [chaseResult] at hc
  have hsame : Spawned none ld ld := .of_requests rfl (Nat.le_refl _)
  split at hc
  · cases hc
    exact h.chased hlr hx
  · split at hc
    · split at hc
      · cases hc
        exact h.chased hlr hx
      · split at hc
        · cases hc
          exact hsame.chased h (h.exempt _) hlr hx (by simp)
        · obtain ⟨⟨⟨n,hadref⟩,ld₁⟩,hchase,he⟩ := Option.map_eq_some_iff.mp hc
          cases he
          obtain ⟨hf,hs⟩ := ldapChaseV3referrals_spawned h ⟨lr,hlr,rfl⟩ hchase
          refine hs.chased h (hf.exempt _) hlr hx ?_
          intro _ hn hid
          exact h.origid_ne hlr hn (Option.some.inj hid)
    · split at hc
      · cases hc
        exact h.chased hlr hx
      · split at hc
        · cases hc
          exact h.chased hlr hx
        · cases hc
          exact (h.chased hlr hx).set fun r _ _ => (same_resError none r).calm rfl
        · obtain ⟨⟨⟨n,hadref⟩,ld₁⟩,hchase,he⟩ := Option.map_eq_some_iff.mp hc
          cases he
          obtain ⟨hf,hs⟩ := ldapChaseReferrals_spawned (h.exempt _) hlr rfl hx hchase
          rcases hs with ⟨-,hs⟩|⟨hn,hs⟩
          · exact hs.chased h hf hlr hx (by simp)
          · refine hs.chased h hf hlr hx ?_
            intro h0
            dsimp only at h0
            omega

theorem Forest.put {x n : Nat} {l : List Request} (h : Forest x n l) {r r' : Request} (hr : r∈l)
    (hc : Calm r r') : ∀q∈l,q.msgid=r.msgid → Calm q r' := by
  intro q hq he
  rw [h.eq_of_msgid hq hr he]
  exact hc

theorem mem_setRequest {l : List Request} {r : Request} (hr : r∈l) (r' : Request) :
    r'∈setRequest r.msgid (fun _ => r') l := List.mem_map.mpr ⟨r,hr,if_pos rfl⟩

/-- A result as far as its referrals. -/
theorem readResult_chased {tag : Nat} {b : Reader} {hops : List Hop}
    (h : Forest 0 ld.msgid ld.requests) (hlr : lr∈ld.requests)
    (hx : lr.parent=none ∨ lr.status≠.completed)
    (hc : readResult w lr tag b hops ld=some (s,ld')) : Chased lr s ld ld' := by
  rw [readResult] at hc
  split at hc
  · cases hc
    exact (h.chased hlr hx).set (h.put hlr ⟨⟨rfl,rfl,rfl⟩,rfl,id⟩)
  · rename_i lderr matched text tmp hres
    obtain ⟨⟨s₁,ld₁⟩,hchase,he⟩ := Option.map_eq_some_iff.mp hc
    cases he
    have hcalm : Calm lr { lr with
        resMatched := matched
        resError := addText text lr.resError } := ⟨⟨rfl,rfl,rfl⟩,rfl,id⟩
    have hput := h.put hlr hcalm
    obtain ⟨hf,hw,r,hr,h1,h2,h3,h4,h5⟩ := chaseResult_chased (ld.setRequest lr.msgid _)
      (h.set hput) (mem_setRequest hlr _) hx hchase
    have hchased : Chased lr s ld ld₁ :=
      ⟨hf,(Worked.set hput).trans hw,r,hr,h1,h2,h3,h4,h5⟩
    exact hchased.set fun r _ _ => ⟨⟨rfl,rfl,rfl⟩,rfl,id⟩

/-- What a request tells its parent changes neither of them otherwise. -/
theorem calm_mergeErrorInfo (parent lr : Request) :
    Calm parent (mergeErrorInfo parent lr).1 ∧ Calm lr (mergeErrorInfo parent lr).2 := by
  rw [mergeErrorInfo]
  split
  · exact ⟨⟨⟨rfl,rfl,rfl⟩,rfl,id⟩,⟨⟨rfl,rfl,rfl⟩,rfl,id⟩⟩
  · split
    · split
      · exact ⟨⟨⟨rfl,rfl,rfl⟩,rfl,id⟩,⟨⟨rfl,rfl,rfl⟩,rfl,id⟩⟩
      · exact ⟨⟨⟨rfl,rfl,rfl⟩,rfl,id⟩,⟨⟨rfl,rfl,rfl⟩,rfl,id⟩⟩
    · exact ⟨⟨⟨rfl,rfl,rfl⟩,rfl,id⟩,⟨⟨rfl,rfl,rfl⟩,rfl,id⟩⟩

/-- A request that has come to its end is none of those that its parent waits for. -/
theorem Forest.countP_settled {n : Nat} {l : List Request} (h : Forest 0 n l) {r : Request}
    (hr : r∈l) (hs : r.status=.completed) (hout : r.outrefcnt≤0) {g : Request → Request}
    (hg : ∀c∈l,Tame c (g c)) (p : Nat) : l.countP (pending p∘g)≤
      l.countP (fun c => pending p c && c.msgid≠r.msgid) := by
  apply List.countP_mono_left
  intro c hc hpc
  refine Bool.and_eq_true_iff.mpr ⟨(hg c hc).pending hpc,?_⟩
  rw [decide_eq_true_eq]
  intro hcr
  have hrc := h.eq_of_msgid hc hr hcr
  subst hrc
  have hst := (hg c hr).status hs
  have hle := (hg c hr).outrefcnt
  have hn : ¬0<(g c).outrefcnt := by omega
  simp [pending,hst,hn] at hpc

/-- One step up: the parent counts one less, and what it counts is still enough. -/
theorem Forest.lower {n : Nat} {l : List Request} (h : Forest 0 n l) {r q r' q' : Request}
    (hr : r∈l) (hq : q∈l) (hp : r.parent=some q.msgid) (hs : r.status=.completed)
    (hout : r.outrefcnt≤0) (howe : Owing l r) (hr' : Calm r r')
    (hq' : Tame q q') (hdec : q'.outrefcnt=q.outrefcnt-1) :
    let g := fun c : Request => if c.msgid=q.msgid then q' else if c.msgid=r.msgid then r' else c
    Forest 0 n (l.map g) ∧ (∀c∈l,Tame c (g c)) ∧ Owing (l.map g) q' := by
  intro g
  have hgq : ∀c : Request,c.msgid=q.msgid → g c=q' := fun c hc => if_pos hc
  have hgr : ∀c : Request,c.msgid≠q.msgid → c.msgid=r.msgid → g c=r' :=
    fun c hc hcr => (if_neg hc).trans (if_pos hcr)
  have hgc : ∀c : Request,c.msgid≠q.msgid → c.msgid≠r.msgid → g c=c :=
    fun c hc hcr => (if_neg hc).trans (if_neg hcr)
  have htame : ∀c∈l,Tame c (g c) := by
    intro c hc
    by_cases hcq : c.msgid=q.msgid
    · rw [hgq c hcq,h.eq_of_msgid hc hq hcq]
      exact hq'
    · by_cases hcr : c.msgid=r.msgid
      · rw [hgr c hcq hcr,h.eq_of_msgid hc hr hcr]
        exact hr'.tame
      · rw [hgc c hcq hcr]
        exact (Calm.refl c).tame
  refine ⟨h.map htame ?counted,htame,?owing⟩
  case counted =>
    intro p hpl
    rw [List.countP_map]
    by_cases hpq : p.msgid=q.msgid
    · have hle := h.countP_settled hr hs hout htame p.msgid
      have ho := howe q hq hp
      rw [hpq] at hle ⊢
      rw [hgq p hpq,hdec]
      omega
    · have hout' : (g p).outrefcnt=p.outrefcnt := by
        by_cases hpr : p.msgid=r.msgid
        · rw [hgr p hpq hpr,hr'.outrefcnt,h.eq_of_msgid hpl hr hpr]
        · rw [hgc p hpq hpr]
      have hle : l.countP (pending p.msgid∘g)≤ l.countP (pending p.msgid) :=
        List.countP_mono_left fun c hc hpc => (htame c hc).pending hpc
      have hcount := h.counted p hpl
      rw [hout']
      omega
  case owing =>
    have hpos : 0<q.outrefcnt := by
      have ho := howe q hq hp
      omega
    rw [← hgq q rfl]
    refine (h.owing hq (.inr hpos)).map hq htame ?_
    -- The parent of the parent is neither of the two that change.
    intro t ht hpt
    obtain ⟨-,-,-,-,hlt⟩ := h.child r hr _ hp
    obtain ⟨-,-,-,-,hlt'⟩ := h.child q hq _ hpt
    rw [hgc t (by omega) (by omega)]

theorem setRequest_two {m p : Nat} (hne : m≠p) {r' q' : Request} (hr : r'.msgid=m)
    (l : List Request) :
    setRequest p (fun _ => q') (setRequest m (fun _ => r') l)=
      l.map fun c => if c.msgid=p then q' else if c.msgid=m then r' else c := by
  rw [setRequest,setRequest,List.map_map]
  apply List.map_congr_left
  intro c _
  rw [Function.comp]
  by_cases hcm : c.msgid=m
  · have hcp : c.msgid≠p := fun he => hne (hcm.symm.trans he)
    have hrp : r'.msgid≠p := fun he => hne (hr.symm.trans he)
    rw [if_pos hcm,if_neg hrp,if_neg hcp]
  · rw [if_neg hcm]

/-- The parent of a request that is done, which was waiting for it, is itself counted. -/
theorem reportTo_spec (h : Forest 0 ld.msgid ld.requests) {r q : Request} (hr : r∈ld.requests)
    (hq : q∈ld.requests) (hp : r.parent=some q.msgid) (hlt : q.msgid< r.msgid)
    (hs : r.status=.completed) (hout : r.outrefcnt≤0) (howe : Owing ld.requests r) :
    Forest 0 ld.msgid (reportTo q r ld).requests ∧ Worked ld (reportTo q r ld) ∧
      ∃q'∈(reportTo q r ld).requests,Tame q q' ∧ q'.outrefcnt=q.outrefcnt-1 ∧
        Owing (reportTo q r ld).requests q' := by
  obtain ⟨hcq,hcr⟩ := calm_mergeErrorInfo q r
  have hlist : (reportTo q r ld).requests=_ :=
    setRequest_two (by omega : r.msgid≠q.msgid) hcr.msgid ld.requests
  have htq : Tame q { (mergeErrorInfo q r).1 with
      outrefcnt := (mergeErrorInfo q r).1.outrefcnt-1 } := by
    have ho := hcq.outrefcnt
    exact ⟨⟨hcq.msgid,hcq.origid,hcq.parent⟩,by dsimp only; omega,hcq.status⟩
  obtain ⟨hf,htame,howe'⟩ := h.lower hr hq hp hs hout howe hcr htq (by rw [hcq.outrefcnt])
  have hw : Worked ld { ld with requests := (reportTo q r ld).requests } := by
    apply Worked.of_subset
    rw [hlist]
    intro c' hc'
    obtain ⟨c,hc,rfl⟩ := List.mem_map.mp hc'
    have ht := htame c hc
    exact ⟨c,hc,ht.msgid.symm,ht.origid.symm,ht.parent.symm⟩
  refine ⟨hlist ▸ hf,hw,_,?_,htq,by rw [hcq.outrefcnt],hlist ▸ howe'⟩
  rw [hlist]
  exact List.mem_map.mpr ⟨q,hq,if_pos rfl⟩

variable (ld) in
/-- However far a request that is done reports, the requests stay in order. -/
theorem mergeUp_spec {n m m' : Nat} (h : Forest 0 ld.msgid ld.requests) {r : Request}
    (hr : r∈ld.requests) (hm : r.msgid=m)
    (hready : r.parent≠none → r.status=.completed ∧ r.outrefcnt≤0 ∧ Owing ld.requests r)
    (hu : mergeUp n m ld=(m',ld')) :
    Forest 0 ld'.msgid ld'.requests ∧ Worked ld ld' ∧
      ∃t∈ld'.requests,t.msgid=m' ∧ t.origid=r.origid := by
  induction n generalizing m ld r with
  | zero =>
    cases hu
    exact ⟨h,.refl _,r,hr,hm,rfl⟩
  | succ n ih =>
    subst hm
    have hfind : ld.request? r.msgid=some r := h.find hr
    rw [mergeUp,hfind] at hu
    dsimp only at hu
    cases hp : r.parent with
    | none =>
      rw [hp] at hu
      cases hu
      exact ⟨h,.refl _,r,hr,rfl,rfl⟩
    | some p =>
      obtain ⟨q,hq,rfl,horig,hlt⟩ := h.child r hr p hp
      have hfindq : ld.request? q.msgid=some q := h.find hq
      rw [hp,Option.bind_some,hfindq] at hu
      dsimp only at hu
      obtain ⟨hs,hout,howe⟩ := hready (by simp [hp])
      obtain ⟨hf,hw,q',hq',htq,hdec,howe'⟩ := reportTo_spec h hr hq hp hlt hs hout howe
      split at hu
      · cases hu
        exact ⟨hf,hw,q',hq',htq.msgid,htq.origid.trans horig⟩
      · have hready' : q'.parent≠none →
            q'.status=.completed ∧ q'.outrefcnt≤0 ∧ Owing (reportTo q r ld).requests q' := by
          intro hpq
          rw [htq.parent] at hpq
          have hpos : 0<q.outrefcnt := by
            have ho := howe q hq hp
            omega
          obtain ⟨p,hpp⟩ := Option.ne_none_iff_exists'.mp hpq
          obtain ⟨-,-,-,-,hlt'⟩ := h.child q hq p hpp
          exact ⟨htq.status (h.inner q hq hpq (by omega) hpos),by omega,howe'⟩
        obtain ⟨hf',hw',t,ht,h1,h2⟩ := ih _ hf hq' htq.msgid hready' hu
        exact ⟨hf',hw.trans hw',t,ht,h1,h2.trans (htq.origid.trans horig)⟩

end Results

end TiLdap.OpenLdap
