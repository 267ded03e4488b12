import TiLdap.OpenLdap.RequestTrees

namespace TiLdap.OpenLdap

open Framework Lber

/-- The same request, whatever it waits for and has been told. -/
structure Same (r r' : Request) : Prop where
  msgid : r'.msgid=r.msgid
  origid : r'.origid=r.origid
  parent : r'.parent=r.parent
  status : r'.status=r.status

theorem Same.refl (r : Request) : Same r r := ⟨rfl,rfl,rfl,rfl⟩

theorem Same.trans {r s t : Request} (h : Same r s) (h' : Same s t) : Same r t :=
  ⟨h'.msgid.trans h.msgid,h'.origid.trans h.origid,h'.parent.trans h.parent,
    h'.status.trans h.status⟩

/-- What following referrals can do to a session: it takes ids and adds children to the request
`p`, if any. -/
structure Spawned (p : Option Nat) (ld ld' : Ld) : Prop where
  frame : ld'={ ld with msgid := ld'.msgid, requests := ld'.requests, errno := ld'.errno }
  msgid : ld.msgid≤ ld'.msgid
  back : ∀r'∈ld'.requests,(∃r∈ld.requests,Same r r') ∨
    ld.msgid< r'.msgid ∧ ∃r∈ld.requests,r.origid=r'.origid
  forth : ∀r∈ld.requests,∃r'∈ld'.requests,Same r r' ∧
    (p≠some r.msgid → r'.outrefcnt=r.outrefcnt)

section Spawned

variable {p : Option Nat} {ld ld₁ ld₂ : Ld}

theorem Spawned.of_requests (h : ld₁={ ld with msgid := ld₁.msgid, errno := ld₁.errno })
    (hm : ld.msgid≤ ld₁.msgid) : Spawned p ld ld₁ := by
  have hr : ld₁.requests=ld.requests := by rw [h]
  constructor
  · rw [hr]
    exact h
  · exact hm
  · rw [hr]
    exact fun r hr => .inl ⟨r,hr,.refl r⟩
  · rw [hr]
    exact fun r hr => ⟨r,hr,.refl r,fun _ => rfl⟩

theorem Spawned.trans (h : Spawned p ld ld₁) (h' : Spawned p ld₁ ld₂) : Spawned p ld ld₂ := by
  constructor
  · rw [h'.frame,h.frame]
  · exact h.msgid.trans h'.msgid
  · intro r₂ hr₂
    rcases h'.back r₂ hr₂ with ⟨r₁,hr₁,hs⟩|⟨hlt,r₁,hr₁,ho⟩
    · rcases h.back r₁ hr₁ with ⟨r,hr,hs'⟩|⟨hlt,r,hr,ho⟩
      · exact .inl ⟨r,hr,hs'.trans hs⟩
      · exact .inr ⟨hs.msgid ▸ hlt,r,hr,ho.trans hs.origid.symm⟩
    · have hle := h.msgid
      rcases h.back r₁ hr₁ with ⟨r,hr,hs'⟩|⟨-,r,hr,ho'⟩
      · exact .inr ⟨by omega,r,hr,hs'.origid.symm.trans ho⟩
      · exact .inr ⟨by omega,r,hr,ho'.trans ho⟩
  · intro r hr
    obtain ⟨r₁,hr₁,hs,ho⟩ := h.forth r hr
    obtain ⟨r₂,hr₂,hs',ho'⟩ := h'.forth r₁ hr₁
    refine ⟨r₂,hr₂,hs.trans hs',?_⟩
    intro hp
    rw [ho' (hs.msgid ▸ hp),ho hp]

theorem Spawned.weaken (h : Spawned none ld ld₁) : Spawned p ld ld₁ := by
  refine ⟨h.frame,h.msgid,h.back,?_⟩
  intro r hr
  obtain ⟨r',hr',hs,ho⟩ := h.forth r hr
  exact ⟨r',hr',hs,fun _ => ho (by simp)⟩

theorem Spawned.set {m : Nat} {f : Request → Request} (hs : ∀r,Same r (f r))
    (ho : ∀r,(f r).outrefcnt=r.outrefcnt) : Spawned p ld (ld.setRequest m f) := by
  have hf : ∀r,Same r (if r.msgid=m then f r else r) ∧
      (if r.msgid=m then f r else r).outrefcnt=r.outrefcnt := by
    intro r
    split
    · exact ⟨hs r,ho r⟩
    · exact ⟨.refl r,rfl⟩
  constructor
  · rfl
  · exact Nat.le_refl _
  · intro r' hr'
    obtain ⟨r,hr,rfl⟩ := List.mem_map.mp hr'
    exact .inl ⟨r,hr,(hf r).1⟩
  · intro r hr
    exact ⟨_,List.mem_map_of_mem hr,(hf r).1,fun _ => (hf r).2⟩

end Spawned

section Sending

variable {x : Nat} {ld : Ld} {q : Request}

theorem Same.calm {r r' : Request} (h : Same r r') (ho : r'.outrefcnt=r.outrefcnt) : Calm r r' :=
  ⟨⟨h.msgid,h.origid,h.parent⟩,ho,fun hc => h.status.trans hc⟩

/-- The head of the list goes where nothing is below it. -/
theorem filter_lineage_head {c : Request} {l : List Request} (h : ∀r∈l,r.msgid≠c.msgid) :
    (c::l).filter (·.msgid∉ lineage c.msgid (c::l))=l := by
  rw [lineage,lineage_eq_nil h]
  simp only [true_or,↓reduceIte]
  rw [List.filter_cons_of_neg (by simp),List.filter_eq_self]
  intro r hr
  simpa using h r hr

variable (ld) in
theorem ldapFreeRequest_head {c : Request} {l : List Request} {p : Nat} (hp : c.parent=some p)
    (h : ∀r∈l,r.msgid≠c.msgid) (hl : ld.requests=c::l) :
    ldapFreeRequest c ld={ ld with
      requests := setRequest p (fun r => { r with outrefcnt := r.outrefcnt-1 }) l } := by
  rw [ldapFreeRequest,hp]
  simp only [Ld.setRequest,hl]
  rw [filter_lineage_head h]

/-- A request that could not be written leaves its number behind. -/
theorem setRequest_undo (m : Nat) (l : List Request) :
    setRequest m (fun r => { r with outrefcnt := r.outrefcnt-1 })
      (setRequest m (fun r =>
        { r with outrefcnt := r.outrefcnt+1, parentcnt := r.parentcnt+1 }) l)=
      setRequest m (fun r => { r with parentcnt := r.parentcnt+1 }) l := by
  simp only [setRequest,List.map_map]
  apply List.map_congr_left
  intro r hr
  by_cases he : r.msgid=m <;> simp [he]

theorem grown_child {c r : Request} (hc : c.parent=some q.msgid)
    (hx : q.parent=none ∨ q.status≠.completed ∧ q.msgid=x) (hr : r.msgid=q.msgid → r=q)
    (hi : r.parent≠none → r.msgid≠x → 0< r.outrefcnt → r.status=.completed) :
    Grown x c r (if r.msgid=q.msgid then
      { r with outrefcnt := r.outrefcnt+1, parentcnt := r.parentcnt+1 } else r) := by
  by_cases he : r.msgid=q.msgid
  · rw [if_pos he]
    have hrq := hr he
    subst hrq
    refine ⟨⟨rfl,rfl,rfl⟩,by simp [hc],?_,?_⟩
    · intro p hp
      have hpar : r.parent=some p := by simpa using parent_of_pending hp
      rcases hx with hn|⟨hs,-⟩
      · rw [hn] at hpar
        cases hpar
      · simp [pending,hpar,hs]
    · intro hp hne _
      rcases hx with hn|⟨-,hx⟩
      · exact absurd hn hp
      · exact absurd hx hne
  · rw [if_neg he]
    have hne : q.msgid≠r.msgid := fun hq => he hq.symm
    exact ⟨⟨rfl,rfl,rfl⟩,by simp [hc,hne],fun _ => id,hi⟩

/-- A request that is sent under the next id is added below its parent, or nothing is. -/
theorem ldapSendServerRequest_child (h : Forest x ld.msgid ld.requests) (hq : q∈ld.requests)
    (hx : q.parent=none ∨ q.status≠.completed ∧ q.msgid=x) (s : Sending) {rc : Int} {ld' : Ld}
    (hs : ldapSendServerRequest s (ld.msgid+1) (some q) (ldapNextMsgid ld)=(rc,ld')) :
    Forest x ld'.msgid ld'.requests ∧
      (rc<0 ∧ Spawned none ld ld' ∨ rc=(ld.msgid+1 : Nat) ∧ Spawned (some q.msgid) ld ld') := by
  rw [ldapSendServerRequest] at hs
  dsimp only [ldapNextMsgid,newRequest,Ld.setRequest] at hs
  have hself : ∀r∈ld.requests,r.msgid=q.msgid → r=q := fun r hr he => h.eq_of_msgid hr hq he
  split at hs
  · cases hs
    exact ⟨h.mono (by simp),.inl ⟨by decide,.of_requests rfl (by simp)⟩⟩
  · split at hs
    · cases hs
      refine ⟨?_,.inr ⟨rfl,?_⟩⟩
      · refine h.grow (c := newRequest (ld.msgid+1) (some q)) (by simp [newRequest]) rfl
          (by simp [newRequest]) ?_ ?_
        · intro p hp
          cases hp
          exact ⟨q,hq,rfl,rfl⟩
        · intro r hr
          exact grown_child rfl hx (hself r hr) (h.inner r hr)
      · refine ⟨rfl,by simp,?_,?_⟩
        · intro r' hr'
          rcases List.mem_cons.mp hr' with rfl|hr'
          · exact .inr ⟨by simp,q,hq,rfl⟩
          · obtain ⟨r,hr,rfl⟩ := List.mem_map.mp hr'
            refine .inl ⟨r,hr,?_⟩
            split
            · exact ⟨rfl,rfl,rfl,rfl⟩
            · exact .refl r
        · intro r hr
          refine ⟨_,List.mem_cons_of_mem _ (List.mem_map_of_mem hr),?_,?_⟩
          · split
            · exact ⟨rfl,rfl,rfl,rfl⟩
            · exact .refl r
          · intro hne
            rw [if_neg fun he => hne (congrArg some he.symm)]
    · have hnew : ∀r∈setRequest q.msgid (fun r =>
          { r with outrefcnt := r.outrefcnt+1, parentcnt := r.parentcnt+1 }) ld.requests,
          r.msgid≠(newRequest (ld.msgid+1) (some q)).msgid := by
        intro r' hr'
        obtain ⟨r,hr,rfl⟩ := List.mem_map.mp hr'
        have hb := h.bound r hr
        have hm : (newRequest (ld.msgid+1) (some q)).msgid=ld.msgid+1 := rfl
        rw [hm]
        split
        · dsimp only
          omega
        · omega
      have hf := ldapFreeRequest_head { ld with
          msgid := ld.msgid+1
          errno := ldapServerDown
          requests := newRequest (ld.msgid+1) (some q)::setRequest q.msgid (fun r =>
            { r with outrefcnt := r.outrefcnt+1, parentcnt := r.parentcnt+1 }) ld.requests }
        rfl hnew rfl
      dsimp only [newRequest] at hf
      rw [hf,setRequest_undo] at hs
      cases hs
      have hcalm : ∀r : Request,Same r { r with parentcnt := r.parentcnt+1 } :=
        fun r => ⟨rfl,rfl,rfl,rfl⟩
      refine ⟨(h.set fun r _ _ => (hcalm r).calm rfl).mono (by simp),.inl ⟨by decide,?_⟩⟩
      have h1 : Spawned none ld { ld with msgid := ld.msgid+1, errno := ldapServerDown } :=
        .of_requests rfl (by simp)
      exact h1.trans (.set (m := q.msgid) hcalm fun _ => rfl)

end Sending

section Chasing

variable {ld ld' : Ld}

theorem Ld.request?_some {m : Nat} {r : Request} (h : ld.request? m=some r) :
    r∈ld.requests ∧ r.msgid=m :=
  ⟨List.mem_of_find?_eq_some h,by simpa using List.find?_some h⟩

theorem Forest.stay {x n : Nat} {e : Int} {p : Option Nat} (h : Forest x ld.msgid ld.requests)
    (hn : ld.msgid≤n) : Forest x n ld.requests ∧
      Spawned p ld { ld with msgid := n, errno := e } := ⟨h.mono hn,.of_requests rfl hn⟩

/-- The original request stays where it is when a referral is followed on its behalf. -/
theorem ldapSendServerRequest_original {q : Request} (h : Forest 0 ld.msgid ld.requests)
    (hq : q∈ld.requests) (hp : q.parent=none) (s : Sending) {rc : Int}
    (hs : ldapSendServerRequest s (ld.msgid+1) (some q) (ldapNextMsgid ld)=(rc,ld')) :
    Forest 0 ld'.msgid ld'.requests ∧ Spawned (some q.msgid) ld ld' ∧
      ∃q'∈ld'.requests,q'.msgid=q.msgid ∧ q'.parent=none := by
  obtain ⟨hf,hs⟩ := ldapSendServerRequest_child h hq (.inl hp) s hs
  have hs : Spawned (some q.msgid) ld ld' := by
    rcases hs with ⟨-,hs⟩|⟨-,hs⟩
    · exact hs.weaken
    · exact hs
  obtain ⟨q',hq',hsame,-⟩ := hs.forth q hq
  exact ⟨hf,hs,q',hq',hsame.msgid,hsame.parent.trans hp⟩

variable (ld) in
/-- Wherever the loop ends, children were only added to the original request. -/
theorem chaseV3Loop_spawned {origid : Nat} {hops : List Hop} {refs : List (List UInt8)}
    {c c' : Chasing} (h : Forest 0 ld.msgid ld.requests)
    (hroot : ∃q∈ld.requests,q.msgid=origid ∧ q.parent=none)
    (hc : chaseV3Loop origid hops refs c ld=some (c',ld')) :
    Forest 0 ld'.msgid ld'.requests ∧ Spawned (some origid) ld ld' := by
  induction hops generalizing refs c ld with
  | nil =>
    cases refs with
    | nil =>
      cases hc
      exact h.stay (Nat.le_refl _)
    | cons ref refs =>
      cases hc
      exact h.stay (Nat.le_refl _)
  | cons hop hops ih =>
    cases refs with
    | nil =>
      cases hc
      exact h.stay (Nat.le_refl _)
    | cons ref refs =>
      cases hop with
      | badUrl =>
        cases hc
        exact h.stay (Nat.le_refl _)
      | critical =>
        cases hc
        exact h.stay (Nat.le_refl _)
      | looped =>
        rw [chaseV3Loop] at hc
        obtain ⟨hf,hs⟩ := ih { ld with errno := ldapClientLoop } h hroot hc
        exact ⟨hf,(h.stay (Nat.le_refl _)).2.trans hs⟩
      | unencoded =>
        rw [chaseV3Loop] at hc
        split at hc
        · cases hc
        · cases hc
          exact h.stay (Nat.le_succ _)
      | request s =>
        rw [chaseV3Loop] at hc
        split at hc
        · cases hc
        · rename_i q hq
          obtain ⟨hq,hid⟩ := Ld.request?_some hq
          obtain ⟨t,ht,h1,h2⟩ := hroot
          have hqt := h.eq_of_msgid hq ht (hid.trans h1.symm)
          subst hqt
          split at hc
          · cases hc
          · dsimp only at hc
            cases hsend : ldapSendServerRequest s (ld.msgid+1) (some q) (ldapNextMsgid ld) with
            | mk rc ld₁ =>
              rw [hsend] at hc
              obtain ⟨hf₁,hs₁,hroot₁⟩ := ldapSendServerRequest_original h hq h2 s hsend
              rw [hid] at hs₁ hroot₁
              split at hc
              · obtain ⟨hf,hs⟩ := ih { ld₁ with errno := ldapReferral } hf₁ hroot₁ hc
                exact ⟨hf,hs₁.trans ((hf₁.stay (Nat.le_refl _)).2.trans hs)⟩
              · cases hc
                exact ⟨hf₁,hs₁⟩

theorem same_resError (e : Option (List UInt8)) (r : Request) :
    Same r { r with resError := e } := ⟨rfl,rfl,rfl,rfl⟩

theorem Forest.setError {x m : Nat} (h : Forest x ld.msgid ld.requests)
    (e : Option (List UInt8)) :
    Forest x ld.msgid (ld.setRequest m fun r => { r with resError := e }).requests :=
  h.set fun r _ _ => (same_resError e r).calm rfl

/-- `ldap_chase_v3referrals` adds children to the original request only. -/
theorem ldapChaseV3referrals_spawned {lr : Request} {refs : List (List UInt8)} {hops : List Hop}
    {n : Int} {hadref : Bool} (h : Forest 0 ld.msgid ld.requests)
    (hlr : ∃r∈ld.requests,r.origid=lr.origid)
    (hc : ldapChaseV3referrals lr refs hops ld=some ((n,hadref),ld')) :
    Forest 0 ld'.msgid ld'.requests ∧ Spawned (some lr.origid) ld ld' := by
  obtain ⟨r,hr,ho⟩ := hlr
  have hroot := h.orig r hr
  rw [ho] at hroot
  rw [ldapChaseV3referrals] at hc
  dsimp only at hc
  obtain ⟨⟨c,ld₁⟩,hd,he⟩ := Option.map_eq_some_iff.mp hc
  have hdone : Forest 0 ld₁.msgid ld₁.requests ∧ Spawned (some lr.origid) ld ld₁ := by
    split at hd
    · cases hd
      exact h.stay (Nat.le_refl _)
    · split at hd
      · cases hd
        exact h.stay (Nat.le_refl _)
      · have h0 := h.stay (e := 0) (p := some lr.origid) (Nat.le_refl _)
        obtain ⟨hf,hs⟩ := chaseV3Loop_spawned { ld with errno := 0 } h hroot hd
        exact ⟨hf,h0.2.trans hs⟩
  cases he
  exact ⟨hdone.1.setError _,hdone.2.trans (.set (same_resError _) fun _ => rfl)⟩

/-- Nothing is added, and the answer is not positive. -/
theorem Forest.unspawned {x k : Nat} {i e : Int} (h : Forest x ld.msgid ld.requests)
    (hk : ld.msgid≤k) (hi : i≤0) : Forest x k ld.requests ∧
      (i≤0 ∧ Spawned none ld { ld with msgid := k, errno := e } ∨
        0< i ∧ Spawned (some x) ld { ld with msgid := k, errno := e }) :=
  ⟨h.mono hk,.inl ⟨hi,.of_requests rfl hk⟩⟩

variable (ld) in
/-- The loop adds one child at most, and says so. -/
theorem chaseLoop_spawned {lr q : Request} {before : List UInt8} {hops : List Hop}
    {refs : List (List UInt8)} {c : Chasing} {n : Int} {hadref : Bool}
    {err : Option (List UInt8)} (h : Forest lr.msgid ld.msgid ld.requests) (hq : q∈ld.requests)
    (hid : q.msgid=lr.msgid) (hx : q.parent=none ∨ q.status≠.completed) (hrc : c.rc=0)
    (hcount : c.count=0)
    (hc : chaseLoop lr before hops refs c ld=some ((n,hadref,err),ld')) :
    Forest lr.msgid ld'.msgid ld'.requests ∧
      (n≤0 ∧ Spawned none ld ld' ∨ 0<n ∧ Spawned (some lr.msgid) ld ld') := by
  induction hops generalizing refs c ld q with
  | nil =>
    cases refs with
    | nil =>
      cases hc
      exact h.unspawned (Nat.le_refl _) (by simp [hrc,hcount])
    | cons ref refs =>
      cases hc
      exact h.unspawned (Nat.le_refl _) (by decide)
  | cons hop hops ih =>
    cases refs with
    | nil =>
      cases hc
      exact h.unspawned (Nat.le_refl _) (by simp [hrc,hcount])
    | cons ref refs =>
      cases hop with
      | badUrl => exact ih ld h hq hid hx (by exact hrc) (by exact hcount) hc
      | critical => exact ih ld h hq hid hx (by exact hrc) (by exact hcount) hc
      | looped =>
        cases hc
        exact h.unspawned (Nat.le_refl _) (by decide)
      | unencoded =>
        rw [chaseLoop] at hc
        split at hc
        · cases hc
        · cases hc
          exact h.unspawned (Nat.le_succ _) (by decide)
      | request s =>
        rw [chaseLoop] at hc
        split at hc
        · cases hc
        · rename_i q' hq'
          obtain ⟨hq',hid'⟩ := Ld.request?_some hq'
          have hqq := h.eq_of_msgid hq' hq (hid'.trans hid.symm)
          subst hqq
          split at hc
          · cases hc
          · dsimp only at hc
            cases hsend : ldapSendServerRequest s (ld.msgid+1) (some q') (ldapNextMsgid ld) with
            | mk rc ld₁ =>
              rw [hsend] at hc
              obtain ⟨hf,hs⟩ := ldapSendServerRequest_child h hq (hx.imp_right (⟨·,hid⟩)) s hsend
              split at hc
              · rename_i hneg
                rcases hs with ⟨-,hs⟩|⟨hpos,-⟩
                · obtain ⟨r,hr,hsame,-⟩ := hs.forth q' hq
                  have hx₁ : r.parent=none ∨ r.status≠.completed := by
                    rw [hsame.parent,hsame.status]
                    exact hx
                  obtain ⟨hf',hs'⟩ := ih _ hf hr (hsame.msgid.trans hid) hx₁ (by exact hrc)
                    (by exact hcount) hc
                  exact ⟨hf',hs'.imp (And.imp_right hs.trans) (And.imp_right hs.weaken.trans)⟩
                · omega
              · cases hc
                rcases hs with ⟨hneg,-⟩|⟨hpos,hs⟩
                · contradiction
                · exact ⟨hf,.inr ⟨by omega,hid ▸ hs⟩⟩

/-- `ldap_chase_referrals` adds a child to the request itself. -/
theorem ldapChaseReferrals_spawned {lr q : Request} {hops : List Hop} {n : Int} {hadref : Bool}
    (h : Forest lr.msgid ld.msgid ld.requests) (hq : q∈ld.requests) (hid : q.msgid=lr.msgid)
    (hx : q.parent=none ∨ q.status≠.completed)
    (hc : ldapChaseReferrals lr hops ld=some ((n,hadref),ld')) :
    Forest lr.msgid ld'.msgid ld'.requests ∧
      (n≤0 ∧ Spawned none ld ld' ∨ 0<n ∧ Spawned (some lr.msgid) ld ld') := by
  rw [ldapChaseReferrals] at hc
  dsimp only at hc
  have h0 : Spawned none ld { ld with errno := 0 } := .of_requests rfl (Nat.le_refl _)
  split at hc
  · cases hc
    exact ⟨h,.inl ⟨Int.le_refl _,h0⟩⟩
  · split at hc
    · cases hc
      exact ⟨h.setError _,.inl ⟨Int.le_refl _,h0.trans (.set (same_resError _) fun _ => rfl)⟩⟩
    · obtain ⟨⟨⟨rc,hr,err⟩,ld₁⟩,hl,he⟩ := Option.map_eq_some_iff.mp hc
      cases he
      obtain ⟨hf,hs⟩ := chaseLoop_spawned { ld with errno := 0 } h hq hid hx rfl rfl hl
      refine ⟨hf.setError _,?_⟩
      rcases hs with ⟨hn,hs⟩|⟨hn,hs⟩
      · exact .inl ⟨hn,h0.trans (hs.trans (.set (same_resError _) fun _ => rfl))⟩
      · exact .inr ⟨hn,h0.weaken.trans (hs.trans (.set (same_resError _) fun _ => rfl))⟩

end Chasing

end TiLdap.OpenLdap
