import TiLdap.OpenLdap.Waits

namespace TiLdap.OpenLdap

open Framework Lber

section Requesting

variable {A : Nat → Prop} {ld : Ld}

/-- A request takes an id, and either it is there as a root of its own or nothing is. -/
theorem sendRequest_cases (h : Orderly ld) (encoded : Bool) (s : Sending) :
    ∃e,sendRequest encoded s ld={ ld with msgid := ld.msgid+1, errno := e } ∨
      sendRequest encoded s ld={ ld with
        msgid := ld.msgid+1
        requests := newRequest (ld.msgid+1) none::ld.requests
        errno := e } := by
  rw [sendRequest]
  split
  · rw [ldapSendServerRequest]
    dsimp only [ldapNextMsgid]
    split
    · exact ⟨_,.inl rfl⟩
    · split
      · exact ⟨_,.inr rfl⟩
      · have hnew : ∀r∈ld.requests,r.msgid≠(newRequest (ld.msgid+1) none).msgid := by
          intro r hr he
          have hb := h.forest.bound r hr
          have he : r.msgid=ld.msgid+1 := he
          omega
        refine ⟨ldapServerDown,.inl ?_⟩
        have hp : (newRequest (ld.msgid+1) none).parent=none := rfl
        rw [ldapFreeRequest,hp]
        dsimp only
        rw [filter_lineage_head hnew]
  · exact ⟨_,.inl rfl⟩

theorem Gone.request {m : Nat} (hg : Gone m ld) (h : Orderly ld) (encoded : Bool) (s : Sending) :
    Gone m (sendRequest encoded s ld) := by
  obtain ⟨h1,h2,h3⟩ := hg
  obtain ⟨e,he|he⟩ := sendRequest_cases h encoded s
  · rw [he]
    exact ⟨h1.trans (Nat.le_succ _),h2,h3⟩
  · rw [he]
    refine ⟨h1.trans (Nat.le_succ _),?_,h3⟩
    intro r hr
    rcases List.mem_cons.mp hr with rfl|hr
    · show ld.msgid+1≠m
      omega
    · exact h2 r hr

theorem Orderly.request (h : Orderly ld) (encoded : Bool) (s : Sending) :
    Orderly (sendRequest encoded s ld) := by
  obtain ⟨e,he|he⟩ := sendRequest_cases h encoded s
  · rw [he]
    exact { h with
      forest := h.forest.mono (Nat.le_succ _)
      known := fun m hm hne => ⟨(h.known m hm hne).1.trans (Nat.le_succ _),(h.known m hm hne).2⟩ }
  · have hf : Forest 0 (ld.msgid+1) (newRequest (ld.msgid+1) none::ld.requests) := by
      have hg := h.forest.grow (c := newRequest (ld.msgid+1) none) (g := id) (Nat.lt_succ_self _)
        rfl (fun _ => rfl) (by rintro p ⟨⟩)
        fun r hr => ⟨⟨rfl,rfl,rfl⟩,by simp [newRequest],fun _ => id,
          fun hp hx => h.forest.inner r hr hp hx⟩
      rw [List.map_id] at hg
      exact hg
    rw [he]
    refine ⟨hf,?_,h.ascending,h.bundled,h.within,?_,?_,h.last⟩
    · intro r hr
      rcases List.mem_cons.mp hr with rfl|hr
      · exact Nat.succ_pos _
      · exact h.positive r hr
    · intro m hm hne
      obtain ⟨h1,h2⟩ := h.known m hm hne
      refine ⟨h1.trans (Nat.le_succ _),?_⟩
      intro r hr hid
      rcases List.mem_cons.mp hr with rfl|hr
      · rfl
      · exact h2 r hr hid
    · intro m hm x hx ho r hr
      rcases List.mem_cons.mp hr with rfl|hr
      · obtain ⟨h1,-⟩ := h.known m hm (List.ne_nil_of_mem hx)
        show ld.msgid+1≠m
        omega
      · exact h.final m hm x hx ho r hr

theorem sendRequest_frame (h : Orderly ld) (encoded : Bool) (s : Sending) :
    (sendRequest encoded s ld).accepted=ld.accepted ∧
      (sendRequest encoded s ld).returned=ld.returned ∧
      (sendRequest encoded s ld).responses=ld.responses ∧
      (sendRequest encoded s ld).abandoned=ld.abandoned ∧
      (sendRequest encoded s ld).stuck=ld.stuck := by
  obtain ⟨e,he|he⟩ := sendRequest_cases h encoded s
  · rw [he]
    exact ⟨rfl,rfl,rfl,rfl,rfl⟩
  · rw [he]
    exact ⟨rfl,rfl,rfl,rfl,rfl⟩

theorem Accounted.request (ha : Accounted A [] ld) (h : Orderly ld) (encoded : Bool)
    (s : Sending) : Accounted A [] (sendRequest encoded s ld) := by
  obtain ⟨h1,h2,h3,h4,-⟩ := sendRequest_frame h encoded s
  constructor
  · intro m hm hin
    rw [h4] at hin
    exact (ha.struck m hm hin).imp_right fun hg => hg.request h encoded s
  · rw [h1,h2,h3]
    exact ha.perm
  · rw [h1,h2,h3]
    exact ha.order

end Requesting

section Striking

variable {A : Nat → Prop} {e : AbandonSent} {i m origid : Nat} {ld ld' : Ld}

/-- What abandoning one request can do. -/
structure Struck (i : Nat) (ld ld' : Ld) : Prop where
  forest : Forest 0 ld'.msgid ld'.requests
  msgid : ld.msgid≤ ld'.msgid
  back : ∀r'∈ld'.requests,
    ∃r∈ld.requests,r.msgid=r'.msgid ∧ r.origid=r'.origid ∧ r.parent=r'.parent
  accepted : ld'.accepted=ld.accepted
  returned : ld'.returned=ld.returned
  stuck : ld'.stuck=ld.stuck
  bundled : Bundled LdapMessage.msgid ld'.responses
  others : ∀j,j≠i → queued j ld'.responses=queued j ld.responses
  subset : ∀x∈queued i ld'.responses,x∈queued i ld.responses
  ascending : Ascending ld'.abandoned
  struck : ∀j∈ld'.abandoned,j∈ld.abandoned ∨ j=i

theorem Struck.queued_subset (hs : Struck i ld ld') (j : Nat) :
    ∀x∈queued j ld'.responses,x∈queued j ld.responses := by
  intro x hx
  by_cases hj : j=i
  · subst hj
    exact hs.subset x hx
  · rw [← hs.others j hj]
    exact hx

theorem Struck.closed (hs : Struck i ld ld') (h : Closed m ld.requests) :
    Closed m ld'.requests := by
  intro r' hr'
  obtain ⟨r,hr,-,ho,-⟩ := hs.back r' hr'
  rw [← ho]
  exact h r hr

theorem Struck.rooted (hs : Struck i ld ld') (h : ∀r∈ld.requests,r.msgid=m → r.parent=none) :
    ∀r∈ld'.requests,r.msgid=m → r.parent=none := by
  intro r' hr' he
  obtain ⟨r,hr,h1,-,h3⟩ := hs.back r' hr'
  rw [← h3]
  exact h r hr (h1.trans he)

theorem Gone.strike (hg : Gone m ld) (hs : Struck i ld ld') : Gone m ld' :=
  ⟨hg.1.trans hs.msgid,hs.closed hg.2.1,queued_eq_nil (hs.queued_subset m) hg.2.2⟩

theorem Orderly.strike (h : Orderly ld) (hs : Struck i ld ld') : Orderly ld' := by
  refine ⟨hs.forest,?_,hs.ascending,hs.bundled,?_,?_,?_,?_⟩
  · intro r' hr'
    obtain ⟨r,hr,h1,-⟩ := hs.back r' hr'
    rw [← h1]
    exact h.positive r hr
  · intro k x hx
    rw [hs.accepted]
    exact h.within k x (hs.queued_subset k x hx)
  · intro k hk hne
    rw [hs.accepted] at hne
    obtain ⟨h1,h2⟩ := h.known k hk hne
    exact ⟨h1.trans hs.msgid,hs.rooted h2⟩
  · intro k hk x hx ho
    rw [hs.accepted] at hx
    exact hs.closed (h.final k hk x hx ho)
  · rw [hs.accepted]
    exact h.last

/-- Under the id of a child, nothing is made into a message. -/
theorem Orderly.gone_child (h : Orderly ld) {r : Request} (hr : r∈ld.requests)
    (hp : r.parent≠none) : Gone r.msgid ld := by
  refine ⟨h.forest.bound r hr,?_,?_⟩
  · intro c hc ho
    obtain ⟨q,hq,h1,h2⟩ := h.forest.orig c hc
    rw [h.forest.eq_of_msgid hq hr (h1.trans ho)] at h2
    exact hp h2
  · rw [List.eq_nil_iff_forall_not_mem]
    intro x hx
    exact hp ((h.known _ (h.positive r hr) (List.ne_nil_of_mem (h.within _ x hx))).2 r hr rfl)

/-- Only what waits for the operation that is abandoned is lost. -/
theorem Accounted.strike (ha : Accounted A [] ld) (hi : A i ∨ Gone i ld)
    (hs : Struck i ld ld') : Accounted A [] ld' := by
  have hq : ∀k,¬A k → queued k ld'.responses=queued k ld.responses := by
    intro k hA
    by_cases hk : k=i
    · subst hk
      have hg := hi.resolve_left hA
      rw [hg.2.2,(hg.strike hs).2.2]
    · exact hs.others k hk
  constructor
  · intro k hk hin
    rcases hs.struck k hin with hin|rfl
    · exact (ha.struck k hk hin).imp_right fun hg => hg.strike hs
    · exact hi.imp_right fun hg => hg.strike hs
  · intro k hk hA
    rw [hs.accepted,hs.returned,hq k hA]
    exact ha.perm k hk hA
  · intro k hk hA
    rw [hs.accepted,hs.returned,hq k hA]
    exact ha.order k hk hA

theorem strikeId_spec {ab : List Nat} (h : Ascending ab) (i : Nat) :
    Ascending (strikeId i ab) ∧ ∀j,j∈strikeId i ab ↔ j∈ab ∨ j=i := by
  rw [strikeId,bisectFind_eq h]
  by_cases hi : i∈ab
  · simp only [hi,decide_true]
    refine ⟨h,fun j => ⟨.inl,?_⟩⟩
    rintro (hj|rfl)
    · exact hj
    · exact hi
  · simp only [hi,decide_false]
    refine ⟨h.insert hi,fun j => ?_⟩
    rw [mem_bisectInsert (rank_le ab i),or_comm]

theorem ldapMsgdelete_spec {cs cs' : List (Strand LdapMessage)} {b : Bool}
    (h : Bundled LdapMessage.msgid cs) (hd : ldapMsgdelete m cs=(b,cs')) :
    Bundled LdapMessage.msgid cs' ∧ queued m cs'=[] ∧
      (∀j,j≠m → queued j cs'=queued j cs) ∧
      (b=true → ∃x∈queued m cs,openType x.msgtype=false) := by
  rw [ldapMsgdelete] at hd
  split at hd
  · rename_i ht
    cases hd
    exact ⟨h,held_eq_nil h.uniform (takeKey_none ht),fun _ _ => rfl,by simp⟩
  · rename_i c cs₁ ht
    cases hd
    obtain ⟨hk,hc,-,hb,h0,hj⟩ := takeKey_some h ht
    refine ⟨hb,h0,hj,?_⟩
    intro ho
    have hlast := List.mem_of_getLast? c.getLast?_items
    exact ⟨c.last,mem_queued.mpr ⟨⟨c,hc,hlast⟩,(h.uniform c hc _ hlast).trans hk⟩,by simpa using ho⟩

theorem sendAbandon_frame (e : AbandonSent) (ld : Ld) : ∃n e',ld.msgid≤n ∧
    (sendAbandon e ld).2={ ld with msgid := n, errno := e' } := by
  cases e with
  | unconnected => exact ⟨_,_,Nat.le_refl _,rfl⟩
  | unencoded => exact ⟨_,_,Nat.le_succ _,rfl⟩
  | unflushed => exact ⟨_,_,Nat.le_succ _,rfl⟩
  | sent => exact ⟨_,_,Nat.le_succ _,rfl⟩

variable (ld) in
/-- Whatever is below the root of an operation goes with it. -/
theorem strikeRequest_spec (h : Forest 0 ld.msgid ld.requests)
    (hno : ¬(origid=i ∧ (ld.request? i).any (·.parent≠none))) :
    ∃l,strikeRequest origid i (ld.request? i) ld={ ld with requests := l } ∧
      Forest 0 ld.msgid l ∧
      (∀r'∈l,∃r∈ld.requests,r.msgid=r'.msgid ∧ r.origid=r'.origid ∧ r.parent=r'.parent) ∧
      (origid≠i → ∀r∈ld.requests,∃r'∈l,r.msgid=r'.msgid ∧ r.parent=r'.parent) ∧
      (origid=i → Closed i l) := by
  cases hr : ld.request? i with
  | none =>
    refine ⟨ld.requests,rfl,h,fun r hr => ⟨r,hr,rfl,rfl,rfl⟩,fun _ r hr => ⟨r,hr,rfl,rfl⟩,?_⟩
    intro _ r hr' ho
    obtain ⟨q,hq,h1,-⟩ := h.orig r hr'
    have hn := List.find?_eq_none.mp hr q hq
    simp [h1,ho] at hn
  | some lr =>
    obtain ⟨hlr,hid⟩ := Ld.request?_some hr
    rw [strikeRequest]
    by_cases ho : origid=i
    · have hp : lr.parent=none := by
        by_contra hp
        exact hno ⟨ho,by simp [hr,hp]⟩
      rw [if_pos ho,ldapFreeRequest_root h hlr hp]
      refine ⟨_,rfl,h.prune lr.msgid,?_,fun hn => absurd ho hn,?_⟩
      · intro r hr
        exact ⟨r,(List.mem_filter.mp hr).1,rfl,rfl,rfl⟩
      · intro _ r hr
        have hne := (List.mem_filter.mp hr).2
        rw [hid] at hne
        simpa using hne
    · rw [if_neg ho]
      have hsame : ∀r : Request,Same r { r with abandoned := true } := fun r => ⟨rfl,rfl,rfl,rfl⟩
      refine ⟨_,rfl,h.set fun r _ _ => (hsame r).calm rfl,?_,?_,fun he => absurd he ho⟩
      · intro r' hr'
        obtain ⟨r,hr,rfl⟩ := List.mem_map.mp hr'
        refine ⟨r,hr,?_⟩
        split
        · exact ⟨rfl,rfl,rfl⟩
        · exact ⟨rfl,rfl,rfl⟩
      · intro _ r hr
        refine ⟨_,List.mem_map_of_mem hr,?_⟩
        split
        · exact ⟨rfl,rfl⟩
        · exact ⟨rfl,rfl⟩

/-- What is left of the request that is abandoned, and of the others. -/
structure Left (origid i : Nat) (ld ld' : Ld) : Prop where
  struck : Struck i ld ld'
  forth : origid≠i → ∀r∈ld.requests,∃r'∈ld'.requests,r.msgid=r'.msgid ∧ r.parent=r'.parent
  gone : origid=i → i≤ ld.msgid → 0< i → (∀r∈ld.requests,r.msgid=i → r.parent=none) → Gone i ld'

theorem abandonMessage_left (h : Orderly ld) (e : AbandonSent) (origid i : Nat) :
    Left origid i ld (abandonMessage e origid i ld).2 := by
  rw [abandonMessage]
  dsimp only
  split
  · rename_i hno
    refine ⟨⟨h.forest,Nat.le_refl _,fun r hr => ⟨r,hr,rfl,rfl,rfl⟩,rfl,rfl,rfl,h.bundled,
      fun _ _ => rfl,fun _ => id,h.ascending,fun _ => .inl⟩,fun _ r hr => ⟨r,hr,rfl,rfl⟩,?_⟩
    intro _ _ _ hroot
    have hany := hno.2
    cases hr : ld.request? i with
    | none => simp [hr] at hany
    | some lr =>
      obtain ⟨hlr,hid⟩ := Ld.request?_some hr
      simp [hr,hroot lr hlr hid] at hany
  · rename_i hno
    cases hd : ldapMsgdelete i ld.responses with
    | mk b cs =>
      obtain ⟨hb,h0,hj,hfin⟩ := ldapMsgdelete_spec h.bundled hd
      have hsub : ∀x∈queued i cs,x∈queued i ld.responses := by
        intro x hx
        rw [h0] at hx
        cases hx
      cases b with
      | true =>
        refine ⟨⟨h.forest,Nat.le_refl _,fun r hr => ⟨r,hr,rfl,rfl,rfl⟩,rfl,rfl,rfl,hb,hj,hsub,
          h.ascending,fun _ => .inl⟩,fun _ r hr => ⟨r,hr,rfl,rfl⟩,?_⟩
        intro _ hle hi _
        obtain ⟨x,hx,ho⟩ := hfin rfl
        exact ⟨hle,h.final i hi x (h.within i x hx) ho,h0⟩
      | false =>
        have hsend : ∃n e',ld.msgid≤n ∧ (if (ld.request? i).all (·.status=.inprogress) then
            sendAbandon e { ld with responses := cs } else (true,{ ld with responses := cs })).2=
              { ld with responses := cs, msgid := n, errno := e' } := by
          split
          · exact sendAbandon_frame e { ld with responses := cs }
          · exact ⟨_,_,Nat.le_refl _,rfl⟩
        obtain ⟨n,e',hn,hsend⟩ := hsend
        dsimp only
        rw [hsend]
        obtain ⟨l,hl,hf,hback,hforth,hcl⟩ := strikeRequest_spec
          { ld with responses := cs, msgid := n, errno := e' } (h.forest.mono hn) hno
        have hl : strikeRequest origid i (ld.request? i)
            { ld with responses := cs, msgid := n, errno := e' }=
              { ld with responses := cs, msgid := n, errno := e', requests := l } := hl
        rw [hl]
        obtain ⟨ha,hmem⟩ := strikeId_spec h.ascending i
        refine ⟨⟨hf,hn,hback,rfl,rfl,rfl,hb,hj,hsub,ha,fun j hj => (hmem j).mp hj⟩,hforth,?_⟩
        intro he hle _ _
        exact ⟨hle.trans hn,hcl he,h0⟩

/-- A property that abandoning one request keeps is kept by `do_abandon`. Under the ids of the
children nothing waits, so that each of them is marked. -/
theorem strikeChildren {Q : Ld → Prop} (es : List AbandonSent) (cs : List (Request × Nat))
    (hQ : ∀{i ld ld'},Orderly ld → Q ld → Gone i ld → Struck i ld ld' → Q ld')
    (h : Orderly ld) (hq : Q ld) (hcs : ∀c∈cs,c.1.origid≠c.1.msgid ∧
      ∃r∈ld.requests,r.msgid=c.1.msgid ∧ r.parent≠none) :
    let ld' := cs.foldl (fun ld c =>
      (abandonMessage (es.getD c.2 .sent) c.1.origid c.1.msgid ld).2) ld
    Orderly ld' ∧ Q ld' := by
  induction cs generalizing ld with
  | nil => exact ⟨h,hq⟩
  | cons c cs ih =>
    obtain ⟨hne,r,hr,hid,hp⟩ := hcs c List.mem_cons_self
    have hg := h.gone_child hr hp
    rw [hid] at hg
    have hl := abandonMessage_left h (es.getD c.2 .sent) c.1.origid c.1.msgid
    refine ih (h.strike hl.struck) (hQ h hq hg hl.struck) ?_
    intro d hd
    obtain ⟨hne',q,hq',hid',hp'⟩ := hcs d (List.mem_cons_of_mem c hd)
    obtain ⟨q',hq'',h1,h2⟩ := hl.forth hne q hq'
    exact ⟨hne',q',hq'',h1.symm.trans hid',h2 ▸ hp'⟩

/-- The children of a request are no roots. -/
theorem abandonedChildren_spec (h : Orderly ld) {c : Request × Nat}
    (hc : c∈(abandonedChildren m ld.requests).zipIdx) : c.1.origid≠c.1.msgid ∧
      ∃r∈ld.requests,r.msgid=c.1.msgid ∧ r.parent≠none := by
  obtain ⟨hmem,hb⟩ := List.mem_filter.mp (List.fst_mem_of_mem_zipIdx hc)
  have hin : c.1∈ld.requests := (List.takeWhile_sublist _).subset hmem
  have hne : c.1.msgid≠m := by simpa using List.mem_takeWhile_imp hmem
  have ho : c.1.origid=m := by
    simp only [decide_eq_true_eq] at hb
    exact hb.1
  refine ⟨fun he => hne (he.symm.trans ho),c.1,hin,rfl,?_⟩
  intro hp
  exact hne ((h.forest.root c.1 hin hp).symm.trans ho)

theorem doAbandon_struck {Q : Ld → Prop} {es : List AbandonSent}
    (hQ : ∀{i ld ld'},Orderly ld → Q ld → Gone i ld → Struck i ld ld' → Q ld')
    (h : Orderly ld) (hq : Q ld) : ∃ld₁,Orderly ld₁ ∧ Q ld₁ ∧
      Left m m ld₁ (doAbandon es m ld).2 := by
  obtain ⟨ho,hq⟩ := strikeChildren es (abandonedChildren m ld.requests).zipIdx hQ h hq
    fun c hc => abandonedChildren_spec h hc
  exact ⟨_,ho,hq,abandonMessage_left ho _ m m⟩

theorem Orderly.abandon (h : Orderly ld) (es : List AbandonSent) (m : Nat) :
    Orderly (doAbandon es m ld).2 := by
  obtain ⟨ld₁,ho,-,hl⟩ := doAbandon_struck (Q := fun _ => True) (fun _ _ _ _ => trivial) h trivial
  exact ho.strike hl.struck

theorem doAbandon_frame (h : Orderly ld) (es : List AbandonSent) (m : Nat) :
    (doAbandon es m ld).2.accepted=ld.accepted ∧ (doAbandon es m ld).2.returned=ld.returned ∧
      (doAbandon es m ld).2.stuck=ld.stuck := by
  obtain ⟨ld₁,-,⟨h1,h2,h3⟩,hl⟩ := doAbandon_struck
    (Q := fun ld₁ => ld₁.accepted=ld.accepted ∧ ld₁.returned=ld.returned ∧ ld₁.stuck=ld.stuck)
    (fun _ hq _ hs =>
      ⟨hs.accepted.trans hq.1,hs.returned.trans hq.2.1,hs.stuck.trans hq.2.2⟩) h ⟨rfl,rfl,rfl⟩
  exact ⟨hl.struck.accepted.trans h1,hl.struck.returned.trans h2,hl.struck.stuck.trans h3⟩

theorem Accounted.abandon (ha : Accounted A [] ld) (h : Orderly ld) (es : List AbandonSent)
    (hm : A m) : Accounted A [] (doAbandon es m ld).2 := by
  obtain ⟨ld₁,-,ha₁,hl⟩ := doAbandon_struck (Q := Accounted A [])
    (fun _ ha hg hs => ha.strike (.inr hg) hs) h ha
  exact ha₁.strike (.inl hm) hl.struck

/-- Once an operation is abandoned, nothing comes for it. -/
theorem Orderly.abandon_gone (h : Orderly ld) (es : List AbandonSent) (h0 : 0< m)
    (hm : m≤ ld.msgid) (hroot : ∀r∈ld.requests,r.msgid=m → r.parent=none) :
    Silent m (mine m ld.accepted) (mine m ld.returned) [] (doAbandon es m ld).2 := by
  obtain ⟨ld₁,-,⟨h1,h2,h3,h4⟩,hl⟩ := doAbandon_struck
    (Q := fun ld₁ => ld₁.accepted=ld.accepted ∧ ld₁.returned=ld.returned ∧ m≤ ld₁.msgid ∧
      ∀r∈ld₁.requests,r.msgid=m → r.parent=none)
    (fun _ hq _ hs => ⟨hs.accepted.trans hq.1,hs.returned.trans hq.2.1,hq.2.2.1.trans hs.msgid,
      hs.rooted hq.2.2.2⟩) h ⟨rfl,rfl,hm,hroot⟩
  refine ⟨hl.gone rfl h3 h0 h4,?_,?_⟩
  · rw [hl.struck.accepted,h1]
  · rw [List.append_nil,hl.struck.returned,h2]

theorem Silent.abandon {acc ret : List LdapMessage} {k : Nat} (hs : Silent k acc ret [] ld)
    (h : Orderly ld) (es : List AbandonSent) : Silent k acc ret [] (doAbandon es m ld).2 := by
  have hstep : ∀{i : Nat} {ld ld' : Ld},Silent k acc ret [] ld → Struck i ld ld' →
      Silent k acc ret [] ld' := by
    intro i ld ld' hs hst
    have hg : Gone k ld := hs.1
    refine ⟨hg.strike hst,?_,?_⟩
    · rw [hst.accepted]
      exact hs.2.1
    · rw [hst.returned]
      exact hs.2.2
  obtain ⟨ld₁,-,hs₁,hl⟩ := doAbandon_struck (Q := Silent k acc ret [])
    (fun _ hs _ hst => hstep hs hst) h hs
  exact hstep hs₁ hl.struck

end Striking

end TiLdap.OpenLdap
