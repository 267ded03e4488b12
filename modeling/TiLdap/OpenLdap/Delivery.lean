import TiLdap.OpenLdap.Queueing

namespace TiLdap.OpenLdap

open Framework Lber

/-- What holds of a session whatever the server sends. Of the messages that were made for an
operation, only the last one can end it, and then no request is left on its behalf. -/
structure Orderly (ld : Ld) : Prop where
  forest : Forest 0 ld.msgid ld.requests
  positive : ∀r∈ld.requests,0< r.msgid
  ascending : Ascending ld.abandoned
  bundled : Bundled LdapMessage.msgid ld.responses
  within : ∀m,∀x∈queued m ld.responses,x∈mine m ld.accepted
  known : ∀m,0< m → mine m ld.accepted≠[] →
    m≤ ld.msgid ∧ ∀r∈ld.requests,r.msgid=m → r.parent=none
  final : ∀m,0< m → ∀x∈mine m ld.accepted,openType x.msgtype=false → Closed m ld.requests
  last : ∀m,0< m → ∀x∈(mine m ld.accepted).dropLast,openType x.msgtype=true

/-- An operation that nothing will come for any more. -/
def Gone (m : Nat) (ld : Ld) : Prop :=
  m≤ ld.msgid ∧ Closed m ld.requests ∧ queued m ld.responses=[]

/-- The messages of the operations that the program does not abandon are all accounted for, with
those in `out` on their way to it. -/
structure Accounted (A : Nat → Prop) (out : List LdapMessage) (ld : Ld) : Prop where
  struck : ∀m,0< m → m∈ld.abandoned → A m ∨ Gone m ld
  perm : ∀m,0< m → ¬A m →
    (mine m (ld.returned++out)++queued m ld.responses).Perm (mine m ld.accepted)
  order : ∀m,0< m → ¬A m → (∀x∈mine m ld.accepted,searchType x.msgtype=true) →
    mine m (ld.returned++out)++queued m ld.responses=mine m ld.accepted

section Steps

variable {A : Nat → Prop} {out : List LdapMessage} {ld ld' : Ld}

theorem Closed.worked {m : Nat} (h : Closed m ld.requests) (hw : Worked ld ld') :
    Closed m ld'.requests := by
  intro r' hr'
  rcases hw.back r' hr' with ⟨r,hr,-,ho,-⟩|⟨-,r,hr,ho⟩
  · rw [← ho]
    exact h r hr
  · rw [← ho]
    exact h r hr

theorem Gone.worked {m : Nat} (h : Gone m ld) (hw : Worked ld ld') : Gone m ld' := by
  obtain ⟨h1,h2,h3⟩ := h
  refine ⟨h1.trans hw.msgid,h2.worked hw,?_⟩
  rw [hw.frame]
  exact h3

/-- An id that answers have come for names a root, whatever has happened since. -/
theorem known_worked (hw : Worked ld ld') {m : Nat} (hm : m≤ ld.msgid)
    (hp : ∀r∈ld.requests,r.msgid=m → r.parent=none) :
    m≤ ld'.msgid ∧ ∀r∈ld'.requests,r.msgid=m → r.parent=none := by
  refine ⟨hm.trans hw.msgid,?_⟩
  intro r' hr' he
  rcases hw.back r' hr' with ⟨r,hr,h1,-,h3⟩|⟨hlt,-⟩
  · rw [← h3]
    exact hp r hr (h1.trans he)
  · omega

/-- Reading a message that is not handed on. -/
theorem Orderly.worked (h : Orderly ld) (hf : Forest 0 ld'.msgid ld'.requests)
    (hw : Worked ld ld') : Orderly ld' := by
  have hacc : ld'.accepted=ld.accepted := by rw [hw.frame]
  have hres : ld'.responses=ld.responses := by rw [hw.frame]
  have hab : ld'.abandoned=ld.abandoned := by rw [hw.frame]
  refine ⟨hf,?_,hab ▸ h.ascending,hres ▸ h.bundled,?_,?_,?_,?_⟩
  · intro r' hr'
    rcases hw.back r' hr' with ⟨r,hr,h1,-⟩|⟨hlt,-⟩
    · rw [← h1]
      exact h.positive r hr
    · omega
  · rw [hacc,hres]
    exact h.within
  · intro m hm hne
    rw [hacc] at hne
    obtain ⟨h1,h2⟩ := h.known m hm hne
    exact known_worked hw h1 h2
  · intro m hm x hx ho
    rw [hacc] at hx
    exact (h.final m hm x hx ho).worked hw
  · rw [hacc]
    exact h.last

theorem Accounted.worked (h : Accounted A out ld) (hw : Worked ld ld') : Accounted A out ld' := by
  have hacc : ld'.accepted=ld.accepted := by rw [hw.frame]
  have hres : ld'.responses=ld.responses := by rw [hw.frame]
  have hret : ld'.returned=ld.returned := by rw [hw.frame]
  have hab : ld'.abandoned=ld.abandoned := by rw [hw.frame]
  constructor
  · intro m hm hin
    rw [hab] at hin
    exact (h.struck m hm hin).imp_right fun hg => hg.worked hw
  · rw [hacc,hres,hret]
    exact h.perm
  · rw [hacc,hres,hret]
    exact h.order

/-- Fewer ids are abandoned, and less is queued. -/
theorem Orderly.fewer (h : Orderly ld) {cs : List (Strand LdapMessage)} {ab : List Nat}
    (ha : Ascending ab) (hb : Bundled LdapMessage.msgid cs)
    (hsub : ∀m,∀x∈queued m cs,x∈queued m ld.responses) :
    Orderly { ld with responses := cs, abandoned := ab } :=
  { h with
    ascending := ha
    bundled := hb
    within := fun m x hx => h.within m x (hsub m x hx) }

theorem queued_eq_nil {m : Nat} {cs cs' : List (Strand LdapMessage)}
    (hsub : ∀x∈queued m cs',x∈queued m cs) (h : queued m cs=[]) : queued m cs'=[] := by
  rw [List.eq_nil_iff_forall_not_mem]
  intro x hx
  have hc := hsub x hx
  rw [h] at hc
  cases hc

/-- What is found among the responses is accounted for. -/
theorem Accounted.checked {msgid : Int} {all : LdapMsg} {r : Option (Strand LdapMessage)}
    {cs : List (Strand LdapMessage)} {ab : List Nat} (h : Accounted A [] ld)
    (hc : Checked msgid all ld.responses ld.abandoned r cs ab) :
    Accounted A (handed r) { ld with responses := cs, abandoned := ab } := by
  have hgone : ∀m,Gone m ld → Gone m { ld with responses := cs, abandoned := ab } :=
    fun m hg => ⟨hg.1,hg.2.1,queued_eq_nil (hc.subset m) hg.2.2⟩
  have heq : ∀m,0< m → ¬A m → mine m (handed r)++queued m cs=queued m ld.responses := by
    intro m hm hA
    by_cases hin : m∈ld.abandoned
    · have hg := ((h.struck m hm hin).resolve_left hA).2.2
      have hout : mine m (handed r)=[] := by
        rw [List.eq_nil_iff_forall_not_mem]
        intro x hx
        obtain ⟨hx,hxm⟩ := mem_mine.mp hx
        exact (hc.taken x hx).1 (hxm ▸ hin)
      rw [hout,hg,queued_eq_nil (hc.subset m) hg]
      rfl
    · exact hc.order m hin
  constructor
  · intro m hm hin
    exact (h.struck m hm (hc.fewer m hin)).imp_right (hgone m)
  · intro m hm hA
    have hp := h.perm m hm hA
    rw [List.append_nil] at hp
    rw [mine_append,List.append_assoc,heq m hm hA]
    exact hp
  · intro m hm hA hs
    have ho := h.order m hm hA hs
    rw [List.append_nil] at ho
    rw [mine_append,List.append_assoc,heq m hm hA]
    exact ho

theorem Orderly.code (h : Orderly ld) (e : Int) (s : List Nat) :
    Orderly { ld with errno := e, stuck := s } := { h with }

theorem Accounted.code (h : Accounted A out ld) (e : Int) (s : List Nat) :
    Accounted A out { ld with errno := e, stuck := s } := { h with }

end Steps

section Accepting

variable {A : Nat → Prop} {out : List LdapMessage} {ld ld' : Ld} {o : Outcome} {x : LdapMessage}
  {msgid : Int} {all : LdapMsg} {r : Option (Strand LdapMessage)} {cs : List (Strand LdapMessage)}

theorem Tossed.spec {ab ab' : List Nat} (h : Tossed ab ab') (ha : Ascending ab) :
    Ascending ab' ∧ ∀j∈ab',j∈ab := by
  rcases h with rfl|⟨m,rfl⟩
  · exact ⟨ha,fun _ => id⟩
  · obtain ⟨h1,h2⟩ := ldapMarkAbandoned_spec ha m
    exact ⟨h1,fun j hj => ((h2 j).mp hj).1⟩

theorem Admitted.accepted (ha : Admitted ld o ld') : ld'.accepted=ld.accepted := by
  rw [ha.worked.frame]

theorem Admitted.returned (ha : Admitted ld o ld') : ld'.returned=ld.returned := by
  rw [ha.worked.frame]

theorem Admitted.stuck (ha : Admitted ld o ld') : ld'.stuck=ld.stuck := by
  rw [ha.worked.frame]

theorem Admitted.responses (ha : Admitted ld o ld') : ld'.responses=ld.responses := by
  rw [ha.worked.frame]

theorem Gone.admitted {m : Nat} (h : Gone m ld) (ha : Admitted ld o ld') : Gone m ld' := by
  have h₁ : Gone m { ld with abandoned := ld'.abandoned } := h
  exact h₁.worked ha.worked

theorem Orderly.admitted (h : Orderly ld) (ha : Admitted ld o ld') : Orderly ld' := by
  obtain ⟨h1,-⟩ := ha.tossed.spec h.ascending
  have h₁ : Orderly { ld with abandoned := ld'.abandoned } := h.fewer h1 h.bundled fun _ _ => id
  exact h₁.worked ha.forest ha.worked

theorem Accounted.admitted (h : Accounted A out ld) (hasc : Ascending ld.abandoned)
    (ha : Admitted ld o ld') : Accounted A out ld' := by
  obtain ⟨-,h2⟩ := ha.tossed.spec hasc
  have h₁ : Accounted A out { ld with abandoned := ld'.abandoned } :=
    ⟨fun m hm hin => h.struck m hm (h2 m hin),h.perm,h.order⟩
  exact h₁.worked ha.worked

/-- A message is made for an operation that is open. -/
theorem Orderly.admitting (h : Orderly ld) (ha : Admitted ld (.message x) ld')
    (hx : 0< x.msgid) : (∃r∈ld.requests,r.origid=x.msgid) ∧
      (openType x.msgtype=false → Closed x.msgid ld'.requests) ∧
      x.msgid≤ ld'.msgid ∧ ∀r∈ld'.requests,r.msgid=x.msgid → r.parent=none := by
  rcases (ha.message x rfl).2 with h0|⟨⟨r,hr,ho⟩,hcl⟩
  · omega
  · obtain ⟨q,hq,h1,h2⟩ := h.forest.orig r hr
    have hid : q.msgid=x.msgid := h1.trans ho
    have hroot : ∀r∈ld.requests,r.msgid=x.msgid → r.parent=none := by
      intro r hr he
      rw [h.forest.eq_of_msgid hr hq (he.trans hid.symm)]
      exact h2
    exact ⟨⟨r,hr,ho⟩,hcl,known_worked ha.worked (hid ▸ h.forest.bound q hq) hroot⟩

theorem Orderly.accept (h : Orderly ld) (ha : Admitted ld (.message x) ld')
    (hq : Queued msgid all x ld'.responses r cs) :
    Orderly { ld' with accepted := ld'.accepted++[x], responses := cs } := by
  have h' := h.admitted ha
  refine ⟨h'.forest,h'.positive,h'.ascending,hq.bundled,?_,?_,?_,?_⟩
  · intro k y hy
    have hy := (hq.perm k).subset (List.mem_append_right _ hy)
    show y∈mine k (ld'.accepted++[x])
    rw [mine_append]
    rcases List.mem_append.mp hy with hy|hy
    · exact List.mem_append_left _ (h'.within k y hy)
    · exact List.mem_append_right _ hy
  · intro k hk hne
    have hne : mine k (ld'.accepted++[x])≠[] := hne
    by_cases he : x.msgid=k
    · subst he
      exact (h.admitting ha hk).2.2
    · rw [mine_append,mine_singleton_ne he,List.append_nil] at hne
      exact h'.known k hk hne
  · intro k hk y hy ho
    have hy : y∈mine k (ld'.accepted++[x]) := hy
    rw [mine_append] at hy
    rcases List.mem_append.mp hy with hy|hy
    · exact h'.final k hk y hy ho
    · obtain ⟨hyx,hid⟩ := mem_mine.mp hy
      have he : y=x := List.mem_singleton.mp hyx
      subst he hid
      exact (h.admitting ha hk).2.1 ho
  · -- An operation that is still open has been sent no final message.
    intro k hk y hy
    have hy : y∈(mine k (ld'.accepted++[x])).dropLast := hy
    rw [mine_append] at hy
    by_cases he : x.msgid=k
    · subst he
      rw [mine_singleton_self,List.dropLast_concat,ha.accepted] at hy
      obtain ⟨⟨q,hq,ho⟩,-⟩ := h.admitting ha hk
      by_contra hn
      exact h.final x.msgid hk y hy (by simpa using hn) q hq ho
    · rw [mine_singleton_ne he,List.append_nil] at hy
      exact h'.last k hk y hy

/-- Nothing comes for an operation that is gone. -/
theorem Gone.accept {m : Nat} (hg : Gone m ld) (h : Orderly ld) (hm : 0< m)
    (ha : Admitted ld (.message x) ld') (hq : Queued msgid all x ld'.responses r cs) :
    x.msgid≠m ∧ mine m (handed r)=[] ∧
      Gone m { ld' with accepted := ld'.accepted++[x], responses := cs } := by
  have hne : x.msgid≠m := by
    rintro rfl
    obtain ⟨⟨q,hq,ho⟩,-⟩ := h.admitting ha hm
    exact hg.2.1 q hq ho
  have hg' := hg.admitted ha
  have hp := hq.perm m
  rw [mine_singleton_ne hne,hg'.2.2] at hp
  obtain ⟨h1,h2⟩ := List.append_eq_nil_iff.mp hp.eq_nil
  exact ⟨hne,h1,hg'.1,hg'.2.1,h2⟩

theorem Accounted.accept (hac : Accounted A [] ld) (h : Orderly ld)
    (ha : Admitted ld (.message x) ld') (hun : all=.msgOne → Unwanted msgid ld'.responses)
    (hq : Queued msgid all x ld'.responses r cs) :
    Accounted A (handed r) { ld' with accepted := ld'.accepted++[x], responses := cs } := by
  have h' := hac.admitted h.ascending ha
  constructor
  · intro k hk hin
    have hin : k∈ld.abandoned := (ha.message x rfl).1 ▸ hin
    exact (hac.struck k hk hin).imp_right fun hg => (hg.accept h hk ha hq).2.2
  · intro k hk hA
    have hp := h'.perm k hk hA
    show (mine k (ld'.returned++handed r)++queued k cs).Perm (mine k (ld'.accepted++[x]))
    rw [List.append_nil] at hp
    rw [mine_append,mine_append,List.append_assoc]
    refine ((hq.perm k).append_left _).trans ?_
    rw [← List.append_assoc]
    exact hp.append_right _
  · intro k hk hA hs
    have hs : ∀y∈mine k (ld'.accepted++[x]),searchType y.msgtype=true := hs
    rw [mine_append] at hs
    have ho := h'.order k hk hA fun y hy => hs y (List.mem_append_left _ hy)
    have hx : x.msgid=k → searchType x.msgtype=true := by
      rintro rfl
      apply hs
      rw [mine_singleton_self]
      exact List.mem_append_right _ (List.mem_singleton_self x)
    show mine k (ld'.returned++handed r)++queued k cs=mine k (ld'.accepted++[x])
    rw [List.append_nil] at ho
    rw [mine_append,mine_append,List.append_assoc,hq.order hun k hx,← List.append_assoc,ho]

end Accepting

end TiLdap.OpenLdap
