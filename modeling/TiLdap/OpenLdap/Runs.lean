import TiLdap.OpenLdap.Striking

namespace TiLdap.OpenLdap

open Framework Lber

section Steps

variable {w : Word} {A : Nat → Prop} {ld : Ld}

theorem orderly_ldapCreate (version : Nat) (referrals restart : Bool) (refhoplimit : Int) :
    Orderly (ldapCreate version referrals restart refhoplimit) where
  forest := forest_nil 0 0
  positive := by simp [ldapCreate]
  ascending := ascending_nil
  bundled := bundled_nil
  within := by simp [ldapCreate,queued,held]
  known := by simp [ldapCreate]
  final := by simp [ldapCreate]
  last := by simp [ldapCreate]

theorem accounted_ldapCreate (A : Nat → Prop) (version : Nat) (referrals restart : Bool)
    (refhoplimit : Int) : Accounted A [] (ldapCreate version referrals restart refhoplimit) where
  struck := by simp [ldapCreate]
  perm := by simp [ldapCreate,queued,held]
  order := by simp [ldapCreate,queued,held]

theorem Orderly.step (h : Orderly ld) (c : LdCall) : Orderly (ldStep w ld c) := by
  cases c with
  | request encoded s => exact h.request encoded s
  | result msgid all rs =>
    obtain ⟨ld₁,ho,-,he⟩ := (steady_history [] ld.returned).ldapResultOf h ⟨List.nil_prefix,rfl⟩ rs
    rw [ldStep,he]
    exact ho.hand _
  | abandon es m => exact h.abandon es m

theorem Accounted.hand {out : List LdapMessage} (h : Accounted A out ld) :
    Accounted A [] { ld with returned := ld.returned++out } where
  struck := h.struck
  perm := by
    simp only [List.append_nil]
    exact h.perm
  order := by
    simp only [List.append_nil]
    exact h.order

theorem Accounted.step (ha : Accounted A [] ld) (h : Orderly ld) (c : LdCall)
    (hc : ∀es m,c=.abandon es m → A m) : Accounted A [] (ldStep w ld c) := by
  cases c with
  | request encoded s => exact ha.request h encoded s
  | result msgid all rs =>
    obtain ⟨ld₁,-,ha₁,he⟩ := (steady_accounted A).ldapResultOf h ha rs
    rw [ldStep,he]
    exact ha₁.hand
  | abandon es m => exact ha.abandon h es (hc es m rfl)

theorem Silent.step {m : Nat} {acc ret : List LdapMessage} (hs : Silent m acc ret [] ld)
    (h : Orderly ld) (hm : 0< m) (c : LdCall) : Silent m acc ret [] (ldStep w ld c) := by
  cases c with
  | request encoded s =>
    obtain ⟨h1,h2,-⟩ := sendRequest_frame h encoded s
    have hg : Gone m ld := hs.1
    refine ⟨hg.request h encoded s,?_,?_⟩
    · rw [ldStep,h1]
      exact hs.2.1
    · rw [ldStep,h2]
      exact hs.2.2
  | result msgid all rs =>
    obtain ⟨ld₁,-,hs₁,he⟩ := (steady_silent hm acc ret).ldapResultOf h hs rs
    rw [ldStep,he]
    refine ⟨hs₁.1,hs₁.2.1,?_⟩
    rw [List.append_nil]
    exact hs₁.2.2
  | abandon es k => exact hs.abandon h es

/-- A call only adds to the messages that were made. -/
theorem Orderly.accepted_step (h : Orderly ld) (c : LdCall) :
    ld.accepted<+:(ldStep w ld c).accepted := by
  cases c with
  | request encoded s =>
    rw [ldStep,(sendRequest_frame h encoded s).1]
  | result msgid all rs =>
    obtain ⟨ld₁,-,⟨hp,-⟩,he⟩ :=
      (steady_history ld.accepted ld.returned).ldapResultOf h ⟨List.prefix_rfl,rfl⟩ rs
    rw [ldStep,he]
    exact hp
  | abandon es m =>
    rw [ldStep,(doAbandon_frame h es m).1]

/-- An operation whose end was handed out is over. -/
theorem Accounted.gone {m : Nat} (ha : Accounted A [] ld) (h : Orderly ld) (hm : 0< m)
    (hA : ¬A m) (hq : queued m ld.responses=[]) {x : LdapMessage} (hx : x∈mine m ld.returned)
    (ho : openType x.msgtype=false) : Gone m ld := by
  have hp := ha.perm m hm hA
  rw [List.append_nil] at hp
  have hx : x∈mine m ld.accepted := hp.subset (List.mem_append_left _ hx)
  exact ⟨(h.known m hm (List.ne_nil_of_mem hx)).1,h.final m hm x hx ho,hq⟩

/-- Of a search, nothing has been handed out or all of it. -/
def Whole (m : Nat) (ld : Ld) : Prop :=
  (∀x∈mine m ld.accepted,searchType x.msgtype=true) → mine m ld.returned=[] ∨
    queued m ld.responses=[] ∧ ∃x∈mine m ld.returned,openType x.msgtype=false

/-- A call for all of the response to a search. -/
theorem Whole.result {m : Nat} {msgid : Int} {all : LdapMsg} (h : Orderly ld)
    (ha : Accounted A [] ld) (hm : 0< m) (hA : ¬A m)
    (hall : msgid=ldapResAny ∨ msgid=m → all=.msgAll) (hr : mine m ld.returned=[])
    (rs : List Round) : Whole m (ldStep w ld (.result msgid all rs)) := by
  obtain ⟨ld₁,-,⟨ha₁,ht,-,hret⟩,he⟩ := ((steady_accounted A).and (steady_together.and
    (steady_history [] ld.returned))).ldapResultOf h ⟨ha,by simp [Together],List.nil_prefix,rfl⟩ rs
  rw [ldStep,he]
  generalize (ldapResultOf w msgid all rs ld).1.items=out at ha₁ ht he
  intro hs
  have hs : ∀x∈mine m ld₁.accepted,searchType x.msgtype=true := hs
  show mine m (ld₁.returned++out)=[] ∨ queued m ld₁.responses=[] ∧
    ∃x∈mine m (ld₁.returned++out),openType x.msgtype=false
  rw [mine_append,hret,hr,List.nil_append]
  cases hout : mine m out with
  | nil => exact .inl rfl
  | cons x l =>
    right
    obtain ⟨hx,hxm⟩ := mem_mine.mp (hout ▸ List.mem_cons_self : x∈mine m out)
    obtain ⟨hw,hu,hend⟩ := ht x hx
    have hid : msgid=ldapResAny ∨ msgid=m := by
      rw [wanted,hxm] at hw
      simp only [Bool.or_eq_true,decide_eq_true_eq] at hw
      exact hw.imp_right Eq.symm
    have hne : msgid≠ldapResUnsolicited := by
      rcases hid with rfl|rfl
      · decide
      · intro he
        have he : (m : Int)=0 := he
        omega
    have hmine : ∀y∈out,y∈mine m out := fun y hy => mem_mine.mpr ⟨hy,(hu y hy).trans hxm⟩
    have hsearch : ∀y∈out,searchType y.msgtype=true := by
      intro y hy
      apply hs
      apply (ha₁.perm m hm hA).subset
      rw [mine_append]
      exact List.mem_append_left _ (List.mem_append_right _ (hmine y hy))
    obtain ⟨⟨y,hy,ho⟩,hq⟩ := hend (hall hid) hne hsearch
    rw [hxm] at hq
    exact ⟨hq,y,hout ▸ hmine y hy,ho⟩

theorem Whole.step {m : Nat} (hw : Whole m ld) (h : Orderly ld) (ha : Accounted A [] ld)
    (hm : 0< m) (hA : ¬A m) (c : LdCall)
    (hall : ∀msgid all rs,c=.result msgid all rs → msgid=ldapResAny ∨ msgid=m → all=.msgAll) :
    Whole m (ldStep w ld c) := by
  intro hs
  have hs₀ : ∀x∈mine m ld.accepted,searchType x.msgtype=true := by
    intro x hx
    obtain ⟨hx,hxm⟩ := mem_mine.mp hx
    exact hs x (mem_mine.mpr ⟨(h.accepted_step c).subset hx,hxm⟩)
  rcases hw hs₀ with hr|⟨hq,x,hx,ho⟩
  · cases c with
    | request encoded s =>
      left
      rw [ldStep,(sendRequest_frame h encoded s).2.1]
      exact hr
    | result msgid all rs =>
      exact Whole.result h ha hm hA (hall msgid all rs rfl) hr rs hs
    | abandon es k =>
      left
      rw [ldStep,(doAbandon_frame h es k).2.1]
      exact hr
  · right
    have hsil : Silent m (mine m ld.accepted) (mine m ld.returned) [] ld :=
      ⟨ha.gone h hm hA hq hx ho,rfl,by rw [List.append_nil]⟩
    obtain ⟨hg,-,hret⟩ := hsil.step (w := w) h hm c
    rw [List.append_nil] at hret
    rw [hret]
    exact ⟨hg.2.2,x,hx,ho⟩

end Steps

section Runs

variable {w : Word} {A : Nat → Prop} {ld : Ld} {calls : List LdCall}

theorem Orderly.run (h : Orderly ld) (calls : List LdCall) : Orderly (run (ldStep w) ld calls) :=
  (always_of_inductive (fun _ c h => h.step c) h calls).last

/-- The program abandons operations in `A` only. -/
def Abandons (A : Nat → Prop) (c : LdCall) : Prop := ∀es m,c=.abandon es m → A m

theorem Accounted.run (ha : Accounted A [] ld) (h : Orderly ld)
    (hc : ∀c∈calls,Abandons A c) : Accounted A [] (Framework.run (ldStep w) ld calls) := by
  have hstep : ∀ld c,Orderly ld ∧ Accounted A [] ld → Abandons A c →
      Orderly (ldStep w ld c) ∧ Accounted A [] (ldStep w ld c) := by
    rintro ld c ⟨h,ha⟩ hc
    exact ⟨h.step c,ha.step h c hc⟩
  exact (always_of_along hstep ⟨h,ha⟩ (along_of_forall hc ld)).last.2

theorem Silent.run {m : Nat} {acc ret : List LdapMessage} (hs : Silent m acc ret [] ld)
    (h : Orderly ld) (hm : 0< m) (calls : List LdCall) :
    Silent m acc ret [] (Framework.run (ldStep w) ld calls) := by
  have hstep : ∀ld c,Orderly ld ∧ Silent m acc ret [] ld →
      Orderly (ldStep w ld c) ∧ Silent m acc ret [] (ldStep w ld c) := by
    rintro ld c ⟨h,hs⟩
    exact ⟨h.step c,hs.step h hm c⟩
  exact (always_of_inductive hstep ⟨h,hs⟩ calls).last.2

/-- The program asks for all of the response to `m`, whenever it asks for any. -/
def AsksForAll (m : Nat) (c : LdCall) : Prop :=
  ∀msgid all rs,c=.result msgid all rs → msgid=ldapResAny ∨ msgid=m → all=.msgAll

theorem Whole.run {m : Nat} (hw : Whole m ld) (ha : Accounted A [] ld) (h : Orderly ld)
    (hm : 0< m) (hA : ¬A m) (hc : ∀c∈calls,Abandons A c ∧ AsksForAll m c) :
    Whole m (Framework.run (ldStep w) ld calls) := by
  have hstep : ∀ld c,Orderly ld ∧ Accounted A [] ld ∧ Whole m ld → Abandons A c ∧ AsksForAll m c →
      Orderly (ldStep w ld c) ∧ Accounted A [] (ldStep w ld c) ∧ Whole m (ldStep w ld c) := by
    rintro ld c ⟨h,ha,hw⟩ ⟨hab,hall⟩
    exact ⟨h.step c,ha.step h c hab,hw.step h ha hm hA c hall⟩
  exact (always_of_along hstep ⟨h,ha,hw⟩ (along_of_forall hc ld)).last.2.2

end Runs

end TiLdap.OpenLdap
