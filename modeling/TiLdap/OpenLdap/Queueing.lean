import TiLdap.OpenLdap.Accepting

namespace TiLdap.OpenLdap

open Framework Lber

/-- The messages of one operation. -/
def mine (m : Nat) (l : List LdapMessage) : List LdapMessage := l.filter (·.msgid=m)

/-- What is handed out. -/
def handed (r : Option (Strand LdapMessage)) : List LdapMessage := (r.map Strand.items).getD []

/-- The messages that wait for one operation. -/
def queued (m : Nat) (cs : List (Strand LdapMessage)) : List LdapMessage :=
  held LdapMessage.msgid cs m

section Lemmas

variable {m : Nat} {cs : List (Strand LdapMessage)}

@[simp] theorem mine_append (a b : List LdapMessage) : mine m (a++b)=mine m a++mine m b :=
  List.filter_append ..

@[simp] theorem mine_nil : mine m []=[] := rfl

theorem mem_mine {x : LdapMessage} {l : List LdapMessage} : x∈mine m l ↔ x∈l ∧ x.msgid=m := by
  simp [mine]

theorem mine_singleton_self (x : LdapMessage) : mine x.msgid [x]=[x] := by simp [mine]

theorem mine_singleton_ne {x : LdapMessage} (h : x.msgid≠m) : mine m [x]=[] := by
  simp [mine,h]

theorem mem_queued {x : LdapMessage} : x∈queued m cs ↔ (∃c∈cs,x∈c.items) ∧ x.msgid=m := by
  simp [queued,held]

theorem mine_items {c : Strand LdapMessage} (h : ∀x∈c.items,x.msgid=c.first.msgid)
    (hm : c.first.msgid=m) : mine m c.items=c.items := filter_items_eq fun x hx => (h x hx).trans hm

theorem mine_items_ne {c : Strand LdapMessage} (h : ∀x∈c.items,x.msgid=c.first.msgid)
    (hm : c.first.msgid≠m) : mine m c.items=[] := filter_items_ne fun x hx => by rwa [h x hx]

theorem wanted_congr {msgid : Int} {x y : LdapMessage} (h : x.msgid=y.msgid) :
    wanted msgid x=wanted msgid y := by rw [wanted,wanted,h]

theorem ldapMarkAbandoned_eq {ab : List Nat} (h : Ascending ab) (i : Nat) :
    ldapMarkAbandoned i ab=if i∈ab then bisectDelete ab (rank ab i) else ab := by
  rw [ldapMarkAbandoned,bisectFind_eq h]
  by_cases hi : i∈ab <;> simp [hi]

/-- An id that is not abandoned any more is not, and no other changes. -/
theorem ldapMarkAbandoned_spec {ab : List Nat} (h : Ascending ab) (i : Nat) :
    Ascending (ldapMarkAbandoned i ab) ∧
      ∀j,j∈ldapMarkAbandoned i ab ↔ j∈ab ∧ j≠i := by
  rw [ldapMarkAbandoned_eq h]
  split
  · rename_i hi
    exact ⟨h.delete _,h.mem_delete hi⟩
  · rename_i hi
    refine ⟨h,fun j => ⟨fun hj => ⟨hj,?_⟩,And.left⟩⟩
    rintro rfl
    exact hi hj

end Lemmas

/-- Nothing among the responses is waited for. -/
def Unwanted (msgid : Int) (cs : List (Strand LdapMessage)) : Prop :=
  ∀c∈cs,wanted msgid c.first=false

section Checking

variable {msgid : Int} {all : LdapMsg} {cs : List (Strand LdapMessage)} {ab : List Nat}

/-- What `chkResponseList` does: it hands out from the front of what waits for an operation that
is not abandoned, and drops what waits for operations that are. -/
structure Checked (msgid : Int) (all : LdapMsg) (cs : List (Strand LdapMessage)) (ab : List Nat)
    (r : Option (Strand LdapMessage)) (cs' : List (Strand LdapMessage)) (ab' : List Nat) :
    Prop where
  bundled : Bundled LdapMessage.msgid cs'
  ascending : Ascending ab'
  keys : ∀c'∈cs',∃c∈cs,c'.first.msgid=c.first.msgid
  fewer : ∀j∈ab',j∈ab
  subset : ∀m,∀x∈queued m cs',x∈queued m cs
  order : ∀m,m∉ab → mine m (handed r)++queued m cs'=queued m cs
  taken : ∀x∈handed r,x.msgid∉ab ∧ wanted msgid x=true ∧ x∈queued x.msgid cs
  uniform : ∀c,r=some c → ∀x∈c.items,x.msgid=c.first.msgid
  one : r=none → all=.msgOne → Unwanted msgid cs'
  complete : ∀c,r=some c → all=.msgAll → msgid≠ldapResUnsolicited →
    openType c.last.msgtype=false ∧ queued c.first.msgid cs'=[]

/-- A chain that stays in front of the others. -/
theorem Checked.cons {c : Strand LdapMessage} {r : Option (Strand LdapMessage)}
    {cs' : List (Strand LdapMessage)} {ab' : List Nat} (h : Checked msgid all cs ab r cs' ab')
    (hb : Bundled LdapMessage.msgid (c::cs)) (hu : wanted msgid c.first=false) :
    Checked msgid all (c::cs) ab r (c::cs') ab' := by
  have hb' : Bundled LdapMessage.msgid (c::cs') := by
    refine h.bundled.cons hb.head ?_
    intro d' hd'
    obtain ⟨d,hd,he⟩ := h.keys d' hd'
    rw [he]
    exact hb.head_ne hd
  have hq : ∀m,queued m (c::cs')=mine m c.items++queued m cs' := fun m => held_cons c cs' m
  have hq' : ∀m,queued m (c::cs)=mine m c.items++queued m cs := fun m => held_cons c cs m
  have hnone : ∀m,c.first.msgid=m → mine m (handed r)=[] := by
    intro m hm
    rw [mine,List.filter_eq_nil_iff]
    intro x hx hxm
    have hxm : x.msgid=m := by simpa using hxm
    have hw := (h.taken x hx).2.1
    rw [wanted_congr (hxm.trans hm.symm),hu] at hw
    cases hw
  refine ⟨hb',h.ascending,?_,h.fewer,?_,?_,?_,h.uniform,?_,?_⟩
  · intro d' hd'
    rcases List.mem_cons.mp hd' with rfl|hd'
    · exact ⟨d',List.mem_cons_self,rfl⟩
    · obtain ⟨d,hd,he⟩ := h.keys d' hd'
      exact ⟨d,List.mem_cons_of_mem c hd,he⟩
  · intro m x hx
    rw [hq] at hx
    rw [hq']
    rcases List.mem_append.mp hx with hx|hx
    · exact List.mem_append_left _ hx
    · exact List.mem_append_right _ (h.subset m x hx)
  · intro m hm
    rw [hq,hq',← h.order m hm]
    by_cases hc : c.first.msgid=m
    · rw [hnone m hc]
      rfl
    · rw [mine_items_ne hb.head hc]
      rfl
  · intro x hx
    obtain ⟨h1,h2,h3⟩ := h.taken x hx
    refine ⟨h1,h2,?_⟩
    rw [hq']
    exact List.mem_append_right _ h3
  · intro hr ha d hd
    rcases List.mem_cons.mp hd with rfl|hd
    · exact hu
    · exact h.one hr ha d hd
  · intro d hr ha hm
    obtain ⟨h1,h2⟩ := h.complete d hr ha hm
    refine ⟨h1,?_⟩
    rw [hq,h2,List.append_nil]
    apply mine_items_ne hb.head
    intro he
    have hd : d.first∈handed r := by
      rw [hr]
      exact List.mem_cons_self
    have hw := (h.taken d.first hd).2.1
    rw [wanted_congr he.symm,hu] at hw
    cases hw

theorem checked_nil (h : Ascending ab) : Checked msgid all [] ab none [] ab where
  bundled := bundled_nil
  ascending := h
  keys := by simp
  fewer := fun _ => id
  subset := fun _ _ => id
  order := fun _ _ => rfl
  taken := by simp [handed]
  uniform := by simp
  one := by simp [Unwanted]
  complete := by simp

/-- A chain under an abandoned id is dropped. -/
theorem Checked.drop {c : Strand LdapMessage} {r : Option (Strand LdapMessage)}
    {cs' : List (Strand LdapMessage)} {ab₁ ab' : List Nat}
    (h : Checked msgid all cs ab₁ r cs' ab') (hb : Bundled LdapMessage.msgid (c::cs))
    (hc : c.first.msgid∈ab) (hsub : ∀j,j∈ab₁ → j∈ab) (hother : ∀j∈ab,j≠c.first.msgid → j∈ab₁) :
    Checked msgid all (c::cs) ab r cs' ab' := by
  have hq : ∀m,m≠c.first.msgid → queued m (c::cs)=queued m cs :=
    fun m hm => hb.held_cons_ne hm.symm
  have hmem : ∀m x,x∈queued m cs → x∈queued m (c::cs) := by
    intro m x hx
    obtain ⟨⟨d,hd,hx⟩,hm⟩ := mem_queued.mp hx
    exact mem_queued.mpr ⟨⟨d,List.mem_cons_of_mem c hd,hx⟩,hm⟩
  refine ⟨h.bundled,h.ascending,?_,fun j hj => hsub j (h.fewer j hj),?_,?_,?_,h.uniform,h.one,
    h.complete⟩
  · intro d' hd'
    obtain ⟨d,hd,he⟩ := h.keys d' hd'
    exact ⟨d,List.mem_cons_of_mem c hd,he⟩
  · exact fun m x hx => hmem m x (h.subset m x hx)
  · intro m hm
    have hne : m≠c.first.msgid := fun he => hm (he ▸ hc)
    rw [hq m hne]
    exact h.order m fun hj => hm (hsub m hj)
  · intro x hx
    obtain ⟨h1,h2,h3⟩ := h.taken x hx
    refine ⟨?_,h2,hmem _ _ h3⟩
    intro hj
    by_cases he : x.msgid=c.first.msgid
    · rw [he,queued,hb.held_tail] at h3
      cases h3
    · exact h1 (hother _ hj he)

/-- A chain that is found is handed out, in whole or its first message only. -/
theorem checked_found {c : Strand LdapMessage} (hb : Bundled LdapMessage.msgid (c::cs))
    (ha : Ascending ab) (hc : c.first.msgid∉ab) (hw : wanted msgid c.first=true)
    (hl : all=.msgAll → msgid≠ldapResUnsolicited → openType c.last.msgtype=false) :
    Checked msgid all (c::cs) ab (some c) cs ab where
  bundled := hb.tail
  ascending := ha
  keys := fun d hd => ⟨d,List.mem_cons_of_mem c hd,rfl⟩
  fewer := fun _ => id
  subset := by
    intro m x hx
    obtain ⟨⟨d,hd,hx⟩,hm⟩ := mem_queued.mp hx
    exact mem_queued.mpr ⟨⟨d,List.mem_cons_of_mem c hd,hx⟩,hm⟩
  order := fun m _ => (held_cons c cs m).symm
  taken := by
    intro x hx
    have hx : x∈c.items := hx
    have he := hb.head x hx
    rw [he,wanted_congr he]
    exact ⟨hc,hw,mem_queued.mpr ⟨⟨c,List.mem_cons_self,hx⟩,he⟩⟩
  uniform := by
    rintro d ⟨⟩
    exact hb.head
  one := by simp
  complete := by
    rintro d ⟨⟩ h1 h2
    exact ⟨hl h1 h2,hb.held_tail⟩

theorem checked_first {c d : Strand LdapMessage} (hb : Bundled LdapMessage.msgid (c::cs))
    (ha : Ascending ab) (hc : c.first.msgid∉ab) (hw : wanted msgid c.first=true)
    (hd : c.next=some d) : Checked msgid .msgOne (c::cs) ab (some ⟨c.first,[]⟩) (d::cs) ab := by
  have hitems := Strand.items_of_next hd
  have hdc : ∀x∈d.items,x.msgid=c.first.msgid := fun x hx =>
    hb.head x (hitems ▸ List.mem_cons_of_mem _ hx)
  have hfirst : d.first.msgid=c.first.msgid := hdc d.first List.mem_cons_self
  have hb' : Bundled LdapMessage.msgid (d::cs) := by
    refine hb.tail.cons (fun x hx => (hdc x hx).trans hfirst.symm) ?_
    intro e he
    rw [hfirst]
    exact hb.head_ne he
  have hq : ∀m,queued m (c::cs)=mine m [c.first]++queued m (d::cs) := by
    intro m
    have h1 : queued m (c::cs)=mine m c.items++queued m cs := held_cons c cs m
    have h2 : queued m (d::cs)=mine m d.items++queued m cs := held_cons d cs m
    rw [h1,h2,hitems,← List.append_assoc,← mine_append]
    rfl
  refine ⟨hb',ha,?_,fun _ => id,?_,fun m _ => (hq m).symm,?_,?_,by simp,by simp⟩
  · intro e he
    rcases List.mem_cons.mp he with rfl|he
    · exact ⟨c,List.mem_cons_self,hfirst⟩
    · exact ⟨e,List.mem_cons_of_mem c he,rfl⟩
  · intro m x hx
    rw [hq]
    exact List.mem_append_right _ hx
  · intro x hx
    have hx : x=c.first := by simpa [handed,Strand.items] using hx
    rw [hx]
    exact ⟨hc,hw,mem_queued.mpr ⟨⟨c,List.mem_cons_self,List.mem_cons_self⟩,rfl⟩⟩
  · rintro e ⟨⟩ x hx
    rw [List.mem_singleton.mp hx]

/-- A chain that is found but not complete stays where it is. -/
theorem checked_stays (hb : Bundled LdapMessage.msgid cs) (ha : Ascending ab)
    (hall : all=.msgAll) : Checked msgid all cs ab none cs ab where
  bundled := hb
  ascending := ha
  keys := fun d hd => ⟨d,hd,rfl⟩
  fewer := fun _ => id
  subset := fun _ _ => id
  order := fun _ _ => rfl
  taken := by simp [handed]
  uniform := by simp
  one := by
    rintro - rfl
    cases hall
  complete := by simp

theorem chkResponseList_checked (hb : Bundled LdapMessage.msgid cs) (ha : Ascending ab)
    {r : Option (Strand LdapMessage)} {cs' : List (Strand LdapMessage)} {ab' : List Nat}
    (hc : chkResponseList msgid all cs ab=(r,cs',ab')) : Checked msgid all cs ab r cs' ab' := by
  induction cs generalizing ab r cs' ab' with
  | nil =>
    cases hc
    exact checked_nil ha
  | cons c cs ih =>
    rw [chkResponseList,bisectFind_eq ha] at hc
    split at hc
    · rename_i hin
      have hin : c.first.msgid∈ab := by simpa using hin
      split at hc
      · exact (ih hb.tail ha hc).drop hb hin (fun _ => id) fun _ hj _ => hj
      · obtain ⟨ha',hmem⟩ := ldapMarkAbandoned_spec ha c.first.msgid
        exact (ih hb.tail ha' hc).drop hb hin (fun j hj => ((hmem j).mp hj).1)
          fun j hj hne => (hmem j).mpr ⟨hj,hne⟩
    · rename_i hin
      have hin : c.first.msgid∉ab := by simpa using hin
      split at hc
      · rename_i hw
        split at hc
        · rename_i hopen
          cases hc
          exact checked_stays hb ha hopen.1
        · rename_i hopen
          have hlast : all=.msgAll → msgid≠ldapResUnsolicited →
              openType c.last.msgtype=false := by
            intro h1 h2
            by_contra hn
            exact hopen ⟨h1,h2,by simpa using hn⟩
          split at hc
          · rename_i hone
            split at hc
            · rename_i d hd
              cases hc
              rw [hone]
              exact checked_first hb ha hin hw hd
            · cases hc
              exact checked_found hb ha hin hw hlast
          · cases hc
            exact checked_found hb ha hin hw hlast
      · rename_i hw
        cases hc
        exact (ih hb.tail ha rfl).cons hb (by simpa using hw)

end Checking

section Queueing

variable {msgid : Int} {all : LdapMsg} {new : LdapMessage} {cs cs' : List (Strand LdapMessage)}
  {r : Option (Strand LdapMessage)}

/-- What happens to a new message: nothing is lost or made twice, and the messages of a search
stay in order. -/
structure Queued (msgid : Int) (all : LdapMsg) (new : LdapMessage)
    (cs : List (Strand LdapMessage)) (r : Option (Strand LdapMessage))
    (cs' : List (Strand LdapMessage)) : Prop where
  bundled : Bundled LdapMessage.msgid cs'
  perm : ∀m,(mine m (handed r)++queued m cs').Perm (queued m cs++mine m [new])
  order : (all=.msgOne → Unwanted msgid cs) →
    ∀m,(new.msgid=m → searchType new.msgtype=true) →
      mine m (handed r)++queued m cs'=queued m cs++mine m [new]
  one : r=none → all=.msgOne → Unwanted msgid cs → Unwanted msgid cs'
  found : ∀c,r=some c → wanted msgid new=true ∧ new∈c.items ∧ ∀x∈c.items,x.msgid=new.msgid
  complete : r≠none → all=.msgAll → searchType new.msgtype=true →
    openType new.msgtype=false ∧ queued new.msgid cs'=[]

/-- A message that is handed out by itself leaves its chain behind, if there is one. -/
theorem queued_alone (hb : Bundled LdapMessage.msgid cs) (hw : wanted msgid new=true)
    (hd : all=.msgOne ∨ searchType new.msgtype=false) :
    Queued msgid all new cs (some ⟨new,[]⟩) cs where
  bundled := hb
  perm := fun _ => List.perm_append_comm
  order := by
    intro hun m hs
    by_cases hm : new.msgid=m
    · rcases hd with rfl|hd
      · have hq : queued m cs=[] := by
          refine held_eq_nil hb.uniform ?_
          intro c hc he
          have hc := hun rfl c hc
          rw [wanted_congr (he.trans hm.symm),hw] at hc
          cases hc
        rw [hq]
        exact List.append_nil _
      · rw [hs hm] at hd
        cases hd
    · have hn : mine m [new]=[] := mine_singleton_ne hm
      have hn' : mine m (handed (some ⟨new,[]⟩))=[] := hn
      rw [hn,hn',List.append_nil,List.nil_append]
  one := by simp
  found := by
    rintro c ⟨⟩
    refine ⟨hw,List.mem_cons_self,?_⟩
    intro x hx
    rw [List.mem_singleton.mp hx]
  complete := by
    rintro - rfl hs
    rcases hd with hd|hd
    · cases hd
    · rw [hs] at hd
      cases hd

/-- A result that is waited for is handed out at the end of its chain. -/
theorem queued_found {c : Strand LdapMessage} (hb : Bundled LdapMessage.msgid cs)
    (hw : wanted msgid new=true) (hres : new.msgtype=ldapResSearchResult)
    (ht : takeKey LdapMessage.msgid new.msgid cs=some (c,cs')) :
    Queued msgid all new cs (some (c.add new)) cs' := by
  obtain ⟨hk,hc,-,hb',h0,hj⟩ := takeKey_some hb ht
  have horder : ∀m,mine m (handed (some (c.add new)))++queued m cs'=
      queued m cs++mine m [new] := by
    intro m
    have hout : mine m (handed (some (c.add new)))=mine m c.items++mine m [new] := by
      rw [← mine_append]
      rfl
    rw [hout]
    by_cases hm : m=new.msgid
    · have hq : queued m cs=c.items := by
        rw [queued,hm,← hk]
        exact hb.held_mem hc
      have hq' : queued m cs'=[] := by
        rw [queued,hm]
        exact h0
      rw [hq,hq',List.append_nil,mine_items (hb.uniform c hc) (hk.trans hm.symm)]
    · have hq : queued m cs'=queued m cs := hj m hm
      have hne : c.first.msgid≠m := fun he => hm (he.symm.trans hk)
      rw [hq,mine_items_ne (hb.uniform c hc) hne,mine_singleton_ne fun he => hm he.symm,
        List.append_nil,List.append_nil,List.nil_append]
  refine ⟨hb',fun m => .of_eq (horder m),fun _ m _ => horder m,by simp,?_,
    fun _ _ _ => ⟨by rw [hres]; decide,h0⟩⟩
  rintro d ⟨⟩
  refine ⟨hw,by simp,?_⟩
  intro x hx
  rw [Strand.items_add] at hx
  rcases List.mem_append.mp hx with hx|hx
  · exact (hb.uniform c hc x hx).trans hk
  · rw [List.mem_singleton.mp hx]

theorem queued_result (hb : Bundled LdapMessage.msgid cs) (hw : wanted msgid new=true)
    (hres : new.msgtype=ldapResSearchResult)
    (ht : takeKey LdapMessage.msgid new.msgid cs=none) :
    Queued msgid all new cs (some ⟨new,[]⟩) cs := by
  have hq : queued new.msgid cs=[] := held_eq_nil hb.uniform (takeKey_none ht)
  have horder : ∀m,mine m (handed (some ⟨new,[]⟩))++queued m cs=queued m cs++mine m [new] := by
    intro m
    have hout : mine m (handed (some ⟨new,[]⟩))=mine m [new] := rfl
    rw [hout]
    by_cases hm : new.msgid=m
    · rw [← hm,hq,List.append_nil,List.nil_append]
    · rw [mine_singleton_ne hm,List.append_nil,List.nil_append]
  refine ⟨hb,fun m => .of_eq (horder m),fun _ m _ => horder m,by simp,?_,
    fun _ _ _ => ⟨by rw [hres]; decide,hq⟩⟩
  rintro d ⟨⟩
  refine ⟨hw,List.mem_cons_self,?_⟩
  intro x hx
  rw [List.mem_singleton.mp hx]

/-- Any other message goes to the end of its chain. -/
theorem queued_push (hb : Bundled LdapMessage.msgid cs)
    (hn : all=.msgOne → wanted msgid new=false) :
    Queued msgid all new cs none (push LdapMessage.msgid new cs) := by
  obtain ⟨hb',hself,hother⟩ := hb.push new
  have horder : ∀m,mine m (handed none)++queued m (push LdapMessage.msgid new cs)=
      queued m cs++mine m [new] := by
    intro m
    have hout : mine m (handed none)=[] := rfl
    rw [hout,List.nil_append]
    by_cases hm : m=new.msgid
    · rw [hm,mine_singleton_self]
      exact hself
    · rw [mine_singleton_ne fun he => hm he.symm,List.append_nil]
      exact hother m hm
  refine ⟨hb',fun m => .of_eq (horder m),fun _ m _ => horder m,?_,by simp,by simp⟩
  intro _ hone hun c hc
  have hmem : c.first∈queued c.first.msgid (push LdapMessage.msgid new cs) :=
    mem_queued.mpr ⟨⟨c,hc,List.mem_cons_self⟩,rfl⟩
  have hin := horder c.first.msgid
  have hout : mine c.first.msgid (handed none)=[] := rfl
  rw [hout,List.nil_append] at hin
  rw [hin] at hmem
  rcases List.mem_append.mp hmem with hmem|hmem
  · obtain ⟨⟨d,hd,hx⟩,-⟩ := mem_queued.mp hmem
    rw [wanted_congr (hb.uniform d hd _ hx)]
    exact hun d hd
  · rw [List.mem_singleton.mp (mem_mine.mp hmem).1]
    exact hn hone

theorem queueMessage_queued (hb : Bundled LdapMessage.msgid cs)
    (hq : queueMessage msgid all new cs=(r,cs')) : Queued msgid all new cs r cs' := by
  rw [queueMessage] at hq
  split at hq
  · rename_i hd
    cases hq
    exact queued_alone hb hd.1 hd.2
  · rename_i hnot
    split at hq
    · rename_i hres
      split at hq
      · rename_i ht
        cases hq
        exact queued_result hb hres.1 hres.2 ht
      · rename_i c cs₁ ht
        cases hq
        exact queued_found hb hres.1 hres.2 ht
    · cases hq
      refine queued_push hb ?_
      intro hone
      by_contra hw
      exact hnot ⟨by simpa using hw,.inl hone⟩

end Queueing

end TiLdap.OpenLdap
