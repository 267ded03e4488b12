import TiLdap.Ios.Ownership

namespace TiLdap.Ios.Memory

open Framework OpenLdap

/-- The retain counts add up. -/
structure Sound (m : Memory) : Prop extends Formed m where
  balanced : Counted.Balanced EntryObject.searchResult m.entries m.results

variable {m : Memory}

/-- Freeing touches the records of the chains only. -/
theorem msgfree_frame (m : Memory) (p : Option ChainId) :
    ∃l,m.msgfree p={ m with chains := l } := by
  cases p with
  | none => exact ⟨_,rfl⟩
  | some c => exact ⟨_,rfl⟩

theorem putRequest_frame (m : Memory) (r : Nat) (q : Counted RequestObject) :
    (m.putRequest r q).entries=m.entries ∧ (m.putRequest r q).results=m.results := by
  obtain ⟨l,hl⟩ := m.msgfree_frame (q.body.ldapMessage.map Message.id)
  rw [Memory.putRequest,hl]
  split_ifs <;> exact ⟨rfl,rfl⟩

theorem putResult_frame (m : Memory) (i : Nat) (x : Counted ResultObject) :
    (m.putResult i x).entries=m.entries ∧ ∃x',x'.retainCount=x.retainCount ∧ x'.held=x.held ∧
      (m.putResult i x).results=m.results.set i x' := by
  obtain ⟨l,hl⟩ := m.msgfree_frame x.body.searchResult
  rw [Memory.putResult,hl]
  split_ifs
  · exact ⟨rfl,x.modify ResultObject.destroy,rfl,rfl,rfl⟩
  · exact ⟨rfl,x,rfl,rfl,rfl⟩

/-- The surroundings give a result up. As they held it, only the last reference can be theirs when
no entry retains it. -/
theorem Sound.dropResult (h : m.Sound) {i : Nat} {x : Counted ResultObject}
    (hx : m.results[i]?=some x) (hh : x.held≠0) : Sound (m.putResult i x.drop) := by
  have hc := h.balanced.count i x hx
  obtain ⟨hent,x',hn,hl,hres⟩ := m.putResult_frame i x.drop
  refine ⟨h.toFormed.putResult hx rfl ?_,?_⟩
  · intro h0 y hy hr
    have hpos := h.balanced.retained_pos hy hr hx
    have h0 : x.retainCount-1=0 := h0
    omega
  · rw [hent,hres]
    apply h.balanced.set_outer hx
    have hn : x'.retainCount=x.retainCount-1 := hn
    have hl : x'.held=x.held-1 := hl
    omega

theorem Formed.setEntry (h : m.Formed) (j : Nat) {y : Counted EntryObject}
    (hc : y.retainCount=y.held) (hz : y.retainCount=0 → y.body.searchResult=none)
    (ha : 0<y.retainCount → m.Anchored y.body) :
    Formed { m with entries := m.entries.set j y } := by
  exact ⟨h.kept,h.requests,h.results,forall_mem_set h.entries j ⟨hc,hz,ha⟩,h.traced⟩

/-- An entry without references gives its result up. -/
theorem Sound.dropEntry (h : m.Sound) {j : Nat} {y : Counted EntryObject}
    (hy : m.entries[j]?=some y) (hh : y.held≠0) : Sound (m.putEntry j y.drop) := by
  obtain ⟨hc,-,ha⟩ := h.entries y (List.mem_of_getElem? hy)
  have hdc : y.drop.retainCount=y.drop.held := by
    show y.retainCount-1=y.held-1
    omega
  obtain ⟨i,hi,hp⟩ := ha (by omega)
  rw [Memory.putEntry]
  split_ifs with h0
  · obtain ⟨x,hx,-⟩ : ∃x,m.results[i]?=some x ∧ x.body.searchResult=some y.body.entry :=
      Option.bind_eq_some_iff.mp hp
    have hi' : y.drop.body.searchResult=some i := hi
    simp only [hi',hx]
    have hm := h.toFormed.setEntry j (y := y.drop.modify EntryObject.destroy) hdc (fun _ => rfl)
      fun hpos => absurd hpos (Nat.not_lt.mpr (Nat.le_of_eq h0))
    -- the entry is gone before the result may go
    have hfree : x.release.retainCount=0 →
        ∀z∈m.entries.set j (y.drop.modify EntryObject.destroy),z.body.searchResult≠some i := by
      intro hz z hmem hr
      have hb : Counted.Balanced EntryObject.searchResult
          (m.entries.set j (y.drop.modify EntryObject.destroy)) (m.results.set i x.release) :=
        h.balanced.disown hx hy hi rfl rfl rfl
      have hpos := hb.retained_pos hmem hr (getElem?_set_of hx _)
      omega
    obtain ⟨hent,x',hn,hl,hres⟩ := putResult_frame
      { m with entries := m.entries.set j (y.drop.modify EntryObject.destroy) } i x.release
    refine ⟨hm.putResult hx rfl hfree,?_⟩
    rw [hent,hres]
    exact h.balanced.disown hx hy hi rfl hn hl
  · refine ⟨h.toFormed.setEntry j hdc (fun hz => absurd hz h0) fun _ => ⟨i,hi,hp⟩,?_⟩
    exact h.balanced.set_inner hy rfl

theorem Sound.send (h : m.Sound) (connection : Nat) (cb : Callbacks)
    (found : Option Chain × Option Verdict) : Sound (m.send connection cb found) := by
  refine ⟨h.toFormed.send connection cb found,?_⟩
  rw [Memory.send]
  cases found.1 <;> exact h.balanced

theorem Sound.handle (h : m.Sound) (r : Nat) : Sound (m.handle r) := by
  rw [Memory.handle]
  cases hq : m.requests[r]? with
  | none => exact h
  | some q =>
    have hc := h.requests q (List.mem_of_getElem? hq)
    cases hv : q.body.pending with
    | none => simpa only [hv] using h
    | some v =>
      have failed : Sound (m.handleError r q) :=
        ⟨h.toFormed.setRequest hq rfl rfl (by simp [Counted.modify,RequestObject.fail]) hc.1 hc.2,
          h.balanced⟩
      simp only [hv]
      cases v with
      | succeeded => exact ⟨h.toFormed.handleSuccess hq (by simp [hv]),h.balanced.append_outer _ _⟩
      | initiated => exact failed
      | failed code text => exact failed

theorem Sound.retain (h : m.Sound) (o : Object) : Sound (m.retain o) := by
  cases o with
  | request r =>
    rw [Memory.retain]
    cases hq : m.requests[r]? with
    | none => exact h
    | some q =>
      have hc := (h.requests q (List.mem_of_getElem? hq)).1
      dsimp only
      split_ifs
      · exact h
      · refine ⟨h.toFormed.setRequest hq rfl rfl id ?_ fun h0 => absurd h0 (Nat.succ_ne_zero _),
          h.balanced⟩
        show q.retainCount+1=q.held+1
        rw [hc]
  | result i =>
    rw [Memory.retain]
    cases hx : m.results[i]? with
    | none => exact h
    | some x =>
      dsimp only
      split_ifs
      · exact h
      · refine ⟨h.toFormed.setResult hx rfl (fun h0 => absurd h0 (Nat.succ_ne_zero _))
          (h.results x (List.mem_of_getElem? hx)).2,h.balanced.set_outer hx ?_⟩
        show x.retainCount+1+x.held=x.held+1+x.retainCount
        omega
  | entry j =>
    rw [Memory.retain]
    cases hy : m.entries[j]? with
    | none => exact h
    | some y =>
      obtain ⟨hc,-,ha⟩ := h.entries y (List.mem_of_getElem? hy)
      dsimp only
      split_ifs with h0
      · exact h
      · refine ⟨h.toFormed.setEntry j ?_ (fun h0 => absurd h0 (Nat.succ_ne_zero _))
          fun _ => ha (by omega),h.balanced.set_inner hy rfl⟩
        show y.retainCount+1=y.held+1
        rw [hc]

theorem Sound.release (h : m.Sound) (o : Object) : Sound (m.release o) := by
  cases o with
  | request r =>
    rw [Memory.release]
    cases hq : m.requests[r]? with
    | none => exact h
    | some q =>
      dsimp only
      split_ifs with h0
      · exact h
      · have hp : q.body.pending=none := by
          cases hv : q.body.pending with
          | none => rfl
          | some v => exact absurd (.inr (by rw [hv]; rfl)) h0
        obtain ⟨hent,hres⟩ := m.putRequest_frame r q.drop
        refine ⟨h.toFormed.dropRequest hq hp,?_⟩
        rw [hent,hres]
        exact h.balanced
  | result i =>
    rw [Memory.release]
    cases hx : m.results[i]? with
    | none => exact h
    | some x =>
      dsimp only
      split_ifs with h0
      · exact h
      · exact h.dropResult hx h0
  | entry j =>
    rw [Memory.release]
    cases hy : m.entries[j]? with
    | none => exact h
    | some y =>
      dsimp only
      split_ifs with h0
      · exact h
      · exact h.dropEntry hy h0

theorem move_searchResult (c : ResultCall) (p : SearchResultProxy) (x : ResultObject) :
    (x.move c p).searchResult=x.searchResult := by
  cases c <;> rfl

/-- The entry pointer of a result stays in its chain. -/
theorem move_entry {x : ResultObject} (hx : ∀c,x.entry=some c → x.searchResult=some c)
    (c : ResultCall) (p : SearchResultProxy) :
    ∀d,(x.move c p).entry=some d → (x.move c p).searchResult=some d := by
  intro d hd
  rw [move_searchResult]
  cases c with
  | countEntries => exact hx d hd
  | firstEntry =>
    simp only [ResultObject.move,ResultObject.source] at hd
    split_ifs at hd
    exact hd
  | nextEntry =>
    simp only [ResultObject.move,ResultObject.source] at hd
    split_ifs at hd
    exact hx d hd

theorem source_searchResult {x : ResultObject} (hx : ∀c,x.entry=some c → x.searchResult=some c)
    {c : ResultCall} {d : ChainId} (hd : x.source c=some d) : x.searchResult=some d := by
  cases c with
  | countEntries => cases hd
  | firstEntry => exact hd
  | nextEntry => exact hx d hd

theorem Sound.fault (h : m.Sound) (f : Fault) : Sound (m.fault f) :=
  ⟨⟨h.kept,h.requests,h.results,h.entries,h.traced⟩,h.balanced⟩

theorem Formed.addEntry (h : m.Formed) {b : EntryObject} (hb : m.Anchored b) :
    Formed { m with entries := m.entries++[.new b 1] } := by
  refine ⟨h.kept,h.requests,h.results,forall_mem_concat h.entries ?_,h.traced⟩
  exact ⟨rfl,fun h0 => absurd h0 (Nat.succ_ne_zero 0),fun _ => hb⟩

/-- A new entry leads into the chain of the result that it retains. -/
theorem Sound.resultCall (h : m.Sound) (i : Nat) (c : ResultCall) : Sound (m.resultCall i c) := by
  rw [Memory.resultCall]
  cases hx : m.results[i]? with
  | none => exact h
  | some x =>
    dsimp only
    split_ifs with h0
    · exact h
    · have hent := (h.results x (List.mem_of_getElem? hx)).2
      have hcount := h.balanced.count i x hx
      cases x.body.proxy.call (m.ld x.body.connection) c with
      | error f => exact h.fault f
      | ok a =>
        obtain ⟨e,p⟩ := a
        have hs : (x.modify (ResultObject.move c p)).body.searchResult=x.body.searchResult :=
          move_searchResult c p x.body
        have hz : ¬(x.modify (ResultObject.move c p)).retainCount=0 := by
          show ¬x.retainCount=0
          omega
        have moved : Sound { m with
            results := m.results.set i (x.modify (ResultObject.move c p)) } :=
          ⟨h.toFormed.setResult hx hs (fun h0 => absurd h0 hz) (move_entry hent c p),
            h.balanced.set_outer hx (Nat.add_comm _ _)⟩
        cases e with
        | none => exact moved
        | some e =>
          cases hd : x.body.source c with
          | none => simpa only [hd] using moved
          | some d =>
            have hformed : Formed { m with
                results := m.results.set i (x.modify (ResultObject.move c p)).retain } :=
              h.toFormed.setResult hx hs (fun h0 => absurd h0 (Nat.succ_ne_zero _))
                (move_entry hent c p)
            have hptr : pointer { m with
                results := m.results.set i (x.modify (ResultObject.move c p)).retain }
                  (.result i)=some d := by
              rw [pointer_setResult hx,Function.update_self]
              exact hs.trans (source_searchResult hent hd)
            exact ⟨hformed.addEntry ⟨i,rfl,hptr⟩,h.balanced.adopt hx rfl rfl rfl⟩

theorem Sound.entryCall (h : m.Sound) (j : Nat) (c : EntryCall) : Sound (m.entryCall j c) := by
  rw [Memory.entryCall]
  cases hy : m.entries[j]? with
  | none => exact h
  | some y =>
    dsimp only
    split_ifs with h0
    · exact h
    · cases y.body.proxy.call ((y.body.searchResult.bind fun i => m.results[i]?).bind
        fun x => m.ld x.body.connection) c with
      | error f => exact h.fault f
      | ok p =>
        obtain ⟨hc,hz,ha⟩ := h.entries y (List.mem_of_getElem? hy)
        exact ⟨h.toFormed.setEntry j hc hz ha,h.balanced.set_inner hy rfl⟩

theorem Sound.call (h : m.Sound) (x : Call) : Sound (m.call x) := by
  have hp : Sound { m with process := m.process.step x } :=
    ⟨⟨h.kept,h.requests,h.results,h.entries,h.traced⟩,h.balanced⟩
  rw [Memory.call]
  cases x.op with
  | connect o cb lib => exact hp.send _ cb _
  | simpleBind o cb lib => exact hp.send _ cb _
  | saslBind o cb lib => exact hp.send _ cb _
  | search o cb lib => exact hp.send _ cb _
  | resultCall i c => exact h
  | entryCall j c errno => exact h
  | setUseTLS _ => exact hp
  | setCertFile _ => exact hp
  | setCaCertFile _ => exact hp
  | setSizeLimit _ => exact hp
  | setTimeLimit _ => exact hp
  | disconnect => exact hp
  | destroy => exact hp
  | abandon _ _ _ => exact hp

theorem sound_start (t : TlsOptions) : (start t).Sound := by
  have hptr : (start t).pointer=fun _ => none := by
    funext o
    cases o <;> rfl
  refine ⟨⟨?_,?_,?_,?_,?_⟩,Counted.balanced_nil⟩
  · rw [hptr]
    exact Custody.kept_nil
  all_goals simp [start]

theorem step_sound (m : Memory) (e : Event) (h : m.Sound) : (step m e).Sound := by
  rw [step]
  split_ifs
  · exact h
  · cases e with
    | call x => exact h.call x
    | handle r => exact h.handle r
    | resultCall i c => exact h.resultCall i c
    | entryCall j c => exact h.entryCall j c
    | retain o => exact h.retain o
    | release o => exact h.release o

theorem send_frame (m : Memory) (connection : Nat) (cb : Callbacks)
    (found : Option Chain × Option Verdict) :
    ∃(b : RequestObject) (l : List (Custody Object)),m.send connection cb found=
      { m with requests := m.requests++[.new b 1], chains := l } ∧
      b.ldapMessage.map Message.chain=found.1 ∧ b.pending=found.2 := by
  obtain ⟨c,v⟩ := found
  cases c with
  | none => exact ⟨_,_,rfl,rfl,rfl⟩
  | some c => exact ⟨_,_,rfl,rfl,rfl⟩

/-- The two halves of `sendRequest:` together. -/
theorem send_handle (m : Memory) (connection : Nat) (cb : Callbacks)
    (found : Option Chain × Option Verdict) :
    ∃q xs,((m.send connection cb found).handle m.requests.length).requests=m.requests++[q] ∧
      ((m.send connection cb found).handle m.requests.length).results=m.results++xs ∧
      ((m.send connection cb found).handle m.requests.length).process=m.process ∧
      q.body.ldapMessage.map Message.chain=
        (if found.2=some .succeeded then none else found.1) ∧
      xs.map (fun x => x.body.proxy)=
        (if found.2=some .succeeded then [⟨found.1,none⟩] else []) := by
  obtain ⟨b,l,hs,hm,hv⟩ := m.send_frame connection cb found
  have hset : ∀f : RequestObject → RequestObject,
      (m.requests++[Counted.new b 1]).set m.requests.length ((Counted.new b 1).modify f)=
        m.requests++[(Counted.new b 1).modify f] := by simp
  rw [hs,Memory.handle,List.getElem?_concat_length]
  have kept : ∀f : RequestObject → RequestObject,(∀b,(f b).ldapMessage=b.ldapMessage) →
      found.2≠some .succeeded →
      ((Counted.new b 1).modify f).body.ldapMessage.map Message.chain=
        (if found.2=some .succeeded then none else found.1) := by
    intro f hf hne
    rw [if_neg hne,← hm]
    exact congrArg _ (hf b)
  cases hp : b.pending with
  | none =>
    rw [hp] at hv
    have hb : (Counted.new b 1).body.pending=none := hp
    simp only [hb]
    exact ⟨_,[],rfl,(List.append_nil _).symm,by simp,kept id (fun _ => rfl) (by simp [← hv]),
      by simp [← hv]⟩
  | some v =>
    rw [hp] at hv
    have hb : (Counted.new b 1).body.pending=some v := hp
    simp only [hb]
    cases v with
    | succeeded =>
      refine ⟨_,_,hset _,rfl,rfl,?_,?_⟩
      · simp [← hv,Counted.modify,RequestObject.succeed]
      · simpa [← hv,Counted.new] using hm
    | initiated =>
      exact ⟨_,[],hset _,(List.append_nil _).symm,rfl,
        kept RequestObject.fail (fun _ => rfl) (by simp [← hv]),by simp [← hv]⟩
    | failed code text =>
      exact ⟨_,[],hset _,(List.append_nil _).symm,rfl,
        kept RequestObject.fail (fun _ => rfl) (by simp [← hv]),by simp [← hv]⟩

/-- What a connection shows of a search is what the objects hold: the chain is with the request or
with a result, and the application sees the result if it passed a callback. -/
theorem call_handle {x : Call} {o : SearchOptions} {cb : Callbacks} {lib : SearchLib}
    (hop : x.op=.search o cb lib) (ha : m.process.aborted=false)
    (hw : (m.process.worlds x.connection).aborted=false) :
    ∃q xs,((m.call x).handle m.requests.length).requests=m.requests++[q] ∧
      ((m.call x).handle m.requests.length).results=m.results++xs ∧
      (((m.call x).handle m.requests.length).process.worlds x.connection).requests.map
          Request.ldapMessage=
        (m.process.worlds x.connection).requests.map Request.ldapMessage++
          [q.body.ldapMessage.map Message.chain] ∧
      (((m.call x).handle m.requests.length).process.worlds x.connection).results=
        (m.process.worlds x.connection).results++
          (if cb.success then xs.map (fun x => x.body.proxy) else []) := by
  have hproc : (m.process.step x).worlds x.connection=
      (m.process.worlds x.connection).perform (.search o cb lib) := by
    simp [Process.step,ha,Ios.step,hw,hop]
  obtain ⟨hreq,hres⟩ := (m.process.worlds x.connection).perform_search o cb lib
  rw [← hproc] at hreq hres
  simp only [Memory.call,hop]
  obtain ⟨q,xs,hq,hxs,hp,hmsg,hproxy⟩ := send_handle { m with process := m.process.step x }
    x.connection cb ((m.process.worlds x.connection).obtains o cb lib)
  refine ⟨q,xs,hq,hxs,?_,?_⟩
  · rw [hp,hreq,hmsg]
  · rw [hp,hres,hproxy]
    cases cb.success with
    | false => simp
    | true => simp

end TiLdap.Ios.Memory
