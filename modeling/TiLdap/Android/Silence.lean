import TiLdap.Android.Abandons
import TiLdap.Framework.Mailbox

namespace TiLdap.Android.World

open Framework Wire

/-- `abandon` on request `r` has returned after sending an abandon for it. -/
def Abandoned (w : World) (r : RequestId) : Prop := ∃h id,Traffic.abandoned r h id true∈w.traffic

/-- `callAsync` puts a callback in the queue of the JavaScript thread, which runs them in order. -/
def turn : Mailbox World → MailboxOp Op → Mailbox World := Mailbox.next step fired

/-- What is known of every state. -/
structure SilenceInv (w : World) : Prop where
  wire : WireInv w
  callback : CallbackInv w

theorem step_silenceInv (w : World) (op : Op) (hi : SilenceInv w) : SilenceInv (step w op) :=
  ⟨step_wireInv w op hi.wire,(step_speaks hi.callback op).inv⟩

theorem step_grows (w : World) (op : Op) (hi : SilenceInv w) :
    ∃new,(step w op).fired=new++w.fired := by
  obtain ⟨-,r,new,hf,-⟩ := step_speaks hi.callback op
  exact ⟨_,hf⟩

theorem Abandoned.enrolled {w : World} (hi : WireInv w) {r : RequestId} (h : w.Abandoned r) :
    r<w.requests.length := by
  obtain ⟨k,id,hm⟩ := h
  obtain ⟨q,hq,-⟩ := hi.forgotten r k id hm
  exact (List.getElem?_eq_some_iff.mp hq).1

/-- Only a call of `abandon` abandons. -/
theorem abandoned_step_iff {w : World} (hi : WireInv w) {op : Op} (h : ∀r b,op≠.abandon r b)
    (r : RequestId) : (step w op).Abandoned r ↔ w.Abandoned r := by
  obtain ⟨new,ht,hnew⟩ := (step_calm hi h).traffic
  simp only [Abandoned,ht,List.mem_append]
  constructor
  · intro ⟨k,id,hm⟩
    rcases hm with hm|hm
    · have hf := hnew _ hm
      cases hf
    · exact ⟨k,id,hm⟩
  · intro ⟨k,id,hm⟩
    exact ⟨k,id,.inr hm⟩

/-- The call goes through to the SDK, which takes it. -/
def Abandons (w : World) (r : RequestId) (refused : Bool) : Prop :=
  refused=false ∧ ∃q,w.requests[r]?=some q ∧ q.asyncRequestId≠none ∧ w.connection.ld≠none

theorem abandon_abandoned (w : World) (r : RequestId) (refused : Bool) :
    (w.abandon r refused).fired=w.fired ∧
    ∀r',(w.abandon r refused).Abandoned r' ↔ w.Abandoned r' ∨ (r'=r ∧ w.Abandons r refused) := by
  rcases abandon_cases w r refused with ⟨hno,fs,hw⟩|⟨q,id,h,hq,hid,hld,hw⟩
  · have hn : ¬w.Abandons r refused := by
      intro ⟨_,q,hq,hid,hld⟩
      obtain ⟨id,hid⟩ := Option.ne_none_iff_exists'.mp hid
      obtain ⟨h,hld⟩ := Option.ne_none_iff_exists'.mp hld
      exact hno q id h hq hid hld
    rw [hw]
    refine ⟨rfl,?_⟩
    intro r'
    simp [hn,Abandoned]
  · rw [hw]
    refine ⟨rfl,?_⟩
    intro r'
    have ha : w.Abandons r refused ↔ refused=false := by
      constructor
      · intro ⟨hr,_⟩
        exact hr
      · intro hr
        exact ⟨hr,q,hq,by simp [hid],by simp [hld]⟩
    rw [ha]
    simp only [Abandoned,List.mem_cons]
    cases refused with
    | true => simp
    | false =>
      constructor
      · intro ⟨k,i,hm⟩
        rcases hm with hm|hm
        · cases hm
          exact .inr ⟨rfl,rfl⟩
        · exact .inl ⟨k,i,hm⟩
      · intro hm
        rcases hm with ⟨k,i,hm⟩|⟨he,-⟩
        · exact ⟨k,i,.inr hm⟩
        · subst he
          exact ⟨h,id,.inl rfl⟩

theorem step_stays (w : World) (op : Op) (r : RequestId) (hi : SilenceInv w)
    (h : w.Abandoned r) : (step w op).Abandoned r := by
  by_cases ha : ∃r b,op=.abandon r b
  · obtain ⟨r',b,rfl⟩ := ha
    exact ((abandon_abandoned w r' b).2 r).mpr (.inl h)
  · exact (abandoned_step_iff hi.wire (fun r b he => ha ⟨r,b,he⟩) r).mpr h

/-- A step that posts callbacks of one request. -/
def Posts (w w' : World) (r : RequestId) : Prop :=
  ∃new : List (Callback SearchResultProxy),w'.fired=new.map (fun c => (r,c))++w.fired

/-- Every call but that of a listener or of `abandon` posts callbacks of a new request only. -/
theorem step_posts (w : World) {op : Op} (ha : ∀r b,op≠.abandon r b)
    (hl : ∀r ev,op≠.listener r ev) :
    Posts w (step w op) w.requests.length := by
  have plain : (∃o cb lib,op=.connect o cb lib) ∨ (∃o cb refused,op=.simpleBind o cb refused) ∨
      (∃o cb lib,op=.saslBind o cb lib) → Posts w (step w op) w.requests.length := by
    intro h
    obtain ⟨async,x,hx,-,-,c,n,l,k,os,hw⟩ := plain_cases w h
    refine ⟨posts async x,?_⟩
    rw [hx,settle_fired,hw]
  cases op with
  | setUseTLS b => exact ⟨[],rfl⟩
  | setCertFile f => exact ⟨[],rfl⟩
  | connect o cb lib => exact plain (.inl ⟨o,cb,lib,rfl⟩)
  | simpleBind o cb refused => exact plain (.inr (.inl ⟨o,cb,refused,rfl⟩))
  | saslBind o cb lib => exact plain (.inr (.inr ⟨o,cb,lib,rfl⟩))
  | search o cb lib =>
    obtain ⟨os,hn⟩ := note_frame w { method := .search, callbacks := cb }
    have hx : Posts w (Search.execute { w with orphans := os } w.requests.length
        { method := .search, callbacks := cb } o lib).world w.requests.length := by
      rcases search_cases { w with orphans := os } w.requests.length
          { method := .search, callbacks := cb } o lib with
        ⟨-,hx⟩|⟨-,-,hx⟩|⟨-,-,h,s,n,a,res,-,hx,-,-⟩|⟨-,-,-,h,rq,-,hx⟩|⟨-,-,rq,e,hx⟩
      · rw [hx]
        exact ⟨_,rfl⟩
      · rw [hx]
        exact ⟨[],rfl⟩
      · rw [hx]
        exact ⟨[],rfl⟩
      · rw [hx]
        obtain ⟨pre,hf,-⟩ := sent_fired { w with orphans := os } w.requests.length
          { method := .search, callbacks := cb } h rq lib
        exact ⟨pre,hf⟩
      · rw [hx]
        obtain ⟨pre,hf,-⟩ := unsent_fired { w with orphans := os } w.requests.length
          { method := .search, callbacks := cb } rq lib
        exact ⟨pre,hf⟩
    obtain ⟨pre,hf⟩ := hx
    rw [Posts,step,sendRequest,hn,settle_fired,hf]
    exact ⟨_++pre,by rw [List.map_append,List.append_assoc]⟩
  | disconnect =>
    obtain ⟨c,l,hw⟩ := disconnect_frame w
    exact ⟨[],by rw [step,hw]; rfl⟩
  | release =>
    obtain ⟨c,l,hw⟩ := disconnect_frame w
    exact ⟨[],by rw [step,hw]; rfl⟩
  | abandon r b => exact absurd rfl (ha r b)
  | listener r ev => exact absurd rfl (hl r ev)
  | resultCall i c =>
    obtain ⟨rs,es,fs,hw⟩ := resultCall_frame w i c
    exact ⟨[],by rw [step,hw]; rfl⟩
  | entryCall i c =>
    obtain ⟨es,hw⟩ := entryCall_frame w i c
    exact ⟨[],by rw [step,hw]; rfl⟩

/-- A call of a listener posts callbacks of its own request. -/
theorem listener_posts (w : World) (r : RequestId) (ev : ListenerEvent) :
    ∃new,(step w (.listener r ev)).fired=new.map (fun c => (r,c))++w.fired ∧
      (new=[] ↔ ∀q res,w.requests[r]?=some q → ev=.searchResultReceived res →
        q.listener≠none → ¬Answers q.callbacks res) := by
  rw [step]
  cases hq : w.requests[r]? with
  | none => exact ⟨[],rfl,by simp⟩
  | some q =>
    refine ⟨reports q ev,listen_fired w r q ev,?_⟩
    rw [← not_iff_not,← ne_eq,reports_ne_nil_iff]
    cases ev <;> simp [Option.isSome_iff_ne_none]

/-- No final response of an abandoned search reaches its listener where the application waits for
its outcome, and no request is abandoned while a callback of it waits to be run. -/
def silenceGuard (s : Mailbox World) : MailboxOp Op → Prop
  | .act (.listener r (.searchResultReceived res)) => s.state.Abandoned r →
      ∀q,s.state.requests[r]?=some q → q.listener≠none → ¬Answers q.callbacks res
  | .act (.abandon r refused) => s.state.Abandons r refused → ∀c,(r,c)∉ s.unread fired
  | _ => True

/-- What a call posts may wait unless it is for an abandoned request. -/
theorem clean_act_iff {s : Mailbox World} (hc : s.Clean fired Abandoned) {op : Op}
    {r : RequestId} {new : List (Callback SearchResultProxy)}
    (hf : (step s.state op).fired=new.map (fun c => (r,c))++s.state.fired)
    (hs : ∀r,(step s.state op).Abandoned r ↔ s.state.Abandoned r) :
    (turn s (.act op)).Clean fired Abandoned ↔ (s.state.Abandoned r → new=[]) := by
  have hu : (turn s (.act op)).unread fired=new.map (fun c => (r,c))++s.unread fired :=
    Mailbox.unread_act hf
  rw [Mailbox.Clean,hu]
  constructor
  · intro h ha
    by_contra hne
    obtain ⟨c,hm⟩ := List.exists_mem_of_ne_nil new hne
    exact h r c ((hs r).mpr ha) (List.mem_append_left _ (List.mem_map_of_mem hm))
  · intro h k c hk hm
    have hk : s.state.Abandoned k := (hs k).mp hk
    rcases List.mem_append.mp hm with hm|hm
    · obtain ⟨c',hc',he⟩ := List.mem_map.mp hm
      obtain ⟨rfl,-⟩ := Prod.mk.inj he
      rw [h hk] at hc'
      cases hc'
    · exact hc k c hk hm

theorem clean_abandon_iff {s : Mailbox World} (hc : s.Clean fired Abandoned) (r : RequestId)
    (refused : Bool) :
    (turn s (.act (.abandon r refused))).Clean fired Abandoned ↔
      (s.state.Abandons r refused → ∀c,(r,c)∉ s.unread fired) := by
  obtain ⟨hf,ha⟩ := abandon_abandoned s.state r refused
  have hf : (step s.state (.abandon r refused)).fired=[]++s.state.fired := hf
  have hu : (turn s (.act (.abandon r refused))).unread fired=s.unread fired :=
    Mailbox.unread_act hf
  have hs : ∀k,(turn s (.act (.abandon r refused))).state.Abandoned k ↔
      s.state.Abandoned k ∨ (k=r ∧ s.state.Abandons r refused) := ha
  rw [Mailbox.Clean,hu]
  constructor
  · intro h hr c
    exact h r c ((hs r).mpr (.inr ⟨rfl,hr⟩))
  · intro h k c hk
    rcases (hs k).mp hk with hk|⟨rfl,hr⟩
    · exact hc k c hk
    · exact h hr c

/-- A step leaves no callback of an abandoned request waiting exactly when it meets
`silenceGuard`. -/
theorem turn_clean (s : Mailbox World) (a : MailboxOp Op) (hi : SilenceInv s.state)
    (hc : s.Clean fired Abandoned) :
    (turn s a).Clean fired Abandoned ↔ silenceGuard s a := by
  cases a with
  | take => exact iff_of_true (Mailbox.clean_take hc) trivial
  | act op =>
    by_cases ha : ∃r b,op=.abandon r b
    · obtain ⟨r,b,rfl⟩ := ha
      exact clean_abandon_iff hc r b
    have ha : ∀r b,op≠.abandon r b := fun r b he => ha ⟨r,b,he⟩
    have hs := abandoned_step_iff hi.wire ha
    by_cases hl : ∃r ev,op=.listener r ev
    · obtain ⟨r,ev,rfl⟩ := hl
      obtain ⟨new,hf,hn⟩ := listener_posts s.state r ev
      rw [clean_act_iff hc hf hs,hn]
      cases ev with
      | searchResultReceived res =>
        constructor
        · intro h hr q hq
          exact h hr q res hq rfl
        · intro h hr q res' hq he
          cases he
          exact h hr q hq
      | _ => simp [silenceGuard]
    · have hl : ∀r ev,op≠.listener r ev := fun r ev he => hl ⟨r,ev,he⟩
      obtain ⟨new,hf⟩ := step_posts s.state ha hl
      rw [clean_act_iff hc hf hs]
      apply iff_of_true
      · intro hr
        exact absurd (hr.enrolled hi.wire) (Nat.lt_irrefl _)
      · cases op with
        | abandon r b => exact absurd rfl (ha r b)
        | listener r ev => exact absurd rfl (hl r ev)
        | _ => trivial

end TiLdap.Android.World
