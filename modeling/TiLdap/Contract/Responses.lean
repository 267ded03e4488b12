import TiLdap.OpenLdap.Survival

namespace TiLdap

open Framework Lber OpenLdap

/-- The operations that a program abandons in some of its calls. -/
def AbandonedIn (calls : List LdCall) (m : Nat) : Prop := ∃es,LdCall.abandon es m∈calls

theorem abandons_abandonedIn {calls : List LdCall} {c : LdCall} (hc : c∈calls) :
    Abandons (AbandonedIn calls) c := by
  rintro es m rfl
  exact ⟨es,hc⟩

section Sessions

variable (w : Word) (version : Nat) (referrals restart : Bool) (refhoplimit : Int)
  (calls : List LdCall)

/-- Where the calls of a program take a new session. -/
def session : Ld := run (ldStep w) (ldapCreate version referrals restart refhoplimit) calls

theorem orderly_session : Orderly (session w version referrals restart refhoplimit calls) :=
  (orderly_ldapCreate version referrals restart refhoplimit).run calls

theorem accounted_session : Accounted (AbandonedIn calls) []
    (session w version referrals restart refhoplimit calls) :=
  (accounted_ldapCreate _ version referrals restart refhoplimit).run
    (orderly_ldapCreate version referrals restart refhoplimit) fun _ => abandons_abandonedIn

/-- Whatever the server sends and however the program asks for it, as long as no referral has to be
followed over a new connection: no message of an operation that the program does not abandon is lost
or handed out twice, and those of a search are handed out in order. -/
theorem responses_delivered (m : Nat) (hm : 0< m) (hA : ¬AbandonedIn calls m) :
    let ld := session w version referrals restart refhoplimit calls
    (mine m ld.returned++queued m ld.responses).Perm (mine m ld.accepted) ∧
      ((∀x∈mine m ld.accepted,searchType x.msgtype=true) →
        mine m ld.returned++queued m ld.responses=mine m ld.accepted) := by
  intro ld
  have ha := accounted_session w version referrals restart refhoplimit calls
  have hp := ha.perm m hm hA
  have ho := ha.order m hm hA
  rw [List.append_nil] at hp ho
  exact ⟨hp,ho⟩

end Sessions

/-- A message on the only connection, and what becomes of the referrals in it. -/
def message (contents : List UInt8) (hops : List Hop) : Read := ⟨0,.element 0x30 contents hops⟩

/-- The entry and the result of the search under an id, both without contents. -/
def entryFor (id : UInt8) : Read := message [2,1,id,0x64,4,4,0,0x30,0] []

def resultFor (id : UInt8) : Read := message [2,1,id,0x65,7,0xa,1,0,4,0,4,0] []

/-- A URL of twelve octets as the only referral of a result. -/
def referralTo (url : String) : List UInt8 := [0xa3,14,4,12]++utf8 url

/-- Two searches whose messages come in turn. The one that is waited for ends in a referral, which
is followed over the connection that there is. -/
def interleaved : List LdCall := [.request true ⟨true,true⟩,.request true ⟨true,true⟩,
  .result 1 .msgAll [.ready [entryFor 1,entryFor 2,
    message ([2,1,1,0x65,23,0xa,1,0xa,4,0,4,0]++referralTo "ldap://a/o=b") [.request ⟨true,true⟩],
    entryFor 3,resultFor 3] false false]]

theorem abandonedIn_interleaved (m : Nat) : ¬AbandonedIn interleaved m := by
  simp [AbandonedIn,interleaved]

theorem responses_delivered_interleaved :
    let ld := session .long8 3 true false 5 interleaved
    (mine 1 ld.returned).length=3 ∧
      (mine 1 ld.returned++queued 1 ld.responses).Perm (mine 1 ld.accepted) ∧
      ((∀x∈mine 1 ld.accepted,searchType x.msgtype=true) →
        mine 1 ld.returned++queued 1 ld.responses=mine 1 ld.accepted) :=
  ⟨by rfl,responses_delivered .long8 3 true false 5 interleaved 1 (by decide)
    (abandonedIn_interleaved 1)⟩

/-- Whatever the server sends, also through referrals over the connections that there are: a message
is only made for an id that was given out, of the messages for one operation only the last can be
one that ends it, and when that is there, no request is left on behalf of the operation. -/
theorem only_last_ends (w : Word) (version : Nat) (referrals restart : Bool) (refhoplimit : Int)
    (calls : List LdCall) (m : Nat) (hm : 0< m) :
    let ld := session w version referrals restart refhoplimit calls
    (mine m ld.accepted≠[] → m≤ ld.msgid) ∧
      (∀x∈(mine m ld.accepted).dropLast,openType x.msgtype=true) ∧
      ((∃x∈mine m ld.accepted,openType x.msgtype=false) → ∀r∈ld.requests,r.origid≠m) := by
  intro ld
  have h := orderly_session w version referrals restart refhoplimit calls
  refine ⟨fun hne => (h.known m hm hne).1,h.last m hm,?_⟩
  rintro ⟨x,hx,ho⟩
  exact h.final m hm x hx ho

theorem only_last_ends_interleaved :
    let ld := session .long8 3 true false 5 interleaved
    (mine 1 ld.accepted).length=3 ∧ (mine 1 ld.accepted≠[] → 1≤ ld.msgid) ∧
      (∀x∈(mine 1 ld.accepted).dropLast,openType x.msgtype=true) ∧
      ((∃x∈mine 1 ld.accepted,openType x.msgtype=false) → ∀r∈ld.requests,r.origid≠1) :=
  ⟨by rfl,only_last_ends .long8 3 true false 5 interleaved 1 (by decide)⟩

/-- A list of which only the last can be marked, and one is. -/
theorem dropLast_concat_of {α : Type*} {p : α → Bool} {l : List α}
    (h : ∀x∈l.dropLast,p x=true) (hx : ∃x∈l,p x=false) :
    ∃d f,l=d++[f] ∧ p f=false ∧ ∀x∈d,p x=true := by
  obtain ⟨x,hx,hp⟩ := hx
  have hne : l≠[] := List.ne_nil_of_mem hx
  have hl := List.dropLast_append_getLast hne
  refine ⟨l.dropLast,l.getLast hne,hl.symm,?_,h⟩
  rw [← hl] at hx
  rcases List.mem_append.mp hx with hx|hx
  · rw [h x hx] at hp
    cases hp
  · rw [← List.mem_singleton.mp hx]
    exact hp

/-- A program that only asks for whole responses to a search is given nothing of one or all of it
at once: the data in order, and the result that ends them. -/
theorem whole_response (w : Word) (version : Nat) (referrals restart : Bool) (refhoplimit : Int)
    (calls : List LdCall) (m : Nat) (hm : 0< m) (hA : ¬AbandonedIn calls m)
    (hall : ∀c∈calls,AsksForAll m c) :
    let ld := session w version referrals restart refhoplimit calls
    (∀x∈mine m ld.accepted,searchType x.msgtype=true) → mine m ld.returned=[] ∨
      mine m ld.returned=mine m ld.accepted ∧ (∀r∈ld.requests,r.origid≠m) ∧
      ∃data final,mine m ld.returned=data++[final] ∧ openType final.msgtype=false ∧
        ∀x∈data,openType x.msgtype=true := by
  intro ld hs
  have h₀ := orderly_ldapCreate version referrals restart refhoplimit
  have ha₀ := accounted_ldapCreate (AbandonedIn calls) version referrals restart refhoplimit
  have h := orderly_session w version referrals restart refhoplimit calls
  have ha := accounted_session w version referrals restart refhoplimit calls
  have hw : Whole m ld := Whole.run (fun _ => .inl rfl) ha₀ h₀ hm hA
    fun c hc => ⟨abandons_abandonedIn hc,hall c hc⟩
  refine (hw hs).imp_right ?_
  rintro ⟨hq,x,hx,ho⟩
  have horder := ha.order m hm hA hs
  have heq : mine m ld.returned=mine m ld.accepted := by
    rw [List.append_nil] at horder
    rw [← horder,hq,List.append_nil]
  rw [heq] at hx ⊢
  exact ⟨rfl,h.final m hm x hx ho,dropLast_concat_of (h.last m hm) ⟨x,hx,ho⟩⟩

theorem whole_response_interleaved :
    let ld := session .long8 3 true false 5 interleaved
    (mine 1 ld.returned).length=3 ∧
    ((∀x∈mine 1 ld.accepted,searchType x.msgtype=true) → mine 1 ld.returned=[] ∨
      mine 1 ld.returned=mine 1 ld.accepted ∧ (∀r∈ld.requests,r.origid≠1) ∧
      ∃data final,mine 1 ld.returned=data++[final] ∧ openType final.msgtype=false ∧
        ∀x∈data,openType x.msgtype=true) :=
  ⟨by rfl,whole_response .long8 3 true false 5 interleaved 1 (by decide)
    (abandonedIn_interleaved 1) (by simp [interleaved,AsksForAll])⟩

/-- Once a program has abandoned an operation of its own, with or without the server being told,
nothing that the server sends for it is made into a message or handed out, in any run from there
on. -/
theorem abandoned_silent (w : Word) (version : Nat) (referrals restart : Bool) (refhoplimit : Int)
    (before after : List LdCall) (es : List AbandonSent) (m : Nat) (hm : 0< m)
    (hid : m≤(session w version referrals restart refhoplimit before).msgid)
    (hroot : ∀r∈(session w version referrals restart refhoplimit before).requests,
      r.msgid=m → r.parent=none) :
    let ld := session w version referrals restart refhoplimit before
    let ld' := session w version referrals restart refhoplimit (before++.abandon es m::after)
    mine m ld'.accepted=mine m ld.accepted ∧ mine m ld'.returned=mine m ld.returned ∧
      queued m ld'.responses=[] ∧ ∀r∈ld'.requests,r.origid≠m := by
  intro ld ld'
  have h := orderly_session w version referrals restart refhoplimit before
  have hs := h.abandon_gone es hm hid hroot
  have hrun : ld'=run (ldStep w) (ldStep w ld (.abandon es m)) after := by
    show run _ _ _=_
    rw [run_append,run_cons]
    rfl
  obtain ⟨⟨-,hcl,hq⟩,hacc,hret⟩ := Silent.run (w := w) hs (h.abandon es m) hm after
  rw [List.append_nil] at hret
  rw [hrun]
  exact ⟨hacc,hret,hq,hcl⟩

/-- A search that is on its way through a referral. -/
def referred : List LdCall := [.request true ⟨true,true⟩,
  .result 1 .msgAll [.ready [entryFor 1,
    message ([2,1,1,0x65,23,0xa,1,0xa,4,0,4,0]++referralTo "ldap://a/o=b") [.request ⟨true,true⟩]]
    false true]]

theorem abandoned_silent_referred :
    let ld := session .long8 3 true false 5 referred
    let ld' := session .long8 3 true false 5 (referred++.abandon [.sent] 1::
      [.result (-1) .msgOne [.ready [entryFor 2,resultFor 2] false true]])
    ld.requests.length=2 ∧ mine 1 ld'.accepted=mine 1 ld.accepted ∧
      mine 1 ld'.returned=mine 1 ld.returned ∧ queued 1 ld'.responses=[] ∧
      ∀r∈ld'.requests,r.origid≠1 :=
  ⟨by rfl,abandoned_silent .long8 3 true false 5 referred _ [.sent] 1 (by decide)
    (by decide) (by decide)⟩

/-- The ids that are abandoned are kept in order, so that the bisection tells whether an id is one
of them. An operation is only taken for abandoned if the program abandoned it or nothing can come
for it any more. -/
theorem abandoned_iff (w : Word) (version : Nat) (referrals restart : Bool) (refhoplimit : Int)
    (calls : List LdCall) :
    let ld := session w version referrals restart refhoplimit calls
    Ascending ld.abandoned ∧ (∀m,ldapAbandoned ld m=true ↔ m∈ld.abandoned) ∧
      ∀m,0< m → ldapAbandoned ld m=true → AbandonedIn calls m ∨
        (∀r∈ld.requests,r.origid≠m) ∧ queued m ld.responses=[] := by
  intro ld
  have h := orderly_session w version referrals restart refhoplimit calls
  have ha := accounted_session w version referrals restart refhoplimit calls
  have hiff : ∀m,ldapAbandoned ld m=true ↔ m∈ld.abandoned := by
    intro m
    rw [ldapAbandoned,bisectFind_eq h.ascending]
    exact decide_eq_true_iff
  refine ⟨h.ascending,hiff,?_⟩
  intro m hm hab
  exact (ha.struck m hm ((hiff m).mp hab)).imp_right And.right

/-- No answer to a request brings the library down, be it malformed or full of referrals. What can
is a message with the id 0, which the server sends without being asked, the last assertion of
`ber_get_next`, and a connection that is read again after an element came in on it which is no
message. -/
theorem crash_has_cause (w : Word) (version : Nat) (referrals restart : Bool)
    (refhoplimit : Int) (calls : List LdCall) (msgid : Int) (all : LdapMsg)
    (rounds : List Round)
    (hc : (ldapResultOf w msgid all rounds
      (session w version referrals restart refhoplimit calls)).1=.crash) :
    ∃r∈rounds,r.Has fun q => q.Unsolicited w ∨ q.arrival=.broken ∨
      ∃x∈calls,x.Has (·.Misread q.conn) := by
  have h := orderly_session w version referrals restart refhoplimit calls
  obtain ⟨r,hr,hf⟩ := (ldapResultOf_fate h rfl).crash hc
  refine ⟨r,hr,hf.mono ?_⟩
  intro q hq
  refine hq.imp_right (Or.imp_right ?_)
  intro hs
  rcases stuck_run (orderly_ldapCreate version referrals restart refhoplimit) calls _ hs with hs|hs
  · cases hs
  · exact hs

/-- A notification with a referral, for which there is no request to send again. -/
def notification : Round :=
  .ready [message ([2,1,0,0x78,23,0xa,1,0xa,4,0,4,0]++referralTo "ldap://a/???")
    [.request ⟨true,true⟩]] false false

/-- A string where a message is expected. -/
def misread : List LdCall :=
  [.request true ⟨true,true⟩,.result 1 .msgAll [.ready [⟨0,.element 4 [0x61] []⟩] false false]]

theorem crash_has_cause_both :
    ((ldapResultOf .long8 1 .msgOne [notification]
        (session .long8 3 true false 5 interleaved)).1=.crash ∧
      ∃r∈[notification],r.Has fun q => q.Unsolicited .long8 ∨ q.arrival=.broken ∨
        ∃x∈interleaved,x.Has (·.Misread q.conn)) ∧
    (ldapResultOf .long8 1 .msgOne [.ready [resultFor 1] false false]
        (session .long8 3 true false 5 misread)).1=.crash ∧
      ∃r∈[Round.ready [resultFor 1] false false],r.Has fun q => q.Unsolicited .long8 ∨
        q.arrival=.broken ∨ ∃x∈misread,x.Has (·.Misread q.conn) :=
  ⟨⟨by rfl,crash_has_cause .long8 3 true false 5 interleaved 1 .msgOne [notification] (by rfl)⟩,
    by rfl,crash_has_cause .long8 3 true false 5 misread 1 .msgOne _ (by rfl)⟩

end TiLdap
