import TiLdap.Ios.SaslPrompts
import TiLdap.OpenLdap.Message
import Mathlib.Algebra.Ring.Nat
import Mathlib.Data.List.Forall2

namespace TiLdap

open Framework OpenLdap

namespace Ios.SaslBind

/-- The bytes that should reach a prompt: those of the option, or of the default where the option
is omitted, or none. -/
def wanted (x : Arg String × Option CString) : List UInt8 :=
  match x.1 with
  | .val s => utf8 s
  | _ => bytes x.2

/-- A prompt before and after. -/
def Answered (want : Option (List UInt8)) (p q : SaslInteract) : Prop :=
  q.id=p.id ∧ q.result=want ∧ q.len.toNat=(want.getD []).length

/-- After `execute:async:` has filled the credentials, the prompts up to the end of the list are
answered with the values they ask for, and the memory from there on is as it was. -/
def Delivers (d : SaslDefaults) (o : SaslBindOptions) (ld : Handle)
    (ps : List {p : SaslInteract // p.id≠saslCbListEnd})
    (last : {p : SaslInteract // p.id=saslCbListEnd}) (rest : List SaslInteract) : Prop :=
  ∃a qs,auth (some d) o=.ok a ∧
    ldapSaslInteract (some ld) a (ps.map Subtype.val++last.val::rest)=
      (ldapSuccess,qs++last.val::rest) ∧
    List.Forall₂ (fun p q => Answered ((source d o p.val.id).map wanted) p.val q) ps qs

/-- A value that gets through: an option without null characters, of a length that `len` holds. -/
def Whole (x : Arg String × Option CString) : Prop :=
  (∀s,x.1=.val s → nul∉ s.toList) ∧ (wanted x).length<2^32

theorem resolve_bytes (x : Arg String × Option CString) :
    bytes (resolve x.1 x.2)=wanted x ↔ ∀s,x.1=.val s → nul∉ s.toList := by
  obtain ⟨arg,default⟩ := x
  cases arg with
  | absent => simp [resolve,wanted]
  | null => simp [resolve,wanted]
  | val s =>
    have h : (CString.read (utf8 s)).bytes=utf8 s ↔ nul∉ s.toList := by
      rw [CString.read_eq_iff,zero_mem_utf8,nul]
    simpa [resolve,wanted,bytes] using h

theorem answered_put (p : SaslInteract) (x : Arg String × Option CString) :
    Answered (some (wanted x)) p (put p (resolve x.1 x.2)) ↔ Whole x := by
  have hlen : ∀n : Nat,(UInt32.ofNat n).toNat=n ↔ n<2^32 := by
    intro n
    rw [UInt32.toNat_ofNat']
    omega
  rw [Whole,← resolve_bytes]
  constructor
  · intro ⟨_,hr,hl⟩
    have hb : bytes (resolve x.1 x.2)=wanted x := Option.some.inj hr
    refine ⟨hb,?_⟩
    rw [put,hb] at hl
    exact (hlen _).mp hl
  · intro ⟨hb,hl⟩
    rw [put,hb]
    exact ⟨rfl,rfl,(hlen _).mpr hl⟩

theorem answered_answer (d : SaslDefaults) (o : SaslBindOptions) {a : MyLDAPAuth}
    (ha : auth (some d) o=.ok a) (p : SaslInteract) :
    Answered ((source d o p.id).map wanted) p (answer a p) ↔
      ∀x,source d o p.id=some x → Whole x := by
  rw [answer_eq d o ha]
  cases source d o p.id with
  | none => simp [Answered]
  | some x => simpa using answered_put p x

/-- The prompts are answered one by one. -/
theorem delivers_iff_answered {d : SaslDefaults} {o : SaslBindOptions} {a : MyLDAPAuth}
    (ha : auth (some d) o=.ok a) (ld : Handle)
    (ps : List {p : SaslInteract // p.id≠saslCbListEnd})
    (last : {p : SaslInteract // p.id=saslCbListEnd}) (rest : List SaslInteract) :
    Delivers d o ld ps last rest ↔
      ∀p∈ps,Answered ((source d o p.val.id).map wanted) p.val (answer a p.val) := by
  have hps : ∀p∈ps.map Subtype.val,p.id≠saslCbListEnd := by
    intro p hp
    obtain ⟨q,-,rfl⟩ := List.mem_map.mp hp
    exact q.property
  have hloop : ldapSaslInteract (some ld) a (ps.map Subtype.val++last.val::rest)=
      (ldapSuccess,ps.map (fun p => answer a p.val)++last.val::rest) := by
    rw [ldapSaslInteract,answerAll_append a hps last.property,List.map_map]
    rfl
  have hall : List.Forall₂ (fun p q => Answered ((source d o p.val.id).map wanted) p.val q) ps
      (ps.map fun p => answer a p.val) ↔
        ∀p∈ps,Answered ((source d o p.val.id).map wanted) p.val (answer a p.val) := by
    rw [List.forall₂_map_right_iff,List.forall₂_same]
  constructor
  · intro ⟨a',qs,ha',hi,hf⟩
    rw [ha] at ha'
    cases ha'
    rw [hloop] at hi
    rw [← List.append_cancel_right (Prod.mk.inj hi).2] at hf
    exact hall.mp hf
  · intro h
    exact ⟨a,_,ha,hloop,hall.mpr h⟩

end Ios.SaslBind

/-- Every prompt gets the value it asks for exactly when no option that a prompt asks for holds a
null character and no value asked for is too long for `len`. -/
theorem credentials_delivered_iff (d : Ios.SaslDefaults) (o : SaslBindOptions) (ld : Handle)
    (ps : List {p : Ios.SaslInteract // p.id≠Ios.saslCbListEnd})
    (last : {p : Ios.SaslInteract // p.id=Ios.saslCbListEnd}) (rest : List Ios.SaslInteract) :
    Ios.SaslBind.Delivers d o ld ps last rest ↔
      ∀p∈ps,∀x,Ios.SaslBind.source d o p.val.id=some x → Ios.SaslBind.Whole x := by
  have ha := Ios.SaslBind.auth_session d o
  rw [Ios.SaslBind.delivers_iff_answered ha]
  constructor
  · intro h p hp
    exact (Ios.SaslBind.answered_answer d o ha p.val).mp (h p hp)
  · intro h p hp
    exact (Ios.SaslBind.answered_answer d o ha p.val).mpr (h p hp)

/-- A password with a null character in it. -/
def Ios.cutPassword : SaslBindOptions := { password := .val (String.ofList ['a',nul,'b']) }

/-- A password prompt gets what stands before the null character, and its length. -/
theorem password_truncated :
    ¬Ios.SaslBind.Delivers (fun _ => none) Ios.cutPassword 0
      [⟨⟨Ios.saslCbPass,none,0⟩,by decide⟩] ⟨⟨Ios.saslCbListEnd,none,0⟩,rfl⟩ [] ∧
    (Ios.SaslBind.auth (some fun _ => none) Ios.cutPassword).map
        (fun a => Ios.SaslBind.answer a ⟨Ios.saslCbPass,none,0⟩)=
      .ok ⟨Ios.saslCbPass,some [97],1⟩ := by
  have ha := Ios.SaslBind.auth_session (fun _ => none) Ios.cutPassword
  refine ⟨?_,?_⟩
  · rw [Ios.SaslBind.delivers_iff_answered ha]
    intro h
    have hp := h _ List.mem_cons_self
    rw [Ios.SaslBind.answered_answer _ _ ha] at hp
    have hn := (hp (.val _,none) rfl).1 _ rfl
    simp at hn
  · decide

end TiLdap
