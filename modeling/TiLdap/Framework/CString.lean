import Mathlib.Data.List.TakeWhile
import Mathlib.Data.List.Flatten

namespace TiLdap.Framework

/-- The UTF-8 form of a string. -/
def utf8 (s : String) : List UInt8 := s.toList.flatMap String.utf8EncodeChar

/-- Only the null character has a zero byte in its encoding. -/
theorem zero_mem_utf8EncodeChar (c : Char) :
    0∈String.utf8EncodeChar c ↔ c=Char.ofNat 0 := by
  have byte : ∀n : Nat,n<256 → ((0 : UInt8)=UInt8.ofNat n ↔ n=0) := by
    intro n hn
    rw [← UInt8.toNat_inj,UInt8.toNat_ofNat_of_lt' hn]
    simp [eq_comm]
  have hc : c=Char.ofNat 0 ↔ c.val.toNat=0 := by
    rw [← Char.toNat_inj]
    rfl
  rw [hc]
  fun_cases String.utf8EncodeChar c with
  | case1 v h =>
    rw [List.mem_singleton,byte _ (by omega)]
  | case2 v h1 h2 =>
    simp only [List.mem_cons,List.not_mem_nil,or_false]
    rw [byte _ (by omega),byte _ (by omega)]
    omega
  | case3 v h1 h2 h3 =>
    simp only [List.mem_cons,List.not_mem_nil,or_false]
    rw [byte _ (by omega),byte _ (by omega),byte _ (by omega)]
    omega
  | case4 v h1 h2 h3 =>
    simp only [List.mem_cons,List.not_mem_nil,or_false]
    rw [byte _ (by omega),byte _ (by omega),byte _ (by omega),byte _ (by omega)]
    omega

theorem zero_mem_utf8 (s : String) : 0∈utf8 s ↔ Char.ofNat 0∈s.toList := by
  rw [utf8,List.mem_flatMap]
  constructor
  · intro ⟨c,hc,h0⟩
    rw [zero_mem_utf8EncodeChar] at h0
    exact h0 ▸ hc
  · intro h
    exact ⟨_,h,(zero_mem_utf8EncodeChar _).mpr rfl⟩

/-- `tolower` in the C locale. -/
def toLowerOctet (c : UInt8) : UInt8 := if 0x41≤c ∧ c≤0x5a then c+0x20 else c

/-- Whether `strcasecmp` finds two strings equal. -/
def strcaseeq (a b : List UInt8) : Bool := a.map toLowerOctet==b.map toLowerOctet

theorem toLowerOctet_of_le {c : UInt8} (h : 0x80≤c) : toLowerOctet c=c := by
  rw [toLowerOctet,if_neg]
  rintro ⟨-,h2⟩
  have h3 := UInt8.le_iff_toNat_le.mp h
  have h4 := UInt8.le_iff_toNat_le.mp h2
  have h5 : (0x80 : UInt8).toNat=128 := rfl
  have h6 : (0x5a : UInt8).toNat=90 := rfl
  omega

/-- The encoding of a character past ASCII has no ASCII octet. -/
theorem le_of_mem_utf8EncodeChar {c : Char} (h : 128≤c.val.toNat) {x : UInt8}
    (hx : x∈String.utf8EncodeChar c) : 0x80≤x := by
  have byte : ∀n : Nat,n<256 → 128≤n → (0x80 : UInt8)≤UInt8.ofNat n := by
    intro n hn hle
    rw [UInt8.le_iff_toNat_le,UInt8.toNat_ofNat_of_lt' hn]
    exact hle
  revert hx
  fun_cases String.utf8EncodeChar c with
  | case1 v h1 => omega
  | case2 v h1 h2 =>
    simp only [List.mem_cons,List.not_mem_nil,or_false]
    rintro (rfl|rfl) <;> exact byte _ (by omega) (by omega)
  | case3 v h1 h2 h3 =>
    simp only [List.mem_cons,List.not_mem_nil,or_false]
    rintro (rfl|rfl|rfl) <;> exact byte _ (by omega) (by omega)
  | case4 v h1 h2 h3 =>
    simp only [List.mem_cons,List.not_mem_nil,or_false]
    rintro (rfl|rfl|rfl|rfl) <;> exact byte _ (by omega) (by omega)

theorem map_toLowerOctet_utf8EncodeChar (c : Char) :
    (String.utf8EncodeChar c).map toLowerOctet=String.utf8EncodeChar c.toLower := by
  by_cases h : c.val.toNat<128
  · have hall : ∀n : Fin 128,(String.utf8EncodeChar (Char.ofNat n)).map toLowerOctet=
        String.utf8EncodeChar (Char.ofNat n).toLower := by decide
    have hc : Char.ofNat c.val.toNat=c := Char.ofNat_toNat c
    have hn := hall ⟨c.val.toNat,h⟩
    rwa [hc] at hn
  · have hle : 128≤c.val.toNat := Nat.le_of_not_lt h
    have hl : c.toLower=c := by
      refine dif_neg ?_
      rintro ⟨-,h2⟩
      have hz := UInt32.le_iff_toNat_le.mp h2
      have h90 : 'Z'.val.toNat=90 := rfl
      omega
    rw [hl]
    have hid : (String.utf8EncodeChar c).map toLowerOctet=(String.utf8EncodeChar c).map id :=
      List.map_congr_left fun x hx => toLowerOctet_of_le (le_of_mem_utf8EncodeChar hle hx)
    rw [hid,List.map_id]

theorem utf8_toLower (s : String) : utf8 s.toLower=(utf8 s).map toLowerOctet := by
  change utf8 (s.map Char.toLower)=_
  rw [utf8,utf8,String.toList_map,List.map_flatMap,List.flatMap_map]
  exact congrArg (fun f => List.flatMap f s.toList)
    (funext fun c => (map_toLowerOctet_utf8EncodeChar c).symm)

theorem utf8_inj {a b : String} : utf8 a=utf8 b ↔ a=b := by
  refine ⟨?_,congrArg utf8⟩
  intro h
  have henc : a.toList.utf8Encode=b.toList.utf8Encode := congrArg List.toByteArray h
  rw [← String.toByteArray_ofList,← String.toByteArray_ofList,String.toByteArray_inj,
    String.ofList_toList,String.ofList_toList] at henc
  exact henc

/-- Names are compared alike as strings and as octets. -/
theorem strcaseeq_utf8 (a b : String) : strcaseeq (utf8 a) (utf8 b)=(a.toLower==b.toLower) := by
  rw [strcaseeq,← utf8_toLower,← utf8_toLower,Bool.eq_iff_iff,beq_iff_eq,beq_iff_eq,utf8_inj]

/-- The bytes of a zero-terminated string, without the terminator. -/
structure CString where
  bytes : List UInt8
  zero_not_mem : 0∉bytes

namespace CString

/-- What is read at a pointer to these bytes and a terminator. -/
def read (bytes : List UInt8) : CString where
  bytes := bytes.takeWhile (·≠0)
  zero_not_mem := by
    intro h
    simpa using List.mem_takeWhile_imp h

theorem read_eq_iff (b : List UInt8) : (read b).bytes=b ↔ 0∉b := by
  rw [read,List.takeWhile_eq_self_iff]
  constructor
  · intro h h0
    simpa using h 0 h0
  · intro h x hx
    have hne : x≠0 := fun he => h (he ▸ hx)
    simpa using hne

end CString

section Search

variable {α : Type} [DecidableEq α]

/-- What stands before and after the first place where `c` stands, as with `strchr`. -/
def cut (c : α) : List α → Option (List α × List α)
  | [] => none
  | d::s => if d=c then some ([],s) else (cut c s).map fun x => (d::x.1,x.2)

theorem cut_eq_some_iff {c : α} {s a r : List α} : cut c s=some (a,r) ↔ s=a++c::r ∧ c∉a := by
  induction s generalizing a with
  | nil => simp [cut]
  | cons d s ih =>
    rw [cut]
    split
    · rename_i hd
      constructor
      · intro h
        cases h
        exact ⟨by simp [hd],by simp⟩
      · intro ⟨h,hc⟩
        cases a with
        | nil =>
          cases h
          rfl
        | cons e a =>
          cases h
          simp [hd] at hc
    · rename_i hd
      rw [Option.map_eq_some_iff]
      constructor
      · rintro ⟨⟨a',r'⟩,hx,he⟩
        cases he
        obtain ⟨rfl,hc⟩ := ih.mp hx
        exact ⟨rfl,by simp [hc,Ne.symm hd]⟩
      · intro ⟨h,hc⟩
        cases a with
        | nil =>
          cases h
          exact absurd rfl hd
        | cons e a =>
          cases h
          exact ⟨(a,r),ih.mpr ⟨rfl,fun hm => hc (List.mem_cons_of_mem _ hm)⟩,rfl⟩

theorem cut_eq_none_iff {c : α} {s : List α} : cut c s=none ↔ c∉s := by
  induction s with
  | nil => simp [cut]
  | cons d s ih =>
    rw [cut]
    split
    · rename_i hd
      simp [hd]
    · rename_i hd
      simp [ih,Ne.symm hd]

end Search

end TiLdap.Framework
