import Mathlib.Algebra.Ring.Nat
import Mathlib.Algebra.Ring.Int.Defs
import Mathlib.Data.Fintype.Basic
import Mathlib.Data.List.Basic

namespace TiLdap.Framework

/-- A decidable property of octets can be checked on each of them. -/
theorem forall_octet {P : UInt8 → Prop} (h : ∀n : Fin 256,P (UInt8.ofFin n)) (b : UInt8) : P b :=
  h b.toFin

theorem and_0x80_eq_zero (b : UInt8) : b &&& 0x80=0 ↔ b.toNat<128 := by
  revert b
  apply forall_octet
  decide +kernel

theorem toNat_and_0x7f (b : UInt8) : (b &&& 0x7f).toNat=b.toNat%128 := by
  revert b
  apply forall_octet
  decide +kernel

theorem toNat_xor_0x80 (b : UInt8) : ((b ^^^ 0x80).toNat : Int)-0x80=
    if b.toNat<128 then (b.toNat : Int) else b.toNat-256 := by
  revert b
  apply forall_octet
  decide +kernel

theorem toNat_xor_0xff (b : UInt8) : (0xff ^^^ b).toNat=255-b.toNat := by
  revert b
  apply forall_octet
  decide +kernel

@[simp] theorem ofNat_toNat_octet (b : UInt8) : UInt8.ofNat b.toNat=b := by
  rw [← UInt8.toNat_inj,UInt8.toNat_ofNat']
  have hb := b.toNat_lt
  omega

section Unsigned

/-- The number with these octets, the most significant one first. -/
def ofOctets (l : List UInt8) : Nat := l.foldl (fun n b => n*256+b.toNat) 0

@[simp] theorem ofOctets_nil : ofOctets []=0 := rfl

@[simp] theorem ofOctets_concat (l : List UInt8) (b : UInt8) :
    ofOctets (l++[b])=ofOctets l*256+b.toNat := by
  simp [ofOctets]

theorem ofOctets_lt (l : List UInt8) : ofOctets l<256^l.length := by
  induction l using List.reverseRecOn with
  | nil => simp
  | append_singleton l b ih =>
    have hb := b.toNat_lt
    rw [ofOctets_concat,List.length_append,List.length_singleton,pow_succ]
    omega

/-- The octets of `n` in front of a list, from the least significant one on: at least one and at
most as many as the first argument says. -/
def octetsOnto : Nat → Nat → List UInt8 → List UInt8
  | 0,_,l => l
  | k+1,n,l =>
    if n/256=0 then UInt8.ofNat n::l else octetsOnto k (n/256) (UInt8.ofNat n::l)

def octets (k n : Nat) : List UInt8 := octetsOnto k n []

theorem octetsOnto_eq (k n : Nat) (l : List UInt8) : octetsOnto k n l=octets k n++l := by
  induction k generalizing n l with
  | zero => rfl
  | succ k ih =>
    rw [octets,octetsOnto,octetsOnto]
    split
    · rfl
    · rw [ih,ih _ [UInt8.ofNat n],List.append_assoc]
      rfl

theorem octets_succ (k n : Nat) :
    octets (k+1) n=if n/256=0 then [UInt8.ofNat n] else octets k (n/256)++[UInt8.ofNat n] := by
  rw [octets,octetsOnto,octetsOnto_eq]

theorem octets_ne_nil {k : Nat} (hk : 0<k) (n : Nat) : octets k n≠[] := by
  obtain ⟨k,rfl⟩ := Nat.exists_eq_succ_of_ne_zero (Nat.ne_of_gt hk)
  rw [octets_succ]
  split <;> simp

theorem ofOctets_octets {k n : Nat} (h : n<256^k) : ofOctets (octets k n)=n := by
  induction k generalizing n with
  | zero =>
    have hn : n=0 := by simpa using h
    rw [hn]
    rfl
  | succ k ih =>
    rw [octets_succ]
    split
    · rename_i h0
      simp [ofOctets]
      omega
    · have hd : n/256<256^k := Nat.div_lt_of_lt_mul (by rw [pow_succ] at h; omega)
      rw [ofOctets_concat,ih hd,UInt8.toNat_ofNat']
      omega

theorem length_octets_le_of_lt {k j n : Nat} (hj : 0<j) (h : n<256^j) :
    (octets k n).length≤j := by
  induction k generalizing n j with
  | zero => simp [octets,octetsOnto]
  | succ k ih =>
    rw [octets_succ]
    split
    · exact hj
    · rename_i h0
      obtain ⟨j,rfl⟩ := Nat.exists_eq_succ_of_ne_zero (Nat.ne_of_gt hj)
      have hd : n/256<256^j := Nat.div_lt_of_lt_mul (by rw [pow_succ] at h; omega)
      have hj' : 0<j := by
        rcases Nat.eq_zero_or_pos j with rfl|hp
        · simp at hd
          omega
        · exact hp
      have hl := ih hj' hd
      simp
      omega

theorem length_octets_le (k n : Nat) : (octets k n).length≤k := by
  induction k generalizing n with
  | zero => simp [octets,octetsOnto]
  | succ k ih =>
    rw [octets_succ]
    split
    · simp
    · have hl := ih (n/256)
      simp
      omega

/-- Octets without a leading zero are those of their number. -/
theorem octets_ofOctets {k : Nat} {b : UInt8} {l : List UInt8} (hb : b≠0)
    (hk : l.length<k) : octets k (ofOctets (b::l))=b::l := by
  induction l using List.reverseRecOn generalizing k with
  | nil =>
    obtain ⟨k,rfl⟩ := Nat.exists_eq_succ_of_ne_zero (Nat.ne_of_gt hk)
    have hl := b.toNat_lt
    have hd : b.toNat/256=0 := by omega
    simp [octets_succ,ofOctets,hd]
  | append_singleton l c ih =>
    rw [List.length_append,List.length_singleton] at hk
    obtain ⟨k,rfl⟩ := Nat.exists_eq_succ_of_ne_zero (Nat.ne_of_gt (by omega : 0<k))
    have hpos : ofOctets (b::l)≠0 := by
      intro h0
      have hi := ih (k := l.length+1) (by omega)
      rw [h0] at hi
      have hz : octets (l.length+1) 0=[0] := by simp [octets_succ]
      rw [hz] at hi
      exact hb (List.cons.inj hi).1.symm
    have hc := c.toNat_lt
    rw [← List.cons_append,ofOctets_concat,octets_succ]
    have hd : (ofOctets (b::l)*256+c.toNat)/256=ofOctets (b::l) := by omega
    rw [hd,if_neg hpos,ih (by omega)]
    have hm : UInt8.ofNat (ofOctets (b::l)*256+c.toNat)=c := by
      rw [← UInt8.toNat_inj,UInt8.toNat_ofNat']
      omega
    rw [hm]

/-- The octets of a number in a field of fixed width. -/
def fixedOctets : Nat → Nat → List UInt8
  | 0,_ => []
  | k+1,n => fixedOctets k (n/256)++[UInt8.ofNat n]

@[simp] theorem length_fixedOctets (k n : Nat) : (fixedOctets k n).length=k := by
  induction k generalizing n with
  | zero => rfl
  | succ k ih => simp [fixedOctets,ih]

theorem ofOctets_fixedOctets {k n : Nat} (h : n<256^k) : ofOctets (fixedOctets k n)=n := by
  induction k generalizing n with
  | zero =>
    have hn : n=0 := by simpa using h
    rw [hn]
    rfl
  | succ k ih =>
    have hd : n/256<256^k := Nat.div_lt_of_lt_mul (by rw [pow_succ] at h; omega)
    rw [fixedOctets,ofOctets_concat,ih hd,UInt8.toNat_ofNat']
    omega

end Unsigned

section Signed

/-- The number with these octets in two's complement; no octets stand for zero. -/
def ofSignedOctets : List UInt8 → Int
  | [] => 0
  | b::l => l.foldl (fun n b => n*256+b.toNat) (((b ^^^ 0x80).toNat : Int)-0x80)

theorem ofSignedOctets_concat {l : List UInt8} (hl : l≠[]) (b : UInt8) :
    ofSignedOctets (l++[b])=ofSignedOctets l*256+b.toNat := by
  cases l with
  | nil => exact absurd rfl hl
  | cons a l => simp [ofSignedOctets]

theorem ofSignedOctets_bounds (l : List UInt8) :
    -(128*256^(l.length-1) : Int)≤ofSignedOctets l ∧
      ofSignedOctets l<128*256^(l.length-1) := by
  induction l using List.reverseRecOn with
  | nil => simp [ofSignedOctets]
  | append_singleton l b ih =>
    have hb := b.toNat_lt
    cases l with
    | nil =>
      have hs : ofSignedOctets ([]++[b])=
          if b.toNat<128 then (b.toNat : Int) else b.toNat-256 := toNat_xor_0x80 b
      rw [hs]
      simp only [List.nil_append,List.length_singleton,Nat.sub_self,pow_zero]
      split <;> omega
    | cons a l =>
      rw [ofSignedOctets_concat (by simp)]
      simp only [List.length_append,List.length_cons,List.length_nil,Nat.add_sub_cancel,
        Nat.zero_add] at ih ⊢
      have hp : (256 : Int)^(l.length+1)=256^l.length*256 := pow_succ _ _
      rw [hp]
      omega

/-- The octets of `n` under a sign in front of a list, until the top bit of an octet is the
sign. -/
def signedOnto (sign : UInt8) : Nat → Nat → List UInt8 → List UInt8
  | 0,_,l => l
  | k+1,n,l =>
    let l := (sign ^^^ UInt8.ofNat n)::l
    if n<128 then l else signedOnto sign k (n/256) l

/-- A negative number is written as the complement of the octets of its complement. -/
def signedOctets (k : Nat) (n : Int) : List UInt8 :=
  if n<0 then signedOnto 0xff k (-n-1).toNat [] else signedOnto 0 k n.toNat []

theorem signedOnto_eq (sign : UInt8) (k n : Nat) (l : List UInt8) :
    signedOnto sign k n l=signedOnto sign k n []++l := by
  induction k generalizing n l with
  | zero => rfl
  | succ k ih =>
    simp only [signedOnto]
    split
    · rfl
    · rw [ih,ih _ [_],List.append_assoc]
      rfl

theorem signedOnto_succ (sign : UInt8) (k n : Nat) : signedOnto sign (k+1) n []=
    if n<128 then [sign ^^^ UInt8.ofNat n]
    else signedOnto sign k (n/256) []++[sign ^^^ UInt8.ofNat n] := by
  rw [signedOnto]
  split
  · rfl
  · exact signedOnto_eq _ _ _ _

theorem signedOnto_ne_nil (sign : UInt8) {k : Nat} (hk : 0<k) (n : Nat) :
    signedOnto sign k n []≠[] := by
  obtain ⟨k,rfl⟩ := Nat.exists_eq_succ_of_ne_zero (Nat.ne_of_gt hk)
  rw [signedOnto_succ]
  split <;> simp

theorem length_signedOnto_le_of_lt (sign : UInt8) {k j n : Nat} (h : n<128*256^j) :
    (signedOnto sign k n []).length≤j+1 := by
  induction k generalizing n j with
  | zero => simp [signedOnto]
  | succ k ih =>
    rw [signedOnto_succ]
    split
    · simp
    · cases j with
      | zero => omega
      | succ j =>
        have hd : n/256<128*256^j := Nat.div_lt_of_lt_mul (by rw [pow_succ] at h; omega)
        have hl := ih hd
        simp
        omega

theorem length_signedOnto_le (sign : UInt8) (k n : Nat) : (signedOnto sign k n []).length≤k := by
  induction k generalizing n with
  | zero => simp [signedOnto]
  | succ k ih =>
    rw [signedOnto_succ]
    split
    · simp
    · have hl := ih (n/256)
      simp
      omega

/-- The number that the octets under a sign stand for, given by what one octet stands for and by
what one more octet does. -/
theorem ofSignedOctets_signedOnto {sign : UInt8} {v : Nat → Int}
    (h0 : ∀n<128,ofSignedOctets [sign ^^^ UInt8.ofNat n]=v n)
    (hs : ∀n,v (n/256)*256+((sign ^^^ UInt8.ofNat n).toNat : Int)=v n) {k n : Nat}
    (h : n<128*256^k) : ofSignedOctets (signedOnto sign (k+1) n [])=v n := by
  induction k generalizing n with
  | zero =>
    have hn : n<128 := by simpa using h
    rw [signedOnto_succ,if_pos hn,h0 n hn]
  | succ k ih =>
    rw [signedOnto_succ]
    split
    · rename_i hn
      exact h0 n hn
    · have hd : n/256<128*256^k := Nat.div_lt_of_lt_mul (by rw [pow_succ] at h; omega)
      rw [ofSignedOctets_concat (signedOnto_ne_nil _ (by omega) _),ih hd,hs]

theorem ofSignedOctets_signedOctets {k : Nat} {n : Int} (hl : -(128*256^k : Int)≤n)
    (hu : n<128*256^k) : ofSignedOctets (signedOctets (k+1) n)=n := by
  have hp : ((128*256^k : Nat) : Int)=128*256^k := by push_cast; rfl
  rw [signedOctets]
  split
  · rename_i hn
    have hm : (-n-1).toNat<128*256^k := by omega
    rw [ofSignedOctets_signedOnto (v := fun n => -(n : Int)-1) ?_ ?_ hm]
    · omega
    · intro m hm
      change ((0xff ^^^ UInt8.ofNat m ^^^ 0x80).toNat : Int)-0x80= -(m : Int)-1
      rw [toNat_xor_0x80,toNat_xor_0xff,UInt8.toNat_ofNat']
      split <;> omega
    · intro m
      simp only [toNat_xor_0xff,UInt8.toNat_ofNat']
      omega
  · have hm : n.toNat<128*256^k := by omega
    rw [ofSignedOctets_signedOnto (v := fun n => (n : Int)) ?_ ?_ hm]
    · omega
    · intro m hm
      rw [UInt8.zero_xor]
      change ((UInt8.ofNat m ^^^ 0x80).toNat : Int)-0x80=m
      rw [toNat_xor_0x80,UInt8.toNat_ofNat']
      split <;> omega
    · intro m
      rw [UInt8.zero_xor,UInt8.toNat_ofNat']
      omega

theorem length_signedOctets_le (k : Nat) (n : Int) : (signedOctets k n).length≤k := by
  rw [signedOctets]
  split <;> exact length_signedOnto_le _ _ _

/-- No octets that stand for a number are fewer than those it is written with. -/
theorem length_signedOctets_ofSignedOctets {l : List UInt8} (hl : l≠[]) (k : Nat) :
    (signedOctets k (ofSignedOctets l)).length≤l.length := by
  obtain ⟨h1,h2⟩ := ofSignedOctets_bounds l
  have hpos := List.length_pos_iff.mpr hl
  have hp : ((128*256^(l.length-1) : Nat) : Int)=128*256^(l.length-1) := by push_cast; rfl
  have hb : ∀sign (m : Nat),m<128*256^(l.length-1) →
      (signedOnto sign k m []).length≤l.length := by
    intro sign m hm
    have h := length_signedOnto_le_of_lt sign (k := k) hm
    omega
  rw [signedOctets]
  split
  · exact hb _ _ (by omega)
  · exact hb _ _ (by omega)

end Signed

end TiLdap.Framework
