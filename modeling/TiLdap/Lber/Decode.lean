import TiLdap.Lber.Elements

namespace TiLdap.Lber

open Framework

/-- A `BerElement` that is read from: whether `ber_ptr` is still at the start of the buffer, the
octet saved from `*ber_ptr`, and what lies between `ber_ptr` and `ber_end`. -/
structure Reader where
  fresh : Bool := true
  tag : UInt8 := 0
  rest : List UInt8
  deriving DecidableEq, Repr

namespace Reader

/-- What is read: the first octet comes from `ber_tag` unless `ber_ptr` is at the start. -/
def view (b : Reader) : List UInt8 :=
  if b.fresh then b.rest
  else match b.rest with
    | [] => []
    | _::r => b.tag::r

/-- `ber_ptr` moves on, and the octet it then points to is saved. -/
def moveTo (b : Reader) (r : List UInt8) : Reader :=
  ⟨b.fresh && decide (r.length=b.rest.length),r.headD 0,r⟩

/-- The octet at `ber_ptr` is overwritten to terminate the string before it. -/
def terminate (b : Reader) : Reader :=
  { b with rest := match b.rest with
      | [] => []
      | _::r => 0::r }

end Reader

/-- The conversions of `ber_scanf`. -/
inductive Get where
  | string
  | stringOrNull
  | boolean
  | int
  | length
  | inPlace
  | null
  | octets
  | peekTag
  | skipTag
  | strings
  | vector
  | skip
  | beginSeq
  | beginSet
  | finish
  deriving DecidableEq, Repr

/-- What a conversion stores. -/
inductive Out where
  | null
  | bytes (l : List UInt8)
  | list (ls : List (List UInt8))
  | int (n : Int32)
  | length (n : Nat)
  | tag (t : Nat)
  deriving DecidableEq, Repr

/-- A step that may fail and one that goes on with its result. -/
def andThen {α β : Type} (x : Option α × Reader) (f : α → Reader → Option β × Reader) :
    Option β × Reader :=
  match x with
  | (none,b) => (none,b)
  | (some a,b) => f a b

section Functions

variable (w : Word)

def berPeekTag (b : Reader) : Option (Nat × Nat) :=
  let p := berPeekElement w b.view
  p.tag.map fun t => (t,p.len)

/-- The tag and the contents of the next element, which is passed over. -/
def berSkipElement (b : Reader) : Option (Nat × List UInt8) × Reader :=
  let p := berPeekElement w b.view
  match p.tag with
  | none => (none,b)
  | some t => (some (t,p.data.take p.len),b.moveTo (p.data.drop p.len))

/-- `ber_ptr` moves to the contents of the next element, or to where the look for it ended. -/
def berSkipTag (b : Reader) : Option (Nat × Nat) × Reader :=
  let p := berPeekElement w b.view
  (p.tag.map fun t => (t,p.len),b.moveTo p.data)

def berGetInt (b : Reader) : Option Int32 × Reader :=
  andThen (berSkipElement w b) fun x b =>
    if 4<x.2.length then (none,b) else (some (Int32.ofInt (ofSignedOctets x.2)),b)

/-- With `string`, a zero octet before the last one is an error. -/
def berGetStringbv (alloc string : Bool) (b : Reader) : Option (List UInt8) × Reader :=
  andThen (berSkipElement w b) fun x b =>
    if string=true ∧ 0∈x.2.dropLast then (none,b)
    else (some x.2,if alloc then b else b.terminate)

/-- Empty contents are a null pointer. -/
def berGetStringbvNull (b : Reader) : Option (Option (List UInt8)) × Reader :=
  andThen (berSkipElement w b) fun x b =>
    if x.2=[] then (some none,b)
    else if 0∈x.2.dropLast then (none,b) else (some (some x.2),b)

def berGetNull (b : Reader) : Option Unit × Reader :=
  andThen (berSkipTag w b) fun x b => if x.2=0 then (some (),b) else (none,b)

/-- How many elements there are up to the point with `stop` octets to go, if they end there. -/
def countElements (stop : Nat) : Nat → Reader → Nat → Option Nat
  | 0,b,i => if b.rest.length=stop then some i else none
  | k+1,b,i =>
    if stop<b.rest.length then
      match berSkipElement w b with
      | (none,_) => none
      | (some _,b) => countElements stop k b (i+1)
    else if b.rest.length=stop then some i else none

def getStrings (string : Bool) : Nat → Reader → Option (List (List UInt8)) × Reader
  | 0,b => (some [],b)
  | n+1,b => andThen (berGetStringbv w true string b) fun c b =>
      andThen (getStrings string n b) fun cs b => (some (c::cs),b)

/-- The strings of a sequence or set, counted first. -/
def berGetStringbvl (string : Bool) (b : Reader) : Option (List (List UInt8)) × Reader :=
  andThen (berSkipTag w b) fun x b =>
    match countElements w (b.rest.length-x.2) b.rest.length b 0 with
    | none => (none,b)
    | some n => getStrings w string n b

/-- A vector without elements is a null pointer. -/
def vectorOut : List (List UInt8) → Out
  | [] => .null
  | c::cs => .list (c::cs)

/-- A result as a conversion stores it. -/
def stored {α : Type} (f : α → List Out) (x : Option α × Reader) : Option (List Out) × Reader :=
  andThen x fun a b => (some (f a),b)

/-- One conversion, with the one after it: in front of a vector, the vector reads the header. -/
def berGet (next : Option Get) (b : Reader) : Get → Option (List Out) × Reader
  | .string => stored (fun c => [.bytes c]) (berGetStringbv w true true b)
  | .stringOrNull => stored (fun c => [c.elim .null .bytes]) (berGetStringbvNull w b)
  | .boolean => stored (fun n => [.int n]) (berGetInt w b)
  | .int => stored (fun n => [.int n]) (berGetInt w b)
  | .length => stored (fun p => [.length p.2]) (berPeekTag w b,b)
  | .inPlace => stored (fun c => [.bytes c]) (berGetStringbv w false false b)
  | .null => stored (fun _ => []) (berGetNull w b)
  | .octets => stored (fun c => [.bytes c]) (berGetStringbv w true false b)
  | .peekTag => stored (fun p => [.tag p.1]) (berPeekTag w b,b)
  | .skipTag => stored (fun p => [.tag p.1]) (berSkipTag w b)
  | .strings => stored (fun cs => [vectorOut cs]) (berGetStringbvl w true b)
  | .vector => stored (fun cs => [vectorOut cs]) (berGetStringbvl w false b)
  | .skip => stored (fun _ => []) (berSkipElement w b)
  | .beginSeq => if next=some .strings ∨ next=some .vector then (some [],b)
      else stored (fun _ => []) (berSkipTag w b)
  | .beginSet => if next=some .strings ∨ next=some .vector then (some [],b)
      else stored (fun _ => []) (berSkipTag w b)
  | .finish => (some [],b)

/-- What is stored before a failure is taken back. -/
def berScanf : List Get → Reader → Option (List Out) × Reader
  | [],b => (some [],b)
  | g::fmt,b => andThen (berGet w fmt.head? b g) fun os b =>
      andThen (berScanf fmt b) fun os' b => (some (os++os'),b)

end Functions

section Lemmas

variable {w : Word}

@[simp] theorem Reader.view_fresh (l : List UInt8) : (⟨true,0,l⟩ : Reader).view=l := rfl

theorem Reader.length_view (b : Reader) : b.view.length=b.rest.length := by
  rw [view]
  split
  · rfl
  · cases b.rest <;> rfl

@[simp] theorem Reader.view_moveTo (b : Reader) (r : List UInt8) : (b.moveTo r).view=r := by
  rw [view,moveTo]
  split
  · rfl
  · cases r <;> rfl

/-- Where the octet is saved, overwriting it changes nothing that is read. -/
theorem Reader.view_terminate {b : Reader} (h : b.fresh=false) : b.terminate.view=b.view := by
  obtain ⟨fresh,tag,rest⟩ := b
  cases h
  cases rest <;> rfl

theorem berPeekElement_data_lt {l r : List UInt8} {t n : Nat}
    (h : berPeekElement w l=⟨some t,n,r⟩) : r.length<l.length := by
  obtain ⟨-,-,length,-,rfl⟩ := berPeekElement_some h
  have ho := List.length_pos_iff.mpr (octets_ne_nil w.size_pos t)
  simp
  omega

/-- After an element is passed over, the reader is past the start of the buffer. -/
theorem berSkipElement_fresh {b b' : Reader} {x : Nat × List UInt8}
    (h : berSkipElement w b=(some x,b')) : b'.fresh=false := by
  rw [berSkipElement] at h
  cases ht : (berPeekElement w b.view).tag with
  | none => simp [ht] at h
  | some t =>
    simp only [ht,Prod.mk.injEq] at h
    have hd := berPeekElement_data_lt (w := w) (l := b.view)
      (r := (berPeekElement w b.view).data) (n := (berPeekElement w b.view).len) (t := t)
      (by rw [← ht])
    rw [b.length_view] at hd
    rw [← h.2,Reader.moveTo]
    simp
    omega

theorem berSkipElement_element {b : Reader} {t : Nat} {c l r : List UInt8}
    (h : Element w t c l) (hv : b.view=l++r) :
    berSkipElement w b=(some (t,c),b.moveTo r) := by
  rw [berSkipElement,hv,h.peek]
  simp

theorem berSkipTag_element {b : Reader} {t : Nat} {c l r : List UInt8} (h : Element w t c l)
    (hv : b.view=l++r) : berSkipTag w b=(some (t,c.length),b.moveTo (c++r)) := by
  rw [berSkipTag,hv,h.peek]
  rfl

theorem berPeekTag_element {b : Reader} {t : Nat} {c l r : List UInt8} (h : Element w t c l)
    (hv : b.view=l++r) : berPeekTag w b=some (t,c.length) := by
  rw [berPeekTag,hv,h.peek]
  rfl

theorem berGetInt_element {b : Reader} {t : Nat} {c l r : List UInt8} (h : Element w t c l)
    (hv : b.view=l++r) (hc : c.length≤4) :
    berGetInt w b=(some (Int32.ofInt (ofSignedOctets c)),b.moveTo r) := by
  rw [berGetInt,berSkipElement_element h hv]
  simp [andThen]
  omega

theorem berGetStringbv_element {b : Reader} {t : Nat} {c l r : List UInt8}
    (h : Element w t c l) (hv : b.view=l++r) (string : Bool)
    (hz : string=true → 0∉c.dropLast) :
    berGetStringbv w true string b=(some c,b.moveTo r) := by
  have hn : ¬(string=true ∧ 0∈c.dropLast) := fun ⟨h1,h2⟩ => hz h1 h2
  rw [berGetStringbv,berSkipElement_element h hv]
  simp only [andThen,if_neg hn,↓reduceIte]

/-- Elements in a row, by their contents. -/
inductive Elements (w : Word) : List (List UInt8) → List UInt8 → Prop
  | nil : Elements w [] []
  | cons {t : Nat} {c l : List UInt8} {cs : List (List UInt8)} {ls : List UInt8}
    (h : Element w t c l) (hs : Elements w cs ls) : Elements w (c::cs) (l++ls)

theorem countElements_elements {cs : List (List UInt8)} {l : List UInt8} (h : Elements w cs l)
    {b : Reader} {r : List UInt8} (hv : b.view=l++r) {k : Nat} (hk : l.length≤k) (i : Nat) :
    countElements w r.length k b i=some (i+cs.length) := by
  induction h generalizing b k i with
  | nil =>
    have hl : b.rest.length=r.length := by
      rw [← b.length_view,hv]
      rfl
    cases k <;> simp [countElements,hl]
  | @cons t c l cs ls h hs ih =>
    have hpos := List.length_pos_iff.mpr h.ne_nil
    have hl : b.rest.length=l.length+ls.length+r.length := by
      rw [← b.length_view,hv,List.length_append,List.length_append]
    rw [List.length_append] at hk
    obtain ⟨k,rfl⟩ := Nat.exists_eq_succ_of_ne_zero (by omega : k≠0)
    rw [List.append_assoc] at hv
    have hi := ih (b.view_moveTo (ls++r)) (k := k) (by omega) (i+1)
    rw [countElements,if_pos (by omega),berSkipElement_element h hv,List.length_cons,
      Nat.add_comm cs.length,← Nat.add_assoc]
    exact hi

theorem getStrings_elements {cs : List (List UInt8)} {l : List UInt8} (h : Elements w cs l)
    {b : Reader} {r : List UInt8} (hv : b.view=l++r) (string : Bool)
    (hz : string=true → ∀c∈cs,0∉c.dropLast) :
    ∃b',b'.view=r ∧ getStrings w string cs.length b=(some cs,b') := by
  induction h generalizing b with
  | nil => exact ⟨b,hv,rfl⟩
  | @cons t c l cs ls h hs ih =>
    rw [List.append_assoc] at hv
    have h1 := berGetStringbv_element h hv string (fun hs => hz hs c List.mem_cons_self)
    obtain ⟨b',hb,h2⟩ := ih (b.view_moveTo (ls++r))
      (fun hs d hd => hz hs d (List.mem_cons_of_mem c hd))
    refine ⟨b',hb,?_⟩
    rw [List.length_cons,getStrings,h1]
    simp only [andThen,h2]

/-- A string with a zero octet before its last one is refused, and with it the whole group. -/
theorem getStrings_refused {cs : List (List UInt8)} {l : List UInt8} (h : Elements w cs l)
    {b : Reader} {r : List UInt8} (hv : b.view=l++r) (hz : ∃c∈cs,0∈c.dropLast) :
    (getStrings w true cs.length b).1=none := by
  induction h generalizing b with
  | nil => simp at hz
  | @cons t c l cs ls h hs ih =>
    rw [List.append_assoc] at hv
    rw [List.length_cons,getStrings,berGetStringbv,berSkipElement_element h hv]
    by_cases hc : 0∈c.dropLast
    · simp [andThen,hc]
    · have hrest : ∃d∈cs,0∈d.dropLast := by simpa [hc] using hz
      have hi := ih (b.view_moveTo (ls++r)) hrest
      simp only [andThen,hc,and_false,if_false,if_true]
      split
      · rfl
      · rename_i heq
        rw [heq] at hi
        cases hi

/-- The strings of a group of elements are their contents. -/
theorem berGetStringbvl_element {b : Reader} {t : Nat} {c l r : List UInt8}
    {cs : List (List UInt8)} (h : Element w t c l) (hc : Elements w cs c) (hv : b.view=l++r)
    (string : Bool) (hz : string=true → ∀c∈cs,0∉c.dropLast) :
    ∃b',b'.view=r ∧ berGetStringbvl w string b=(some cs,b') := by
  have hlen : (b.moveTo (c++r)).rest.length=c.length+r.length := by simp [Reader.moveTo]
  have hcount := countElements_elements hc (b.view_moveTo (c++r)) (k := c.length+r.length)
    (by omega) 0
  rw [Nat.zero_add] at hcount
  obtain ⟨b',hb,hg⟩ := getStrings_elements hc (b.view_moveTo (c++r)) string hz
  refine ⟨b',hb,?_⟩
  rw [berGetStringbvl,berSkipTag_element h hv]
  simp only [andThen,hlen,Nat.add_sub_cancel_left,hcount,hg]

theorem berGetStringbvl_refused {b : Reader} {t : Nat} {c l r : List UInt8}
    {cs : List (List UInt8)} (h : Element w t c l) (hc : Elements w cs c) (hv : b.view=l++r)
    (hz : ∃c∈cs,0∈c.dropLast) : (berGetStringbvl w true b).1=none := by
  have hlen : (b.moveTo (c++r)).rest.length=c.length+r.length := by simp [Reader.moveTo]
  have hcount := countElements_elements hc (b.view_moveTo (c++r)) (k := c.length+r.length)
    (by omega) 0
  rw [Nat.zero_add] at hcount
  rw [berGetStringbvl,berSkipTag_element h hv]
  simp only [andThen,hlen,Nat.add_sub_cancel_left,hcount]
  exact getStrings_refused hc (b.view_moveTo (c++r)) hz

end Lemmas

section Termination

variable {w : Word}

/-- A conversion that copies a string instead of terminating it where it lies. -/
def Get.copying : Get → Get
  | .inPlace => .octets
  | g => g

/-- Two results with the same value after which the same is read. -/
def Alike {α : Type} (x y : Option α × Reader) : Prop := x.1=y.1 ∧ x.2.view=y.2.view

theorem Alike.andThen {α β : Type} {x y : Option α × Reader} (h : Alike x y)
    {f g : α → Reader → Option β × Reader}
    (hfg : ∀a b c,x=(some a,b) → b.view=c.view → Alike (f a b) (g a c)) :
    Alike (andThen x f) (Lber.andThen y g) := by
  obtain ⟨u,b⟩ := x
  obtain ⟨v,c⟩ := y
  obtain ⟨h1,h2⟩ := h
  cases h1
  cases u with
  | none => exact ⟨rfl,h2⟩
  | some a => exact hfg a b c rfl h2

theorem Alike.stored {α : Type} {x y : Option α × Reader} (h : Alike x y) (f : α → List Out) :
    Alike (stored f x) (Lber.stored f y) := h.andThen fun _ _ _ _ hv => ⟨rfl,hv⟩

theorem berSkipElement_alike {b c : Reader} (h : b.view=c.view) :
    Alike (berSkipElement w b) (berSkipElement w c) := by
  rw [berSkipElement,berSkipElement,← h]
  cases (berPeekElement w b.view).tag with
  | none => exact ⟨rfl,h⟩
  | some t => exact ⟨rfl,by simp⟩

theorem berSkipTag_alike {b c : Reader} (h : b.view=c.view) :
    Alike (berSkipTag w b) (berSkipTag w c) := by
  rw [berSkipTag,berSkipTag,← h]
  exact ⟨rfl,by simp⟩

theorem berGetInt_alike {b c : Reader} (h : b.view=c.view) :
    Alike (berGetInt w b) (berGetInt w c) := by
  apply (berSkipElement_alike h).andThen
  intro x b' c' _ hv
  split
  · exact ⟨rfl,hv⟩
  · exact ⟨rfl,hv⟩

/-- A string is the same whether it is copied or terminated where it lies. -/
theorem berGetStringbv_alike {b c : Reader} (h : b.view=c.view) (alloc string : Bool) :
    Alike (berGetStringbv w alloc string b) (berGetStringbv w true string c) := by
  apply (berSkipElement_alike h).andThen
  intro x b' c' hs hv
  split
  · exact ⟨rfl,hv⟩
  · refine ⟨rfl,?_⟩
    cases alloc with
    | false => exact (Reader.view_terminate (berSkipElement_fresh hs)).trans hv
    | true => exact hv

theorem berGetStringbvNull_alike {b c : Reader} (h : b.view=c.view) :
    Alike (berGetStringbvNull w b) (berGetStringbvNull w c) := by
  apply (berSkipElement_alike h).andThen
  intro x b' c' _ hv
  split
  · exact ⟨rfl,hv⟩
  · split
    · exact ⟨rfl,hv⟩
    · exact ⟨rfl,hv⟩

theorem berGetNull_alike {b c : Reader} (h : b.view=c.view) :
    Alike (berGetNull w b) (berGetNull w c) := by
  apply (berSkipTag_alike h).andThen
  intro x b' c' _ hv
  split
  · exact ⟨rfl,hv⟩
  · exact ⟨rfl,hv⟩

theorem length_rest_eq {b c : Reader} (h : b.view=c.view) : b.rest.length=c.rest.length := by
  rw [← b.length_view,h,c.length_view]

theorem countElements_alike {b c : Reader} (h : b.view=c.view) (stop k i : Nat) :
    countElements w stop k b i=countElements w stop k c i := by
  induction k generalizing b c i with
  | zero => rw [countElements,countElements,length_rest_eq h]
  | succ k ih =>
    obtain ⟨h1,h2⟩ := berSkipElement_alike (w := w) h
    rw [countElements,countElements,length_rest_eq h]
    cases hb : berSkipElement w b with
    | mk x b' =>
      cases hc : berSkipElement w c with
      | mk y c' =>
        rw [hb,hc] at h1 h2
        cases h1
        cases x with
        | none => rfl
        | some x => simp only [ih h2 (i+1)]

theorem getStrings_alike {b c : Reader} (h : b.view=c.view) (string : Bool) (n : Nat) :
    Alike (getStrings w string n b) (getStrings w string n c) := by
  induction n generalizing b c with
  | zero => exact ⟨rfl,h⟩
  | succ n ih =>
    apply (berGetStringbv_alike h true string).andThen
    intro x b' c' _ hv
    apply (ih hv).andThen
    intro xs b'' c'' _ hv'
    exact ⟨rfl,hv'⟩

theorem berGetStringbvl_alike {b c : Reader} (h : b.view=c.view) (string : Bool) :
    Alike (berGetStringbvl w string b) (berGetStringbvl w string c) := by
  apply (berSkipTag_alike h).andThen
  intro x b' c' _ hv
  rw [length_rest_eq hv,countElements_alike hv]
  cases countElements w (c'.rest.length-x.2) c'.rest.length c' 0 with
  | none => exact ⟨rfl,hv⟩
  | some n => exact getStrings_alike hv string n

/-- The conversions that look at the next one see no difference. -/
theorem head?_map_copying (fmt : List Get) (g : Get) (hg : g=.strings ∨ g=.vector) :
    (fmt.map Get.copying).head?=some g ↔ fmt.head?=some g := by
  cases fmt with
  | nil => simp
  | cons f fmt =>
    rcases hg with rfl|rfl
    · cases f <;> simp [Get.copying]
    · cases f <;> simp [Get.copying]

theorem berGet_alike {b c : Reader} (h : b.view=c.view) (fmt : List Get) (g : Get) :
    Alike (berGet w fmt.head? b g) (berGet w (fmt.map Get.copying).head? c g.copying) := by
  have hp : berPeekTag w b=berPeekTag w c := by rw [berPeekTag,berPeekTag,h]
  have hbegin : Alike (if fmt.head?=some .strings ∨ fmt.head?=some .vector then (some [],b)
        else stored (fun _ => []) (berSkipTag w b))
      (if (fmt.map Get.copying).head?=some .strings ∨ (fmt.map Get.copying).head?=some .vector
        then (some [],c) else stored (fun _ => []) (berSkipTag w c)) := by
    simp only [head?_map_copying fmt .strings (.inl rfl),
      head?_map_copying fmt .vector (.inr rfl)]
    split
    · exact ⟨rfl,h⟩
    · exact (berSkipTag_alike h).stored _
  cases g with
  | string => exact (berGetStringbv_alike h true true).stored _
  | stringOrNull => exact (berGetStringbvNull_alike h).stored _
  | boolean => exact (berGetInt_alike h).stored _
  | int => exact (berGetInt_alike h).stored _
  | length => exact Alike.stored ⟨hp,h⟩ _
  | inPlace => exact (berGetStringbv_alike h false false).stored _
  | null => exact (berGetNull_alike h).stored _
  | octets => exact (berGetStringbv_alike h true false).stored _
  | peekTag => exact Alike.stored ⟨hp,h⟩ _
  | skipTag => exact (berSkipTag_alike h).stored _
  | strings => exact (berGetStringbvl_alike h true).stored _
  | vector => exact (berGetStringbvl_alike h false).stored _
  | skip => exact (berSkipElement_alike h).stored _
  | beginSeq => exact hbegin
  | beginSet => exact hbegin
  | finish => exact ⟨rfl,h⟩

/-- A format stores the same, and leaves the same to read, whether its strings are copied or
terminated where they lie. -/
theorem berScanf_alike {b c : Reader} (h : b.view=c.view) (fmt : List Get) :
    Alike (berScanf w fmt b) (berScanf w (fmt.map Get.copying) c) := by
  induction fmt generalizing b c with
  | nil => exact ⟨rfl,h⟩
  | cons g fmt ih =>
    apply (berGet_alike h fmt g).andThen
    intro os b' c' _ hv
    apply (ih hv).andThen
    intro os' b'' c'' _ hv'
    exact ⟨rfl,hv'⟩

end Termination

end TiLdap.Lber
