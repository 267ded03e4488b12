import TiLdap.Lber.Elements

namespace TiLdap.Lber

open Framework

/-- How far a message is read. The octets of its header are kept until the length is known;
`tag` holds the tag and how many octets it took, once it is known. -/
inductive Stage where
  | idle
  | header (tag : Option (Nat × Nat)) (got : List UInt8)
  | body (tag len : Nat) (got : List UInt8)
  deriving DecidableEq, Repr

/-- What a call comes to: a message, a call to be repeated, an error (`ERANGE`), or the assertion
at the end. -/
inductive Got where
  | message (tag : Nat) (contents : List UInt8)
  | again
  | range
  | broken
  deriving DecidableEq, Repr

/-- A part of the header: not there yet, not acceptable, or read. -/
inductive Scan (α : Type) where
  | again
  | range
  | done (a : α)
  deriving DecidableEq, Repr

/-- `LENSIZE`. -/
def lensize : Nat := 4

/-- What is read when `avail` octets have arrived and `want` are asked for, and what is left. -/
def berIntSbRead (avail want : Nat) (input : List UInt8) : List UInt8 × List UInt8 :=
  (input.take (min avail want),input.drop (min avail want))

section Functions

variable (w : Word)

/-- The octets of a tag after the first one; the next of them is number `i`, and `tag` stands for
those before it. -/
def scanMoreTag : List UInt8 → Nat → Nat → Scan (Nat × Nat)
  | [],_,_ => .again
  | b::l,i,tag =>
    if b &&& 0x80=0 then if l=[] then .again else .done (tag*256+b.toNat,i+1)
    else if i=w.size-1 then .range
    else scanMoreTag l (i+1) (tag*256+b.toNat)

def scanTag : List UInt8 → Scan (Nat × Nat)
  | [] => .again
  | b::l => if b &&& 0x1f=0x1f then scanMoreTag w l 1 b.toNat else .done (b.toNat,1)

/-- The length and how many octets it took. -/
def scanLength : List UInt8 → Scan (Nat × Nat)
  | [] => .again
  | b::l =>
    if b &&& 0x80=0 then .done (b.toNat,1)
    else
      let llen := (b &&& 0x7f).toNat
      if lensize<llen then .range
      else if l.length<llen then .again
      else .done (ofOctets (l.take llen),1+llen)

def readBody (avail tag len : Nat) (got input : List UInt8) : Got × Stage × List UInt8 :=
  let x := berIntSbRead avail (len-got.length) input
  if x.1=[] then (.again,.body tag len got,x.2)
  else if x.1.length<len-got.length then (.again,.body tag len (got++x.1),x.2)
  else (.message tag (got++x.1),.idle,x.2)

-- Zero for no limit.
variable (maxIncoming : Nat)

/-- Once the length is known, what was read beyond the header is the start of the contents. -/
def beginBody (avail tag len : Nat) (got input : List UInt8) : Got × Stage × List UInt8 :=
  if len=0 then (.range,.idle,input)
  else if maxIncoming≠0 ∧ maxIncoming<len then (.range,.idle,input)
  else if len<got.length then (.range,.idle,input)
  else if got.length=len then (.message tag got,.idle,input)
  else readBody avail tag len got input

/-- Up to eight octets are read at first, and a ninth one only if it takes it. -/
def readHeader (avail : Nat × Nat) (tag : Option (Nat × Nat)) (got input : List UInt8) :
    Got × Stage × List UInt8 :=
  let x := berIntSbRead avail.1 (max 1 (2*lensize-got.length)) input
  if x.1=[] then (.again,.header tag got,x.2)
  else
    let got := got++x.1
    match (match tag with
      | none => scanTag w got
      | some y => .done y) with
    | .again => (.again,.header none got,x.2)
    | .range => (.range,.header none got,x.2)
    | .done (tag,p) =>
      match scanLength (got.drop p) with
      | .again => (.again,.header (some (tag,p)) got,x.2)
      | .range => (.range,.header (some (tag,p)) got,x.2)
      | .done (len,n) => beginBody maxIncoming avail.2 tag len (got.drop (p+n)) x.2

/-- `ber_get_next` on what has arrived: `avail` bounds what its first and second read get. -/
def berGetNext (avail : Nat × Nat) (s : Stage) (input : List UInt8) :
    Got × Stage × List UInt8 :=
  match s with
  | .idle => readHeader w maxIncoming avail none [] input
  | .header tag got =>
    if got.length<1+2*lensize then readHeader w maxIncoming avail tag got input
    else (.broken,.header tag got,input)
  | .body tag len got => readBody avail.1 tag len got input

/-- Call after call, until one of them is an error: the messages, and how it ends. -/
def berGetAll : List (Nat × Nat) → Stage → List UInt8 →
    List (Nat × List UInt8) × Got × Stage × List UInt8
  | [],s,input => ([],.again,s,input)
  | avail::avails,s,input =>
    match berGetNext w maxIncoming avail s input with
    | (.message tag contents,s,input) =>
      let x := berGetAll avails s input
      ((tag,contents)::x.1,x.2)
    | (.again,s,input) => berGetAll avails s input
    | (.range,s,input) => ([],.range,s,input)
    | (.broken,s,input) => ([],.broken,s,input)

end Functions

/-- A message that can be read wherever it stands in a stream: a valid tag, a length of at most five
octets in a header of at most nine, contents that are there and within the limit, and not less than
the eight octets that are read at first. -/
structure Frame (w : Word) (maxIncoming : Nat) where
  tag : Nat
  contents : List UInt8
  length : List UInt8
  validTag : validTag w tag=true
  lengthForm : LengthForm w contents.length length
  length_le : length.length≤1+lensize
  contents_ne_nil : contents≠[]
  incoming : maxIncoming≠0 → contents.length≤ maxIncoming
  header_le : (octets w.size tag).length+length.length≤1+2*lensize
  bytes_le : 2*lensize≤(octets w.size tag).length+length.length+contents.length

namespace Frame

variable {w : Word} {maxIncoming : Nat}

def header (f : Frame w maxIncoming) : List UInt8 := octets w.size f.tag++f.length

def bytes (f : Frame w maxIncoming) : List UInt8 := f.header++f.contents

def stream (fs : List (Frame w maxIncoming)) : List UInt8 := fs.flatMap bytes

end Frame

section Lemmas

variable {w : Word} {maxIncoming : Nat}

theorem berIntSbRead_append (avail want : Nat) (input : List UInt8) :
    (berIntSbRead avail want input).1++(berIntSbRead avail want input).2=input :=
  List.take_append_drop _ _

theorem length_berIntSbRead_le (avail want : Nat) (input : List UInt8) :
    (berIntSbRead avail want input).1.length≤want := by
  simp [berIntSbRead]

/-- A tag is read once there is an octet after it. -/
theorem scanMoreTag_continued {l : List UInt8} (hl : continued l=true) {p : List UInt8}
    (hs : p.length+l.length≤w.size) {g r : List UInt8} (hg : g<+:l++r) :
    (scanMoreTag w g p.length (ofOctets p)=.again ∧ g.length≤l.length) ∨
    (scanMoreTag w g p.length (ofOctets p)=.done (ofOctets (p++l),p.length+l.length) ∧
      l.length≤g.length) := by
  induction l generalizing p g with
  | nil => cases hl
  | cons b l ih =>
    cases g with
    | nil => exact .inl ⟨rfl,by simp⟩
    | cons c g =>
      obtain ⟨rfl,hg'⟩ := List.cons_prefix_cons.mp hg
      rw [scanMoreTag]
      cases l with
      | nil =>
        have hb : c &&& 0x80=0 := by simpa [continued] using hl
        rw [if_pos hb]
        split
        · rename_i hnil
          exact .inl ⟨rfl,by simp [hnil]⟩
        · exact .inr ⟨by simp,by simp⟩
      | cons d l =>
        rw [continued_cons (by simp),Bool.and_eq_true,decide_eq_true_eq] at hl
        have hp := ih hl.2 (p := p++[c]) (by simp at hs ⊢; omega) hg'
        simp only [List.length_cons] at hs
        rw [if_neg hl.1,if_neg (by omega)]
        simp only [List.length_append,List.length_singleton,ofOctets_concat,List.append_assoc,
          List.singleton_append] at hp
        rcases hp with ⟨h1,h2⟩|⟨h1,h2⟩
        · exact .inl ⟨h1,by simp at h2 ⊢; omega⟩
        · refine .inr ⟨?_,by simp at h2 ⊢; omega⟩
          rw [h1]
          simp only [List.length_cons]
          congr 2
          omega

theorem scanTag_prefix {t : Nat} (ht : validTag w t=true) {g r : List UInt8}
    (hg : g<+:octets w.size t++r) :
    (scanTag w g=.again ∧ g.length≤(octets w.size t).length) ∨
    (scanTag w g=.done (t,(octets w.size t).length) ∧ (octets w.size t).length≤g.length) := by
  rw [validTag,Bool.and_eq_true,decide_eq_true_eq] at ht
  obtain ⟨hlt,ht⟩ := ht
  have hv := ofOctets_octets hlt
  have hlen := length_octets_le w.size t
  cases g with
  | nil => exact .inl ⟨rfl,by simp⟩
  | cons c g =>
    cases ho : octets w.size t with
    | nil => exact absurd ho (octets_ne_nil w.size_pos t)
    | cons b l =>
      rw [ho] at hg ht hv hlen
      obtain ⟨rfl,hg'⟩ := List.cons_prefix_cons.mp hg
      rw [scanTag]
      simp only at ht
      split at ht
      · rename_i hb
        have h := scanMoreTag_continued (w := w) ht (p := [c]) (by simp at hlen ⊢; omega) hg'
        rw [if_pos hb]
        simp only [List.length_singleton,List.singleton_append,hv] at h
        have hc : ofOctets [c]=c.toNat := by simp [ofOctets]
        rw [hc] at h
        rcases h with ⟨h1,h2⟩|⟨h1,h2⟩
        · exact .inl ⟨h1,by simpa using h2⟩
        · exact .inr ⟨by rw [h1,List.length_cons,Nat.add_comm],by simpa using h2⟩
      · rename_i hb
        have hl : l=[] := by simpa using ht
        subst hl
        rw [if_neg hb]
        refine .inr ⟨?_,by simp⟩
        rw [← hv]
        simp [ofOctets]

theorem LengthForm.length_pos {n : Nat} {l : List UInt8} (h : LengthForm w n l) :
    0<l.length := by cases h <;> simp

theorem scanLength_prefix {n : Nat} {length : List UInt8} (hl : LengthForm w n length)
    (h4 : length.length≤1+lensize) {g r : List UInt8} (hg : g<+:length++r) :
    (scanLength g=.again ∧ g.length<length.length) ∨
    (scanLength g=.done (n,length.length) ∧ length.length≤g.length) := by
  cases g with
  | nil =>
    refine .inl ⟨rfl,?_⟩
    cases hl <;> simp
  | cons c g =>
    cases hl with
    | short h =>
      obtain ⟨rfl,hg'⟩ := List.cons_prefix_cons.mp hg
      have hb : UInt8.ofNat n &&& 0x80=0 := by
        rw [and_0x80_eq_zero,UInt8.toNat_ofNat']
        omega
      rw [scanLength,if_pos hb,UInt8.toNat_ofNat']
      refine .inr ⟨?_,by simp⟩
      congr 2
      omega
    | long l hne hs hv =>
      obtain ⟨rfl,hg'⟩ := List.cons_prefix_cons.mp hg
      obtain ⟨hb,hn⟩ := longForm_octet (List.length_pos_iff.mpr hne) hs
      simp only [List.length_cons] at h4
      rw [scanLength,if_neg hb]
      simp only [hn,List.length_cons]
      rw [if_neg (by omega)]
      split
      · rename_i hlt
        exact .inl ⟨rfl,by omega⟩
      · rename_i hlt
        have htake : g.take l.length=l :=
          (List.prefix_of_prefix_length_le ((List.take_prefix _ _).trans hg')
            (List.prefix_append l r) (by simp)).eq_of_length (by simp; omega)
        refine .inr ⟨?_,by omega⟩
        rw [htake,hv,Nat.add_comm]

end Lemmas

section Delivery

variable {w : Word} {maxIncoming : Nat}

/-- The stage and the input hold these messages and nothing else. -/
inductive Holds : Stage → List UInt8 → List (Frame w maxIncoming) → Prop
  | idle (fs : List (Frame w maxIncoming)) : Holds .idle (Frame.stream fs) fs
  | waiting : Holds (.header none []) [] []
  | header (f : Frame w maxIncoming) (fs : List (Frame w maxIncoming))
      {tag : Option (Nat × Nat)} {got input : List UInt8}
      (htag : tag=none ∨ tag=some (f.tag,(octets w.size f.tag).length))
      (hlen : got.length<f.header.length) (heq : got++input=f.bytes++Frame.stream fs) :
      Holds (.header tag got) input (f::fs)
  | body (f : Frame w maxIncoming) (fs : List (Frame w maxIncoming)) {got input : List UInt8}
      (hlen : got.length<f.contents.length) (heq : got++input=f.contents++Frame.stream fs) :
      Holds (.body f.tag f.contents.length got) input (f::fs)

/-- A call either reads a part of the first message or delivers it. -/
inductive Reached (fs : List (Frame w maxIncoming)) : Got × Stage × List UInt8 → Prop
  | again {s : Stage} {input : List UInt8} (h : Holds s input fs) : Reached fs (.again,s,input)
  | message (f : Frame w maxIncoming) {fs' : List (Frame w maxIncoming)} (hfs : fs=f::fs') :
      Reached fs (.message f.tag f.contents,.idle,Frame.stream fs')

theorem readBody_reached (f : Frame w maxIncoming) (fs : List (Frame w maxIncoming))
    {got input : List UInt8} (hlen : got.length<f.contents.length)
    (heq : got++input=f.contents++Frame.stream fs) (avail : Nat) :
    Reached (f::fs) (readBody avail f.tag f.contents.length got input) := by
  have hx := berIntSbRead_append avail (f.contents.length-got.length) input
  have hle := length_berIntSbRead_le avail (f.contents.length-got.length) input
  rw [readBody]
  generalize berIntSbRead avail (f.contents.length-got.length) input=y at hx hle ⊢
  obtain ⟨x,rest⟩ := y
  simp only at hx hle ⊢
  rw [← hx] at heq
  split
  · rename_i h
    subst h
    exact .again (.body f fs hlen (by simpa using heq))
  · split
    · rename_i h
      exact .again (.body f fs (by simp; omega) (by simpa using heq))
    · rename_i h
      rw [← List.append_assoc] at heq
      obtain ⟨h1,h2⟩ := List.append_inj heq (by simp; omega)
      rw [h1,h2]
      exact .message f rfl

/-- What is read first does not reach beyond the first message. -/
theorem Frame.read_le (f : Frame w maxIncoming) {got : List UInt8}
    (hlen : got.length<f.header.length) :
    got.length+max 1 (2*lensize-got.length)≤f.bytes.length := by
  have h1 := f.header_le
  have h2 := f.bytes_le
  have h3 := List.length_pos_iff.mpr f.contents_ne_nil
  simp only [Frame.header,Frame.bytes,List.length_append,lensize] at *
  omega

theorem beginBody_reached (f : Frame w maxIncoming) (fs : List (Frame w maxIncoming))
    {got input : List UInt8} (hlen : got.length≤f.contents.length)
    (heq : got++input=f.contents++Frame.stream fs) (avail : Nat) :
    Reached (f::fs) (beginBody maxIncoming avail f.tag f.contents.length got input) := by
  have hpos := List.length_pos_iff.mpr f.contents_ne_nil
  have hmax := f.incoming
  rw [beginBody,if_neg (by omega),if_neg (by intro h; have := hmax h.1; omega),
    if_neg (by omega)]
  split
  · rename_i h
    obtain ⟨h1,h2⟩ := List.append_inj heq h
    rw [h1,h2]
    exact .message f rfl
  · exact readBody_reached f fs (by omega) heq avail

theorem readHeader_reached (f : Frame w maxIncoming) (fs : List (Frame w maxIncoming))
    {tag : Option (Nat × Nat)} {got input : List UInt8}
    (htag : tag=none ∨ tag=some (f.tag,(octets w.size f.tag).length))
    (hlen : got.length<f.header.length) (heq : got++input=f.bytes++Frame.stream fs)
    (avail : Nat × Nat) : Reached (f::fs) (readHeader w maxIncoming avail tag got input) := by
  have hread := f.read_le hlen
  have hx := berIntSbRead_append avail.1 (max 1 (2*lensize-got.length)) input
  have hle := length_berIntSbRead_le avail.1 (max 1 (2*lensize-got.length)) input
  rw [readHeader]
  generalize berIntSbRead avail.1 (max 1 (2*lensize-got.length)) input=y at hx hle ⊢
  obtain ⟨x,rest⟩ := y
  simp only at hx hle ⊢
  rw [← hx,← List.append_assoc] at heq
  split
  · rename_i h
    subst h
    exact .again (.header f fs htag hlen (by simpa using heq))
  · generalize hg : got++x=g at heq ⊢
    have hprefix : g<+:f.bytes := by
      apply List.prefix_of_prefix_length_le (List.prefix_append g rest)
        (heq ▸ List.prefix_append _ _)
      rw [← hg,List.length_append]
      omega
    have hbytes : f.bytes=octets w.size f.tag++(f.length++f.contents) := by
      simp [Frame.bytes,Frame.header]
    have hheader : f.header.length=(octets w.size f.tag).length+f.length.length := by
      simp [Frame.header]
    have hpos := f.lengthForm.length_pos
    have hscan : ((match tag with
          | none => scanTag w g
          | some y => .done y)=.again ∧ g.length≤(octets w.size f.tag).length) ∨
        (match tag with
          | none => scanTag w g
          | some y => .done y)=.done (f.tag,(octets w.size f.tag).length) := by
      rcases htag with rfl|rfl
      · rcases scanTag_prefix f.validTag (hbytes ▸ hprefix) with h|⟨h,-⟩
        · exact .inl h
        · exact .inr h
      · exact .inr rfl
    rcases hscan with ⟨h,hle⟩|h
    · rw [h]
      exact .again (.header f fs (.inl rfl) (by omega) heq)
    · rw [h]
      have hdrop : g.drop (octets w.size f.tag).length<+:f.length++f.contents := by
        have h := hprefix.drop (octets w.size f.tag).length
        rwa [hbytes,List.drop_left'] at h
        rfl
      simp only
      rcases scanLength_prefix f.lengthForm f.length_le hdrop with ⟨h,hle⟩|⟨h,hle⟩
      · rw [h]
        rw [List.length_drop] at hle
        exact .again (.header f fs (.inr rfl) (by omega) heq)
      · rw [h]
        rw [List.length_drop] at hle
        have hrest := congrArg (List.drop f.header.length) heq
        rw [List.drop_append_of_le_length (by omega),Frame.bytes,List.append_assoc,
          List.drop_left' rfl,hheader] at hrest
        refine beginBody_reached f fs ?_ hrest _
        have hg := hprefix.length_le
        rw [hbytes] at hg
        simp only [List.length_append] at hg
        rw [List.length_drop]
        omega

/-- Before anything of a message is read. -/
theorem readHeader_stream (fs : List (Frame w maxIncoming)) (avail : Nat × Nat) :
    Reached fs (readHeader w maxIncoming avail none [] (Frame.stream fs)) := by
  cases fs with
  | nil =>
    have hx : readHeader w maxIncoming avail none [] []=(.again,.header none [],[]) := by
      simp [readHeader,berIntSbRead]
    exact hx ▸ .again .waiting
  | cons f fs =>
    have hpos := f.lengthForm.length_pos
    refine readHeader_reached f fs (.inl rfl) ?_ ?_ avail
    · simp only [Frame.header,List.length_append,List.length_nil]
      omega
    · simp [Frame.stream]

/-- What a call does with a stream of messages. -/
theorem berGetNext_reached {s : Stage} {input : List UInt8} {fs : List (Frame w maxIncoming)}
    (h : Holds s input fs) (avail : Nat × Nat) :
    Reached fs (berGetNext w maxIncoming avail s input) := by
  cases h with
  | idle => exact readHeader_stream fs avail
  | waiting => exact readHeader_stream [] avail
  | @header f fs tag got input htag hlen heq =>
    have hle := f.header_le
    simp only [Frame.header,List.length_append] at hlen
    rw [berGetNext,if_pos (by omega)]
    exact readHeader_reached f fs htag (by simpa [Frame.header] using hlen) heq avail
  | body f fs hlen heq => exact readBody_reached f fs hlen heq avail.1

theorem readBody_input (avail tag len : Nat) (got input : List UInt8) :
    (readBody avail tag len got input).2.2=input.drop (min avail (len-got.length)) := by
  rw [readBody,berIntSbRead]
  split
  · rfl
  · split <;> rfl

theorem beginBody_input (avail tag len : Nat) (got input : List UInt8) :
    (beginBody maxIncoming avail tag len got input).2.2.length≤ input.length := by
  rw [beginBody]
  split
  · exact Nat.le_refl _
  · split
    · exact Nat.le_refl _
    · split
      · exact Nat.le_refl _
      · split
        · exact Nat.le_refl _
        · rw [readBody_input,List.length_drop]
          omega

/-- What has arrived is read, if only in part. -/
theorem readHeader_input {avail : Nat × Nat} (ha : 0<avail.1) (tag : Option (Nat × Nat))
    (got : List UInt8) {input : List UInt8} (hi : input≠[]) :
    (readHeader w maxIncoming avail tag got input).2.2.length< input.length := by
  have hpos := List.length_pos_iff.mpr hi
  have hd : (input.drop (min avail.1 (max 1 (2*lensize-got.length)))).length< input.length := by
    rw [List.length_drop]
    omega
  rw [readHeader,berIntSbRead]
  split
  · exact hd
  · dsimp only
    split
    · exact hd
    · exact hd
    · split
      · exact hd
      · exact hd
      · exact Nat.lt_of_le_of_lt (beginBody_input _ _ _ _ _) hd

theorem Holds.progress {s : Stage} {input : List UInt8} {fs : List (Frame w maxIncoming)}
    (h : Holds s input fs) {avail : Nat × Nat} (ha : 0<avail.1) (hi : input≠[]) :
    (berGetNext w maxIncoming avail s input).2.2.length< input.length := by
  have hpos := List.length_pos_iff.mpr hi
  cases h with
  | idle => exact readHeader_input ha _ _ hi
  | waiting => exact absurd rfl hi
  | @header f fs tag got input htag hlen heq =>
    have hle := f.header_le
    simp only [Frame.header,List.length_append] at hlen
    rw [berGetNext,if_pos (by omega)]
    exact readHeader_input ha _ _ hi
  | body f fs hlen heq =>
    rw [berGetNext,readBody_input,List.length_drop]
    omega

/-- Where nothing has arrived, nothing is read. -/
theorem berGetNext_stalled {avail : Nat × Nat} (ha : avail.1=0) (s : Stage)
    (input : List UInt8) : (berGetNext w maxIncoming avail s input).2.2=input := by
  have hheader : ∀tag got,(readHeader w maxIncoming avail tag got input).2.2=input := by
    intro tag got
    simp [readHeader,berIntSbRead,ha]
  cases s with
  | idle => exact hheader none []
  | header tag got =>
    rw [berGetNext]
    split
    · exact hheader tag got
    · rfl
  | body tag len got => simp [berGetNext,readBody_input,ha]

/-- With the input at its end, nothing is left of a message. -/
theorem Holds.eq_nil {s : Stage} {fs : List (Frame w maxIncoming)} (h : Holds s [] fs) :
    fs=[] := by
  generalize hi : ([] : List UInt8)=input at h
  cases h with
  | idle =>
    cases fs with
    | nil => rfl
    | cons f fs =>
      exfalso
      have hl := congrArg List.length hi
      have hpos := List.length_pos_iff.mpr f.contents_ne_nil
      simp only [Frame.stream,List.flatMap_cons,Frame.bytes,List.length_append,
        List.length_nil] at hl
      omega
  | waiting => rfl
  | header f fs htag hlen heq =>
    exfalso
    have hl := congrArg List.length heq
    simp only [← hi,Frame.bytes,List.length_append,List.length_nil] at hl
    omega
  | body f fs hlen heq =>
    exfalso
    have hl := congrArg List.length heq
    simp only [← hi,List.length_append,List.length_nil] at hl
    omega

/-- However a stream of messages arrives, they are delivered in order, and all of them once as
many calls as there are octets have found something to read. -/
theorem berGetAll_holds {s : Stage} {input : List UInt8} {fs : List (Frame w maxIncoming)}
    (h : Holds s input fs) (avails : List (Nat × Nat)) :
    ∃ds fs' s' input',fs=ds++fs' ∧ Holds s' input' fs' ∧
      berGetAll w maxIncoming avails s input=
        (ds.map (fun f => (f.tag,f.contents)),.again,s',input') ∧
      (input.length≤avails.countP (fun a => 0<a.1) → fs'=[]) := by
  induction avails generalizing s input fs with
  | nil =>
    refine ⟨[],fs,s,input,rfl,h,rfl,?_⟩
    intro hl
    have hi : input=[] := List.eq_nil_of_length_eq_zero (by simpa using hl)
    exact (hi ▸ h).eq_nil
  | cons avail avails ih =>
    have hstep := berGetNext_reached h avail
    have hcount : input.length≤(avail::avails).countP (fun a => 0<a.1) → fs=[] ∨
        (berGetNext w maxIncoming avail s input).2.2.length≤
          avails.countP (fun a => 0<a.1) := by
      intro hl
      by_cases hi : input=[]
      · exact .inl (hi ▸ h).eq_nil
      · refine .inr ?_
        rw [List.countP_cons] at hl
        by_cases ha : 0<avail.1
        · have hlt := h.progress ha hi
          rw [if_pos (by simpa using ha)] at hl
          omega
        · rw [berGetNext_stalled (by omega)]
          rw [if_neg (by simpa using ha)] at hl
          omega
    rw [berGetAll]
    generalize berGetNext w maxIncoming avail s input=x at hstep hcount ⊢
    cases hstep with
    | again h' =>
      obtain ⟨ds,fs',s',input',hfs,hh,hrun,hall⟩ := ih h'
      refine ⟨ds,fs',s',input',hfs,hh,hrun,?_⟩
      intro hl
      rcases hcount hl with hnil|hl'
      · rw [hnil] at hfs
        exact (List.append_eq_nil_iff.mp hfs.symm).2
      · exact hall hl'
    | @message f fs₁ hfs₁ =>
      obtain ⟨ds,fs',s',input',hfs,hh,hrun,hall⟩ := ih (.idle fs₁)
      refine ⟨f::ds,fs',s',input',by rw [hfs₁,hfs]; rfl,hh,by simp [hrun],?_⟩
      intro hl
      rcases hcount hl with hnil|hl'
      · rw [hnil] at hfs₁
        cases hfs₁
      · exact hall hl'

end Delivery

section Hostile

variable {w : Word} {maxIncoming : Nat}

theorem scanMoreTag_done {b : UInt8} {q l : List UInt8} {t p : Nat} (hs : q.length+1<w.size)
    (h : scanMoreTag w l (q.length+1) (ofOctets (b::q))=.done (t,p)) :
    ∃k,p=q.length+1+k ∧ k≤l.length ∧ moreTag w (ofOctets (b::q)) l=(some t,l.drop k) := by
  induction l generalizing q with
  | nil => cases h
  | cons c l ih =>
    have hq : ofOctets (b::q)*256+c.toNat=ofOctets (b::(q++[c])) := by
      rw [← List.cons_append,ofOctets_concat]
    rw [scanMoreTag] at h
    rw [moreTag]
    split at h
    · rename_i hc
      split at h
      · cases h
      · cases h
        exact ⟨1,rfl,by simp,by simp [hc]⟩
    · rename_i hc
      split at h
      · cases h
      · rename_i hi
        have hlen : (q++[c]).length=q.length+1 := by simp
        rw [hq,← hlen] at h
        obtain ⟨k,hp,hk,hm⟩ := ih (by omega) h
        have hlt := ofOctets_lt (b::(q++[c]))
        have hle : ofOctets (b::(q++[c]))≤w.max/256 := by
          have hpow : 256^(b::(q++[c])).length≤256^(w.size-1) :=
            Nat.pow_le_pow_right (by decide) (by simp; omega)
          rw [w.max_div]
          omega
        refine ⟨k+1,by omega,by simpa using hk,?_⟩
        simp only [hq,hc,hle,↓reduceIte,List.drop_succ_cons]
        exact hm

/-- A tag that is read is one that would be written so. -/
theorem scanTag_done {g : List UInt8} {t p : Nat} (h : scanTag w g=.done (t,p)) :
    validTag w t=true ∧ p=(octets w.size t).length ∧ octets w.size t<+:g := by
  have hrest : berTagAndRest w g=(some t,g.drop p) ∧ p≤g.length := by
    cases g with
    | nil => cases h
    | cons b l =>
      rw [scanTag] at h
      rw [berTagAndRest]
      split at h
      · rename_i hb
        have h1 : ofOctets [b]=b.toNat := by simp [ofOctets]
        have hw : 1<w.size := by cases w <;> decide
        rw [← h1] at h
        obtain ⟨k,hp,hk,hm⟩ := scanMoreTag_done (q := []) (by simpa using hw) h
        rw [if_pos hb,← h1,hm,hp]
        simp [Nat.add_comm 1 k,hk]
      · rename_i hb
        cases h
        simp [hb]
  obtain ⟨ht,hg⟩ := berTagAndRest_some hrest.1
  have hl := congrArg List.length hg
  rw [List.length_append,List.length_drop] at hl
  exact ⟨ht,by omega,⟨_,hg.symm⟩⟩

theorem scanLength_done {g : List UInt8} {len n : Nat} (h : scanLength g=.done (len,n))
    (hlen : len≠0) :
    ∃length,LengthForm w len length ∧ length.length=n ∧ length<+:g := by
  have hw : lensize≤w.size := by cases w <;> decide
  cases g with
  | nil => cases h
  | cons b l =>
    rw [scanLength] at h
    split at h
    · rename_i hb
      cases h
      have hlt := (and_0x80_eq_zero b).mp hb
      refine ⟨[b],?_,rfl,by simp⟩
      have hf := LengthForm.short (w := w) hlt
      rwa [ofNat_toNat_octet] at hf
    · rename_i hb
      simp only at h
      split at h
      · cases h
      · split at h
        · cases h
        · rename_i h1 h2
          cases h
          have hform : ∀b : UInt8,¬(b &&& 0x80=0) →
              UInt8.ofNat ((b &&& 0x7f).toNat+0x80)=b := by
            apply forall_octet
            decide +kernel
          replace hform := hform b hb
          generalize (b &&& 0x7f).toNat=llen at h1 h2 hlen hform ⊢
          have hl : (l.take llen).length=llen := by
            rw [List.length_take]
            omega
          have hne : l.take llen≠[] := fun h0 => hlen (by simp [h0])
          have hf := LengthForm.long (w := w) _ hne (by omega) rfl
          rw [hl,hform] at hf
          exact ⟨_,hf,by rw [List.length_cons,hl,Nat.add_comm],
            List.cons_prefix_cons.mpr ⟨rfl,List.take_prefix _ _⟩⟩

theorem scanMoreTag_again {l : List UInt8} {i tag : Nat} (hi : i<w.size)
    (h : scanMoreTag w l i tag=.again) : i+l.length≤w.size := by
  induction l generalizing i tag with
  | nil =>
    simp only [List.length_nil]
    omega
  | cons b l ih =>
    rw [scanMoreTag] at h
    split at h
    · split at h
      · rename_i hl
        simp only [hl,List.length_singleton]
        omega
      · cases h
    · split at h
      · cases h
      · have hle := ih (by omega) h
        simp only [List.length_cons]
        omega

theorem scanTag_again {g : List UInt8} (h : scanTag w g=.again) : g.length≤w.size := by
  cases g with
  | nil => simp
  | cons b l =>
    rw [scanTag] at h
    split at h
    · have hw : 1<w.size := by cases w <;> decide
      have hle := scanMoreTag_again hw h
      simp only [List.length_cons]
      omega
    · cases h

theorem scanLength_again {g : List UInt8} (h : scanLength g=.again) : g.length≤lensize := by
  cases g with
  | nil => simp
  | cons b l =>
    rw [scanLength] at h
    split at h
    · cases h
    · simp only at h
      split at h
      · cases h
      · split at h
        · simp only [List.length_cons]
          omega
        · cases h

/-- What was read of a message that is not complete. -/
inductive Partial (w : Word) (maxIncoming : Nat) : Stage → List UInt8 → Prop
  | idle : Partial w maxIncoming .idle []
  | header {tag : Option (Nat × Nat)} {got : List UInt8}
      (htag : ∀t p,tag=some (t,p) →
        validTag w t=true ∧ p=(octets w.size t).length ∧ octets w.size t<+:got)
      (hgot : w=.long4 → got.length<1+2*lensize) : Partial w maxIncoming (.header tag got) got
  | body {tag len : Nat} {length got : List UInt8} (ht : validTag w tag=true)
      (hl : LengthForm w len length) (hmax : maxIncoming≠0 → len≤ maxIncoming)
      (hlen : got.length<len) :
      Partial w maxIncoming (.body tag len got) (octets w.size tag++(length++got))

/-- What a call comes to with any input: what it delivers is an element of it. -/
inductive Taken (w : Word) (maxIncoming : Nat) (c : List UInt8) :
    Got × Stage × List UInt8 → Prop
  | again {s : Stage} {c' input : List UInt8} (h : Partial w maxIncoming s c')
      (heq : c=c'++input) : Taken w maxIncoming c (.again,s,input)
  | message {t : Nat} {d e input : List UInt8} (he : Element w t d e) (hd : d≠[])
      (hmax : maxIncoming≠0 → d.length≤ maxIncoming) (heq : c=e++input) :
      Taken w maxIncoming c (.message t d,.idle,input)
  | range (x : Stage × List UInt8) : Taken w maxIncoming c (.range,x)
  | broken (x : Stage × List UInt8) (hw : w=.long8) : Taken w maxIncoming c (.broken,x)

theorem readBody_taken {tag len : Nat} {length got : List UInt8} (ht : validTag w tag=true)
    (hl : LengthForm w len length) (hmax : maxIncoming≠0 → len≤ maxIncoming)
    (hlen : got.length<len) (avail : Nat) (input : List UInt8) :
    Taken w maxIncoming (octets w.size tag++(length++got)++input)
      (readBody avail tag len got input) := by
  have hx := berIntSbRead_append avail (len-got.length) input
  have hle := length_berIntSbRead_le avail (len-got.length) input
  rw [readBody]
  generalize berIntSbRead avail (len-got.length) input=y at hx hle ⊢
  obtain ⟨x,rest⟩ := y
  simp only at hx hle ⊢
  split
  · rename_i h
    subst h
    exact .again (.body ht hl hmax hlen) (by rw [← hx]; simp)
  · split
    · exact .again (.body ht hl hmax (by simp; omega)) (by rw [← hx]; simp)
    · have hd : (got++x).length=len := by
        rw [List.length_append]
        omega
      refine .message (.mk length ht (hd ▸ hl)) ?_ (hd ▸ hmax) (by rw [← hx]; simp)
      intro h0
      rw [h0,List.length_nil] at hd
      omega

theorem beginBody_taken {tag len : Nat} {length got : List UInt8} (ht : validTag w tag=true)
    (hl : LengthForm w len length) (avail : Nat) (input : List UInt8) :
    Taken w maxIncoming (octets w.size tag++(length++got)++input)
      (beginBody maxIncoming avail tag len got input) := by
  rw [beginBody]
  split
  · exact .range _
  · rename_i h0
    split
    · exact .range _
    · rename_i hm
      have hmax : maxIncoming≠0 → len≤ maxIncoming := by
        intro h
        by_contra hn
        exact hm ⟨h,by omega⟩
      split
      · exact .range _
      · split
        · rename_i hd
          refine .message (.mk length ht (hd ▸ hl)) ?_ (hd ▸ hmax) (by simp)
          intro hnil
          rw [hnil,List.length_nil] at hd
          omega
        · exact readBody_taken ht hl hmax (by omega) avail input

theorem readHeader_taken {tag : Option (Nat × Nat)} {got : List UInt8}
    (htag : ∀t p,tag=some (t,p) →
      validTag w t=true ∧ p=(octets w.size t).length ∧ octets w.size t<+:got)
    (hgot : w=.long4 → got.length<1+2*lensize) (avail : Nat × Nat) (input : List UInt8) :
    Taken w maxIncoming (got++input) (readHeader w maxIncoming avail tag got input) := by
  have hx := berIntSbRead_append avail.1 (max 1 (2*lensize-got.length)) input
  rw [readHeader]
  generalize berIntSbRead avail.1 (max 1 (2*lensize-got.length)) input=y at hx ⊢
  obtain ⟨x,rest⟩ := y
  simp only at hx ⊢
  split
  · rename_i h
    subst h
    exact .again (.header htag hgot) (by rw [← hx]; simp)
  · have hc : got++input=got++x++rest := by rw [← hx,List.append_assoc]
    generalize hs : (match tag with
      | none => scanTag w (got++x)
      | some y => .done y)=r
    cases r with
    | again =>
      refine .again (.header (by simp) ?_) hc
      intro hw
      cases tag with
      | none =>
        have hle := scanTag_again hs
        rw [hw] at hle
        exact Nat.lt_of_le_of_lt hle (by decide)
      | some y => cases hs
    | range => exact .range _
    | done y =>
      obtain ⟨t,p⟩ := y
      have ht : validTag w t=true ∧ p=(octets w.size t).length ∧ octets w.size t<+:got++x := by
        cases tag with
        | none => exact scanTag_done hs
        | some y =>
          cases hs
          obtain ⟨h1,h2,h3⟩ := htag t p rfl
          exact ⟨h1,h2,h3.trans (List.prefix_append _ _)⟩
      obtain ⟨ht,hp,⟨g,hg⟩⟩ := ht
      have hdrop : (got++x).drop p=g := by rw [← hg,hp,List.drop_left' rfl]
      simp only
      cases hl : scanLength ((got++x).drop p) with
      | again =>
        refine .again (.header ?_ ?_) hc
        · rintro t' p' ⟨⟩
          exact ⟨ht,hp,⟨g,hg⟩⟩
        · intro hw
          have hle := scanLength_again hl
          have ho := length_octets_le w.size t
          rw [hw] at ho
          rw [List.length_drop] at hle
          have h4 : Word.long4.size=4 := rfl
          rw [hp,hw] at hle
          simp only [lensize] at hle ⊢
          omega
      | range => exact .range _
      | done z =>
        obtain ⟨len,n⟩ := z
        by_cases h0 : len=0
        · simp only [beginBody,h0,↓reduceIte]
          exact .range _
        · rw [hdrop] at hl
          obtain ⟨length,hform,rfl,⟨g',rfl⟩⟩ := scanLength_done (w := w) hl h0
          have hg' : (got++x).drop (p+length.length)=g' := by
            rw [← List.drop_drop,hdrop,List.drop_left' rfl]
          dsimp only
          rw [hc,hg']
          have h : Taken w maxIncoming (octets w.size t++(length++g')++rest)
              (beginBody maxIncoming avail.2 t len g' rest) := beginBody_taken ht hform _ _
          rwa [hg] at h

/-- One call, with any input. -/
theorem berGetNext_taken {s : Stage} {c : List UInt8} (h : Partial w maxIncoming s c)
    (avail : Nat × Nat) (input : List UInt8) :
    Taken w maxIncoming (c++input) (berGetNext w maxIncoming avail s input) := by
  cases h with
  | idle => exact @readHeader_taken w maxIncoming none [] (by simp) (by simp [lensize]) avail input
  | header htag hgot =>
    rw [berGetNext]
    split
    · exact readHeader_taken htag hgot avail input
    · rename_i hlen
      refine .broken _ ?_
      cases w with
      | long4 => exact absurd (hgot rfl) hlen
      | long8 => rfl
  | body ht hl hmax hlen => exact readBody_taken ht hl hmax hlen avail.1 input

/-- Whatever arrives, and however: what is delivered are elements that follow each other in the
input. -/
theorem berGetAll_taken {s : Stage} {c : List UInt8} (h : Partial w maxIncoming s c)
    (avails : List (Nat × Nat)) (input : List UInt8) :
    ∃es r,c++input=es.flatten++r ∧
      List.Forall₂ (fun m e => Element w m.1 m.2 e ∧ m.2≠[] ∧
        (maxIncoming≠0 → m.2.length≤ maxIncoming))
        (berGetAll w maxIncoming avails s input).1 es ∧
      ((berGetAll w maxIncoming avails s input).2.1=.broken → w=.long8) := by
  induction avails generalizing s c input with
  | nil => exact ⟨[],c++input,rfl,.nil,by simp [berGetAll]⟩
  | cons avail avails ih =>
    have hstep := berGetNext_taken h avail input
    rw [berGetAll]
    generalize berGetNext w maxIncoming avail s input=x at hstep ⊢
    cases hstep with
    | @again s' c' input' h' heq =>
      rw [heq]
      exact ih h' input'
    | @message t d e input' he hd hmax heq =>
      obtain ⟨es,r,hes,hall,hb⟩ := ih .idle input'
      rw [List.nil_append] at hes
      refine ⟨e::es,r,?_,.cons ⟨he,hd,hmax⟩ hall,hb⟩
      rw [heq,hes]
      simp
    | range x => exact ⟨[],c++input,rfl,.nil,by simp⟩
    | broken x hw => exact ⟨[],c++input,rfl,.nil,fun _ => hw⟩

end Hostile

end TiLdap.Lber
