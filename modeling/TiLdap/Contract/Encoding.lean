import TiLdap.Lber.Framing
import TiLdap.OpenLdap.FilterOctets
import TiLdap.OpenLdap.FilterPrinting

namespace TiLdap

open Framework Lber OpenLdap

/-- What `ber_printf` writes from a tree of fields that fits, `ber_scanf` reads back from the
flattened octets, whatever comes after them. -/
theorem fields_round_trip (w : Word) (der : Bool) (fs : List Field)
    (hv : Field.validAll w fs=true) (hr : Field.roomAll w fs≤ maxintBersize w) :
    ∃l,(berPrintf w { der := der } (Field.putsAll fs)).bind berFlatten2=some l ∧
      ∀r,∃b,b.view=r ∧ berScanf w (Field.getsAll fs) ⟨true,0,l++r⟩=(some (Field.outsAll fs),b) := by
  have hw := (Field.appendsAll (w := w) fs).run { der := der } (by simp [Writer.Sound]) rfl
    (by simpa using hr)
  refine ⟨Field.encodeAll w der fs,?_,?_⟩
  · rw [hw]
    simp [berFlatten2]
  · intro r
    obtain ⟨b,hb,h⟩ := Field.readsAll fs der hv hr ⟨true,0,Field.encodeAll w der fs++r⟩ r rfl []
    refine ⟨b,hb,?_⟩
    rw [List.append_nil] at h
    rw [h]
    simp [berScanf,storeFirst,andThen]

theorem fields_round_trip_nested : ∃l,(berPrintf .long8 { der := true } (Field.putsAll
      [.group false (some 0x63) [.prim none (.int (-129)),.strings none [[0x63,0x6e],[]],
        .group true none []]])).bind berFlatten2=some l ∧
    ∀r,∃b,b.view=r ∧ berScanf .long8 (Field.getsAll
      [.group false (some 0x63) [.prim none (.int (-129)),.strings none [[0x63,0x6e],[]],
        .group true none []]]) ⟨true,0,l++r⟩=
          (some [.int (-129),.list [[0x63,0x6e],[]]],b) :=
  fields_round_trip .long8 true _ (by rfl) (by decide)

/-- An element is found exactly where a tag, a definite length and as much contents stand, and
they are told apart in one way only. -/
theorem peek_iff_element (w : Word) (l d : List UInt8) (t n : Nat) :
    berPeekElement w l=⟨some t,n,d⟩ ↔
      ∃c e r,Element w t c e ∧ c.length=n ∧ d=c++r ∧ l=e++r := by
  constructor
  · intro h
    obtain ⟨ht,hn,length,hl,rfl⟩ := berPeekElement_some h
    have hc : (d.take n).length=n := by
      rw [List.length_take]
      omega
    refine ⟨d.take n,octets w.size t++(length++d.take n),d.drop n,.mk length ht (by rwa [hc]),
      hc,by simp,?_⟩
    simp
  · rintro ⟨c,e,r,he,rfl,rfl,rfl⟩
    exact he.peek r

/-- What is read as an integer stands for it. -/
theorem toInt_of_berGetInt {w : Word} {t : Nat} {c e : List UInt8} (he : Element w t c e)
    (hc : c≠[]) {r : List UInt8} {n : Int32} (h : (berGetInt w ⟨true,0,e++r⟩).1=some n) :
    ofSignedOctets c=n.toInt := by
  rw [berGetInt,berSkipElement_element he (Reader.view_fresh _)] at h
  simp only [andThen] at h
  split at h
  · cases h
  · rename_i hl
    cases h
    obtain ⟨h1,h2⟩ := ofSignedOctets_bounds c
    have hpos := List.length_pos_iff.mpr hc
    have hp : (256^(c.length-1) : Int)≤256^3 := by
      exact_mod_cast Nat.pow_le_pow_right (by decide) (by omega : c.length-1≤3)
    have hz : (Int32.size : Int)=4294967296 := rfl
    rw [Int32.toInt_ofInt,Int.bmod_eq_of_le]
    · omega
    · omega

/-- An element without contents is read as zero. -/
theorem berGetInt_nil {w : Word} {t : Nat} {e : List UInt8} (he : Element w t [] e)
    (r : List UInt8) : (berGetInt w ⟨true,0,e++r⟩).1=some 0 := by
  rw [berGetInt_element he (Reader.view_fresh _) (by simp)]
  rfl

/-- Every integer is read back from what is written. No form of it that is read is shorter, apart
from that of zero without contents. -/
theorem integer_shortest (w : Word) (n : Int32) (t : Nat) (ht : validTag w t=true)
    (b : Writer) (r : List UInt8) :
    ∃e,berPutInt w b n (some t)={ b with buf := b.buf++e } ∧
      (berGetInt w ⟨true,0,e++r⟩).1=some n ∧
      ∀e' c,Element w t c e' → (berGetInt w ⟨true,0,e'++r⟩).1=some n →
        e.length≤e'.length ∨ (n=0 ∧ c=[]) := by
  have hl := length_signedOctets_le 4 n.toInt
  have hs : berPrependLen w (signedOctets 4 n.toInt).length []=
      [UInt8.ofNat (signedOctets 4 n.toInt).length] := berPrependLen_short (by omega)
  have hw : 4<256^w.size := by cases w <;> decide
  refine ⟨tlv w t (signedOctets 4 n.toInt),?_,?_,?_⟩
  · simp [berPutInt,berPutIntOrEnum,berWrite,tlv,hs,berPrependTag_eq]
  · rw [berGetInt_element (element_tlv ht (by omega)) (Reader.view_fresh _) hl,
      int32_signedOctets]
  · intro e' c he h
    by_cases hc : c=[]
    · subst hc
      rw [berGetInt_nil he] at h
      exact .inr ⟨(Option.some.inj h).symm,rfl⟩
    refine .inl ?_
    have hshort := length_signedOctets_ofSignedOctets hc 4
    rw [toInt_of_berGetInt he hc h] at hshort
    obtain ⟨length,-,hform⟩ := he
    have hpos : 0< length.length := by cases hform <;> simp
    simp only [tlv,hs,List.length_append,List.length_singleton]
    omega

theorem integer_shortest_negative : ∃e,berPutInt .long8 { der := true } (-129) (some 2)=
      { der := true, buf := []++e } ∧ (berGetInt .long8 ⟨true,0,e++[]⟩).1=some (-129) ∧
    ∀e' c,Element .long8 2 c e' → (berGetInt .long8 ⟨true,0,e'++[]⟩).1=some (-129) →
      e.length≤e'.length ∨ ((-129 : Int32)=0 ∧ c=[]) :=
  integer_shortest .long8 (-129) 2 (by decide) { der := true } []

/-- Strings terminated where they lie are no different from copies: what a format stores and
what is read after it are the same. -/
theorem scanf_in_place (w : Word) (fmt : List Get) (l : List UInt8) :
    let x := berScanf w fmt ⟨true,0,l⟩
    let y := berScanf w (fmt.map Get.copying) ⟨true,0,l⟩
    x.1=y.1 ∧ x.2.view=y.2.view := berScanf_alike rfl fmt

/-- However the octets of a stream of messages arrive, `ber_get_next` delivers the messages in
order and nothing else, and all of them once as many calls as there are octets have found
something to read. A message is what `Frame` says: one of less than eight octets would be read
together with a part of the next. -/
theorem stream_delivered (w : Word) (maxIncoming : Nat) (fs : List (Frame w maxIncoming))
    (avails : List (Nat × Nat)) :
    ∃ds rest s input,fs=ds++rest ∧
      berGetAll w maxIncoming avails .idle (Frame.stream fs)=
        (ds.map (fun f => (f.tag,f.contents)),.again,s,input) ∧
      ((Frame.stream fs).length≤avails.countP (fun a => 0<a.1) → rest=[]) := by
  obtain ⟨ds,rest,s,input,hfs,-,hrun,hall⟩ := berGetAll_holds (.idle fs) avails
  exact ⟨ds,rest,s,input,hfs,hrun,hall⟩

/-- Whatever arrives, and however: what `ber_get_next` delivers are elements that follow each
other in the input, not empty and within the limit. Its last assertion is only within reach where
tags can be longer than four octets. -/
theorem hostile_stream (w : Word) (maxIncoming : Nat) (input : List UInt8)
    (avails : List (Nat × Nat)) :
    ∃es r,input=es.flatten++r ∧
      List.Forall₂ (fun m e => Element w m.1 m.2 e ∧ m.2≠[] ∧
        (maxIncoming≠0 → m.2.length≤ maxIncoming))
        (berGetAll w maxIncoming avails .idle input).1 es ∧
      ((berGetAll w maxIncoming avails .idle input).2.1=.broken → w=.long8) :=
  berGetAll_taken .idle avails input

/-- `ldap_pvt_put_filter` accepts exactly the strings that spell a filter, besides the empty
string and a single space, and writes the filter that the string spells. -/
theorem filter_written_iff (w : Word) (below : List UInt8 → UInt8) (s : List UInt8)
    (b b' : Writer) :
    ldapPvtPutFilter w below s b=some b' ↔
      ((s=[] ∨ s=[0x20]) ∧ b'=b) ∨
      ∃f,FilterSpelled f s ∧ berPrintf w b f.field.puts=some b' := by
  constructor
  · intro h
    rcases ldapPvtPutFilter_cases w below s with ⟨fs,hs,hput⟩|⟨-,hnone⟩
    · rw [hput] at h
      rcases hs with ⟨hs,rfl⟩|⟨f,hf,rfl⟩
      · cases h
        exact .inl ⟨hs,rfl⟩
      · rw [Field.putsAll,Field.putsAll,List.append_nil] at h
        exact .inr ⟨f,hf,h⟩
    · rw [hnone] at h
      cases h
  · rintro (⟨hs,rfl⟩|⟨f,hf,h⟩)
    · rcases hs with rfl|rfl
      · rfl
      · rw [ldapPvtPutFilter,putFilterWithin_space]
        rfl
    · rw [hf.put,h]

/-- A filter with its values escaped is taken for that filter, whatever octets the values hold
and whatever is open where it is written. -/
theorem filter_print_parses (w : Word) (below : List UInt8 → UInt8) (f : Filter)
    (hf : f.valid=true) (b : Writer) (hs : b.Sound) (ht : b.tag=none)
    (hr : b.buf.length+f.field.room w≤ maxintBersize w) :
    ldapPvtPutFilter w below f.print b=some { b with buf := b.buf++f.field.encode w b.der } := by
  rw [(FilterSpelled.paren (f.parenSpelled_print hf)).put]
  exact (Field.appends f.field).run b hs ht hr

theorem filter_print_parses_hostile :
    ldapPvtPutFilter .long8 (fun _ => 0x3c) (Filter.print
        (.and [.compare .equality [0x75,0x69,0x64] [0x2a,0x29,0x28,0x5c,0],
          .not (.substrings [0x63,0x6e] [] [[0x2a]] [0xff])])) { der := true }=
      some { der := true, buf := []++Field.encode .long8 true (Filter.field
        (.and [.compare .equality [0x75,0x69,0x64] [0x2a,0x29,0x28,0x5c,0],
          .not (.substrings [0x63,0x6e] [] [[0x2a]] [0xff])])) } :=
  filter_print_parses .long8 (fun _ => 0x3c) _ (by rfl) { der := true }
    (by simp [Writer.Sound]) rfl (by decide)

/-- The octets of a search that fits are read back as the message that it stands for, with what its
string spells, and no search with another filter is the same octets. Where the string spells
nothing, no octets are sent. -/
theorem search_request_round_trip (w : Word) (below : List UInt8 → UInt8) (ld : SearchDefaults)
    (id : Int32) (rq : SearchRequest) (hs1 : -2^31≤ rq.sizeLimit) (hs2 : rq.sizeLimit<2^31)
    (ht1 : -2^31≤ rq.timeLimit) (ht2 : rq.timeLimit<2^31) :
    let m := ldapBuildSearchReq ld.sizelimit.toInt ld.timelimit.toInt rq
    (∀o,Spells (utf8 m.filter) o →
      ((searchArgs rq).field ld id (o.toList.map Filter.field)).room w≤ maxintBersize w →
      ∃l,ldapBuildSearchReqBer w below ld id (searchArgs rq)=.ok { der := true, buf := l } ∧
        (∀r,∃b,b.view=r ∧
          berScanf w ((searchArgs rq).field ld id (o.toList.map Filter.field)).gets ⟨true,0,l++r⟩=
            (some (messageOuts id ld.deref m++(Field.outsAll (o.toList.map Filter.field)++
              [vectorOut (m.attributes.map utf8)])),b)) ∧
        ∀ld' id' a' o',
          (SearchArgs.field ld' id' a' (o'.toList.map Filter.field)).room w≤ maxintBersize w →
            (SearchArgs.field ld' id' a' (o'.toList.map Filter.field)).encode w true=l → o'=o) ∧
    ((∀o,¬Spells (utf8 m.filter) o) →
      ((searchArgs rq).field ld id []).room w≤ maxintBersize w →
        ldapBuildSearchReqBer w below ld id (searchArgs rq)=.error ldapFilterError) := by
  intro m
  have hfilter : utf8 m.filter=(searchArgs rq).filterString := rfl
  rw [hfilter]
  constructor
  · intro o ho hr
    have hbuild := ldapBuildSearchReqBer_fields (ho.put below) hr
    refine ⟨_,hbuild,?_,?_⟩
    · intro r
      have hv : ((searchArgs rq).field ld id (o.toList.map Filter.field)).valid w=true :=
        valid_searchField ld id _ (Filter.validAll_option o)
      obtain ⟨b,hb,h⟩ := Field.reads _ true hv hr ⟨true,0,
        ((searchArgs rq).field ld id (o.toList.map Filter.field)).encode w true++r⟩ r rfl []
      refine ⟨b,hb,?_⟩
      rw [List.append_nil] at h
      rw [h,outs_searchField id _ hs1 hs2 ht1 ht2]
      simp [berScanf,storeFirst,andThen,m]
    · intro ld' id' a' o' hr' h
      exact searchField_inj hr' hr h
  · intro hn hr
    rcases ldapPvtPutFilter_cases w below (searchArgs rq).filterString with ⟨fs,hs,-⟩|⟨-,h⟩
    · exfalso
      rcases hs with ⟨h,-⟩|⟨f,hf,-⟩
      · exact hn none h
      · exact hn (some f) hf
    · exact ldapBuildSearchReqBer_filterError h hr

/-- A request for the users of a directory. -/
def sampleSearch : SearchRequest where
  base := "dc=example,dc=com"
  scope := 2
  filter := "(uid=*)"
  attrs := some ["cn","mail"]
  typesOnly := false
  sizeLimit := -1
  timeLimit := 30

theorem search_request_round_trip_users :
    ∃l,ldapBuildSearchReqBer .long8 (fun _ => 0) ⟨0,100,-1⟩ 7 (searchArgs sampleSearch)=
        .ok { der := true, buf := l } ∧
      (∀r,∃b,b.view=r ∧ berScanf .long8 ((searchArgs sampleSearch).field ⟨0,100,-1⟩ 7
          [(Filter.present [0x75,0x69,0x64]).field]).gets ⟨true,0,l++r⟩=
        (some (messageOuts 7 0 (ldapBuildSearchReq 100 (-1) sampleSearch)++
          (Field.outsAll [(Filter.present [0x75,0x69,0x64]).field]++
            [vectorOut ((ldapBuildSearchReq 100 (-1) sampleSearch).attributes.map utf8)])),b)) ∧
      ∀ld' id' a' o',
        (SearchArgs.field ld' id' a' (o'.toList.map Filter.field)).room .long8≤
            maxintBersize .long8 →
          (SearchArgs.field ld' id' a' (o'.toList.map Filter.field)).encode .long8 true=l →
            o'=some (.present [0x75,0x69,0x64]) := by
  have hs : Spells (utf8 (ldapBuildSearchReq 100 (-1) sampleSearch).filter)
      (some (.present [0x75,0x69,0x64])) :=
    .paren (Filter.parenSpelled_print (.present [0x75,0x69,0x64]) (by rfl))
  exact (search_request_round_trip .long8 (fun _ => 0) ⟨0,100,-1⟩ 7 sampleSearch (by decide)
    (by decide) (by decide) (by decide)).1 (some (.present [0x75,0x69,0x64])) hs (by decide)

end TiLdap
