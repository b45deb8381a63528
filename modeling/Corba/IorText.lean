/-
What a stringified reference denotes, and what is taken for one.

A reference is a type and a list of tagged profiles, of which only those of the IIOP are understood.
The encapsulation of the reference and each of its profiles announce a byte order of their own.

Main definitions:

* `Corba.TaggedProfile`, `Corba.Giop.iorItems` — profiles, and the encoding of a reference;
* `Corba.Stringified` — text that is a reference;
* `Corba.Discerned` — only references are accepted, and anything else is answered with an exception;
* `Corba.Mistaken` — the texts for which this is not so.

Main results:

* `Corba.IOR.ofString_reference` — a reference is read as what it says;
* `Corba.IOR.discerned_iff` — exactly when references are told from other texts.
-/

import Corba.IorProfiles

set_option relaxedAutoImplicit false
set_option autoImplicit false

namespace Corba

open Layout ByteOrder Placed Exec
open GIOPDecoder (IiopProfile)

/-! ### Profiles -/

/-- A tagged profile.  An IIOP profile has a byte order of its own, and components may stand behind
what every such profile has. -/
inductive TaggedProfile where
  | iiop (order : Endian) (major minor : UInt8) (profile : IiopProfile) (components : Octets)
  | other (tag : UInt32) (htag : tag ≠ ProfileId.tagInternetIop.toUlong) (content : Octets)
      (hcontent : content ≠ [])

namespace TaggedProfile

def tag : TaggedProfile → UInt32
  | iiop _ _ _ _ _ => ProfileId.tagInternetIop.toUlong
  | other tag _ _ _ => tag

/-- Where an IIOP profile says that the object lives. -/
def location : TaggedProfile → Option IiopProfile
  | iiop _ _ _ profile _ => some profile
  | other _ _ _ _ => none

def contents : TaggedProfile → Cdr.Items
  | iiop order major minor p components =>
      Cdr.octet (Giop.endianFlag order) ++ (Cdr.octet major ++ (Cdr.octet minor ++
        (Cdr.string order p.host ++ (Cdr.ushort order p.port ++
          (Cdr.blob order p.objectKey ++ [.raw components])))))
  | other _ _ content _ => [.raw content]

/-- The number of octets of a profile behind its size. -/
def size (q : TaggedProfile) : ℕ := extent 0 q.contents

def items (e : Endian) (q : TaggedProfile) : Cdr.Items :=
  Cdr.ulong e q.tag ++ (Cdr.ulong e (UInt32.ofNat q.size) ++ q.contents)

/-- The lengths in a profile can be expressed. -/
def Fits (q : TaggedProfile) : Prop := q.size < 2 ^ 32

/-- A profile has the same size wherever it begins. -/
theorem extent_contents {p : ℕ} (hp : p % 4 = 0) (q : TaggedProfile) :
    extent p q.contents = p + q.size := by
  have htwo : p % 2 = 0 := by omega
  cases q with
  | iiop order major minor profile components =>
      simp only [size, contents, extent_append, Cdr.extent_octet, Cdr.extent_string,
        Cdr.extent_ushort, Cdr.extent_blob, extent_raw, extent_nil, Nat.add_assoc, roundUp_add hp,
        roundUp_add htwo, Nat.zero_add]
  | other tag htag content hcontent =>
      simp only [size, contents, extent_raw, extent_nil, Nat.zero_add]

theorem extent_items (o : ℕ) (e : Endian) (q : TaggedProfile) :
    extent o (q.items e) = roundUp 4 o + 8 + q.size := by
  have hmod := roundUp_mod (a := 4) (by decide) o
  rw [items, extent_append, extent_append, Cdr.extent_ulong, Cdr.extent_ulong,
    roundUp_eq_self (o := roundUp 4 o + 4) (by omega), extent_contents (by omega)]

/-- What an IIOP profile says has lengths that can be expressed. -/
theorem fits_location {q : TaggedProfile} (hq : q.Fits) : ∀ p ∈ q.location, p.Fits := by
  cases q with
  | iiop order major minor profile components =>
      rintro p ⟨⟩
      have h1 := le_roundUp 4 3
      have h2 := le_roundUp 2 (roundUp 4 3 + 4 + (profile.host.length + 1))
      have h3 := le_roundUp 4 (roundUp 2 (roundUp 4 3 + 4 + (profile.host.length + 1)) + 2)
      simp only [Fits, size, contents, extent_append, Cdr.extent_octet, Cdr.extent_string,
        Cdr.extent_ushort, Cdr.extent_blob, extent_raw, extent_nil, Nat.reduceAdd] at hq
      exact ⟨by omega, by omega⟩
  | other tag htag content hcontent =>
      intro p hp
      cases hp

end TaggedProfile

namespace Giop

/-- The encapsulation of a reference. -/
def iorItems (e : Endian) (oid : Octets) (profiles : List TaggedProfile) : Cdr.Items :=
  Cdr.octet (endianFlag e) ++ (Cdr.string e oid ++ (Cdr.ulong e (UInt32.ofNat profiles.length) ++
    profiles.flatMap (TaggedProfile.items e)))

@[simp] theorem order_endianFlag (e : Endian) : order (endianFlag e) = e := by
  cases e <;> rfl

end Giop

/-- The profile a reference is located by: the last one that is understood. -/
def lastLocation (profiles : List TaggedProfile) : Option IiopProfile :=
  (profiles.filterMap TaggedProfile.location).getLast?

/-! ### Reading a reference -/

section Reading

variable {D : Octets} {o : ℕ} {e : Endian}

/-- The head of a profile, and the part of an IIOP profile that is read. -/
theorem TaggedProfile.laid_items {q : TaggedProfile} (h : Laid D o (q.items e)) :
    ∃ flags, Laid D o (Giop.profileHead e q.tag (UInt32.ofNat q.size) flags) ∧
      ∀ p ∈ q.location, ∃ major minor,
        Laid D (roundUp 4 o + 9) (Giop.iiopFront (Giop.order flags) major minor p) := by
  have hmod := roundUp_mod (a := 4) (by decide) o
  obtain ⟨htag, hrest⟩ := laid_append.1 h
  obtain ⟨hsize, hcontents⟩ := laid_append.1 hrest
  rw [Cdr.extent_ulong, Cdr.extent_ulong, roundUp_eq_self (o := roundUp 4 o + 4) (by omega)]
    at hcontents
  have hnumbers : Laid D o (Cdr.ulong e q.tag ++ Cdr.ulong e (UInt32.ofNat q.size)) :=
    laid_append.2 ⟨htag, hsize⟩
  cases q with
  | iiop order major minor profile components =>
      obtain ⟨hflags, hbody⟩ := laid_append.1 hcontents
      refine ⟨_, GIOPDecoder.laid_profileHead.2 ⟨hnumbers, hflags⟩, ?_⟩
      rintro p ⟨⟩
      refine ⟨major, minor, ?_⟩
      simp only [laid_append, Cdr.extent_octet, Cdr.extent_string, Cdr.extent_ushort] at hbody
      obtain ⟨hmajor, hminor, hhost, hport, hkey, -⟩ := hbody
      simp only [Giop.iiopFront, Giop.order_endianFlag, laid_append, Cdr.extent_octet,
        Cdr.extent_stringOpen, Cdr.extent_ushort]
      exact ⟨hmajor, hminor, Cdr.laid_stringOpen hhost, hport, hkey⟩
  | other tag htag content hcontent =>
      obtain ⟨c, cs, rfl⟩ := List.exists_cons_of_ne_nil hcontent
      have hc : Laid D (roundUp 4 o + 8) (Cdr.octet c) :=
        laid_raw.2 ⟨at_singleton.2 (at_cons.1 (laid_raw.1 hcontents).1).1, laid_nil _ _⟩
      refine ⟨c, GIOPDecoder.laid_profileHead.2 ⟨hnumbers, hc⟩, ?_⟩
      intro p hp
      cases hp

/-- Profiles that are laid out are walked over to the end. -/
theorem walk_of_laid {profiles : List TaggedProfile} (profile : Option IiopProfile)
    (h : Laid D o (profiles.flatMap (TaggedProfile.items e))) (hfits : ∀ q ∈ profiles, q.Fits)
    (hD : D.length < 2 ^ 63) :
    Walk D e o profiles.length profile
      (.whole (profile.toList ++ profiles.filterMap TaggedProfile.location).getLast?) := by
  induction profiles generalizing o profile with
  | nil =>
      have hlast : (profile.toList ++ []).getLast? = profile := by
        cases profile <;> rfl
      rw [List.filterMap_nil, hlast]
      exact .done o profile
  | cons q profiles ih =>
      rw [List.flatMap_cons] at h
      obtain ⟨hitems, hrest⟩ := laid_append.1 h
      have hq : q.Fits := hfits q List.mem_cons_self
      obtain ⟨flags, hhead, hfront⟩ := q.laid_items hitems
      -- the size leads to the next profile
      have hnext : Giop.nextProfile o (UInt32.ofNat q.size) = extent o (q.items e) := by
        have hle := Cdr.laid_ulong_le (laid_append.1 hhead).1
        have hsize : q.size < 2 ^ 32 := hq
        rw [Giop.nextProfile, UInt32.toNat_ofNat_of_lt' hsize, TaggedProfile.extent_items,
          sizeT_of_lt (by omega)]
      have htail := fun profile => ih profile hrest
        fun q' hq' => hfits q' (List.mem_cons_of_mem _ hq')
      rw [← hnext] at htail
      rw [List.length_cons]
      cases q with
      | iiop order major minor p components =>
          obtain ⟨major', minor', hlaid⟩ := hfront p rfl
          have hlast : (profile.toList ++ (TaggedProfile.iiop order major minor p components ::
              profiles).filterMap TaggedProfile.location).getLast? =
              ((some p).toList ++ profiles.filterMap TaggedProfile.location).getLast? := by
            have hloc : (TaggedProfile.iiop order major minor p components).location = some p := rfl
            rw [List.filterMap_cons_some hloc,
              List.getLast?_append_of_ne_nil _ (List.cons_ne_nil _ _)]
            rfl
          rw [hlast]
          exact .iiop hhead hlaid (TaggedProfile.fits_location hq p rfl) (htail (some p))
      | other tag htag content hcontent =>
          have hloc : (TaggedProfile.other tag htag content hcontent).location = none := rfl
          rw [List.filterMap_cons_none hloc]
          exact .other hhead htag (htail profile)

/-- A reference that is laid out denotes what it was made of. -/
theorem denotes_of_laid {oid : Octets} {profiles : List TaggedProfile} {p : IiopProfile}
    (h : Laid D 0 (Giop.iorItems e oid profiles)) (hoid : oid.length + 1 < 2 ^ 32)
    (hcount : profiles.length < 2 ^ 32) (hfits : ∀ q ∈ profiles, q.Fits)
    (hp : lastLocation profiles = some p) (hD : D.length < 2 ^ 63) :
    Denotes D ⟨oid, p.host, p.port, p.objectKey⟩ := by
  have hnine : roundUp 4 1 + 4 + (oid.length + 1) = 9 + oid.length := by
    show 8 + (oid.length + 1) = _
    omega
  simp only [Giop.iorItems, laid_append, Cdr.extent_octet, Cdr.extent_string, Cdr.extent_ulong]
    at h
  obtain ⟨hflags, hid, hnumber, hprofiles⟩ := h
  rw [Nat.zero_add, hnine] at hnumber hprofiles
  have hwalk := walk_of_laid none hprofiles hfits hD
  have hlast : ((none : Option IiopProfile).toList ++
      profiles.filterMap TaggedProfile.location).getLast? = some p := hp
  rw [hlast] at hwalk
  refine ⟨_, UInt32.ofNat profiles.length, IOR.laid_refers.2 ⟨hflags, ?_, ?_⟩, hoid, ?_⟩
  · rw [Giop.order_endianFlag]
    exact Cdr.laid_stringOpen hid
  · rw [Giop.order_endianFlag]
    exact hnumber
  · rw [Giop.order_endianFlag, UInt32.toNat_ofNat_of_lt' hcount]
    exact hwalk

end Reading

namespace IOR

variable [Platform]

omit [Platform] in
theorem trim_spelled {digits D front back : Octets} (hhex : Hex digits D)
    (hfront : ∀ c ∈ front, isBlank c = true) (hback : ∀ c ∈ back, isBlank c = true) :
    trim (front ++ (ascii "IOR:" ++ digits) ++ back) = ascii "IOR:" ++ digits := by
  refine trim_surround hfront hback ?_ ?_ (List.cons_ne_nil _ _)
  · rintro c ⟨⟩
    decide
  · intro c hc
    rw [List.getLast?_append] at hc
    cases hlast : digits.getLast? with
    | none =>
        rw [hlast] at hc
        cases hc
        decide
    | some c' =>
        rw [hlast] at hc
        cases hc
        exact not_isBlank (hhex.isDigit c (List.mem_of_getLast? hlast))

/-- **A stringified reference is read as what it says.**  It is located by the last profile that is
understood, whatever the byte orders, the letters and the blanks are. -/
theorem ofString_reference (e : Endian) (oid : Octets) (profiles : List TaggedProfile)
    (hone : ∃ q ∈ profiles, q.location.isSome) (hoid : oid.length + 1 < 2 ^ 32)
    (hcount : profiles.length < 2 ^ 32) (hfits : ∀ q ∈ profiles, q.Fits)
    (D digits front back : Octets) (hD : Laid D 0 (Giop.iorItems e oid profiles))
    (hhex : Hex digits D) (hfront : ∀ c ∈ front, isBlank c = true)
    (hback : ∀ c ∈ back, isBlank c = true)
    (hlen : (front ++ (ascii "IOR:" ++ digits) ++ back).length ≤ maxStringSize) :
    ∃ p, lastLocation profiles = some p ∧
      ofString (front ++ (ascii "IOR:" ++ digits) ++ back) =
        .ok ⟨oid, p.host, p.port, p.objectKey⟩ := by
  have hshort : D.length < 2 ^ 63 := by
    have heven := hhex.even
    simp only [List.length_append] at hlen
    unfold maxStringSize at hlen
    omega
  obtain ⟨p, hp⟩ : ∃ p, lastLocation profiles = some p := by
    obtain ⟨q, hq, hsome⟩ := hone
    obtain ⟨p, hp⟩ := Option.isSome_iff_exists.1 hsome
    have hmem : p ∈ profiles.filterMap TaggedProfile.location := List.mem_filterMap.2 ⟨q, hq, hp⟩
    exact ⟨_, List.getLast?_eq_some_getLast (List.ne_nil_of_mem hmem)⟩
  refine ⟨p, hp, ?_⟩
  have hdenotes := denotes_of_laid hD hoid hcount hfits hp hshort
  rw [ofString_of_hexLike (trim_spelled hhex hfront hback) hhex.hexLike]
  exact decode_of_refers hdenotes hshort

omit [Platform] in
/-- A reference with two profiles, in another byte order than the one that is understood. -/
theorem ofString_reference_two :
    letI : Platform := ⟨.little⟩
    ofString (ascii " \t" ++ (ascii "IOR:" ++ hexText (write 0 [] 0 (Giop.iorItems .big
      (ascii "IDL:Echo:1.0") [.iiop .little 1 2 ⟨ascii "host", 2809, ascii "key"⟩ [1, 2],
        .other 1 (by decide) [7] (by decide)]))) ++ ascii "\n") =
      .ok ⟨ascii "IDL:Echo:1.0", ascii "host", 2809, ascii "key"⟩ := by
  obtain ⟨p, hp, hrun⟩ := @ofString_reference ⟨.little⟩ .big (ascii "IDL:Echo:1.0")
    [.iiop .little 1 2 ⟨ascii "host", 2809, ascii "key"⟩ [1, 2],
      .other 1 (by decide) [7] (by decide)]
    ⟨_, List.mem_cons_self, rfl⟩ (by decide) (by decide)
    (by
      intro q hq
      simp only [List.mem_cons, List.not_mem_nil, or_false] at hq
      rcases hq with rfl | rfl
      · show _ < _
        decide
      · show _ < _
        decide)
    _ _ (ascii " \t") (ascii "\n") (laid_write 0 [] 0 _) (hex_hexText _) (forall_mem_of_all (by decide))
    (forall_mem_of_all (by decide))
    (by decide +kernel)
  have hlast : lastLocation [.iiop .little 1 2 ⟨ascii "host", 2809, ascii "key"⟩ [1, 2],
      .other 1 (by decide) [7] (by decide)] = some ⟨ascii "host", 2809, ascii "key"⟩ := rfl
  obtain rfl := Option.some.inj (hlast.symm.trans hp)
  exact hrun

end IOR

/-! ### Texts that are no references -/

/-- The text is a reference: digits, in pairs, that spell octets which denote one. -/
def Stringified (s : Octets) (ref : IOR) : Prop :=
  ∃ digits bs, trim s = ascii "IOR:" ++ digits ∧ Hex digits bs ∧ Denotes bs ref

/-- Only references are accepted, all other texts are answered with an exception, and nothing is used
that has not been set. -/
def Discerned [Platform] (s : Octets) : Prop :=
  (∀ ref, IOR.ofString s = .ok ref → Stringified s ref) ∧
    ((¬ ∃ ref, Stringified s ref) → ∃ t, IOR.ofString s = .error (.thrown t)) ∧
    ∀ u, IOR.ofString s ≠ .error (.undefined u)

/-- Behind the prefix stand pairs of characters, and either one of them does not begin with a digit, or
one of them does not end with a digit in what would otherwise be a reference, or what they are taken
for has no usable profile or ends in front of an octet. -/
def Mistaken (s : Octets) : Prop :=
  ∃ cs, trim s = ascii "IOR:" ++ cs ∧
    (cs.length % 2 = 0 ∧ Unset cs ∨
      ∃ bs, HexLike cs bs ∧
        ((∃ c ∈ cs, isDigit 16 c = false) ∧ (∃ ref, Denotes bs ref) ∨ Unlocated bs ∨ CutShort bs))

namespace IOR

variable [Platform] {s : Octets}

omit [Platform] in
/-- A text is taken for at most one sequence of octets. -/
theorem hexLike_unique {cs cs' bs bs' : Octets} (h : trim s = ascii "IOR:" ++ cs)
    (h' : trim s = ascii "IOR:" ++ cs') (hbs : HexLike cs bs) (hbs' : HexLike cs' bs') :
    cs = cs' ∧ bs = bs' := by
  have hcs : cs = cs' := List.append_cancel_left (h.symm.trans h')
  subst hcs
  have heq := (hexOctets_of_hexLike hbs).symm.trans (hexOctets_of_hexLike hbs')
  exact ⟨rfl, Option.some.inj heq⟩

theorem decode_cutShort {D : Octets} (h : CutShort D) (hD : D.length < 2 ^ 63) :
    ∃ u, decode D = .error (.undefined u) := by
  rcases h with rfl | ⟨oid, h⟩
  · exact ⟨_, rfl⟩
  · exact decode_of_refers h hD

omit [Platform] in
theorem length_lt_of_hexLike {cs bs : Octets} (hs : s.length ≤ maxStringSize)
    (h : trim s = ascii "IOR:" ++ cs) (hbs : HexLike cs bs) : bs.length < 2 ^ 63 := by
  have htrim := length_trim_le s
  have hlen := hbs.length
  rw [h, List.length_append] at htrim
  unfold maxStringSize at hs
  omega

/-- A text that is mistaken for a reference is not answered with an exception. -/
theorem not_discerned (hs : s.length ≤ maxStringSize) (h : Mistaken s) : ¬ Discerned s := by
  rintro ⟨hok, -, hundefined⟩
  obtain ⟨cs, htrim, ⟨heven, hunset⟩ | ⟨bs, hbs, hdefect⟩⟩ := h
  · exact hundefined _ (ofString_of_unset htrim heven hunset)
  · have hshort := length_lt_of_hexLike hs htrim hbs
    have hrun := ofString_of_hexLike htrim hbs
    rcases hdefect with ⟨⟨c, hc, hdigit⟩, ref, href⟩ | ⟨oid, hrefers⟩ | hcut
    · obtain ⟨digits, bs', htrim', hhex, -⟩ := hok ref (hrun.trans (decode_of_refers href hshort))
      obtain ⟨rfl, -⟩ := hexLike_unique htrim htrim' hbs hhex.hexLike
      rw [hhex.isDigit c hc] at hdigit
      cases hdigit
    · exact hundefined _ (hrun.trans (decode_of_refers hrefers hshort))
    · obtain ⟨u, hu⟩ := decode_cutShort hcut hshort
      exact hundefined u (hrun.trans hu)

/-- **Exactly when references are told from other texts.** -/
theorem discerned_iff (s : Octets) (hs : s.length ≤ maxStringSize) :
    Discerned s ↔ ¬ Mistaken s := by
  refine ⟨fun h hmistaken => not_discerned hs hmistaken h, fun h => ?_⟩
  have hthrown : (∃ t, ofString s = .error (.thrown t)) → Discerned s := by
    rintro ⟨t, ht⟩
    refine ⟨fun ref href => ?_, fun _ => ⟨t, ht⟩, fun u hu => ?_⟩
    · rw [ht] at href
      cases href
    · rw [ht] at hu
      cases hu
  rcases ofString_cases s with ⟨cs, htrim, heven⟩ | hraise
  · obtain ⟨bs, hbs⟩ | ⟨hunset, -⟩ := hexLike_or_unset cs heven
    rotate_left
    · exact absurd ⟨cs, htrim, .inl ⟨heven, hunset⟩⟩ h
    have hshort := length_lt_of_hexLike hs htrim hbs
    have hrun := ofString_of_hexLike htrim hbs
    rcases decode_total hshort with ⟨oid, result, hrefers⟩ | hnil | ⟨t, ht⟩
    · cases result with
      | whole p =>
          cases p with
          | none => exact absurd ⟨cs, htrim, .inr ⟨bs, hbs, .inr (.inl ⟨oid, hrefers⟩)⟩⟩ h
          | some p =>
              have href : Denotes bs ⟨oid, p.host, p.port, p.objectKey⟩ := hrefers
              have hdigits : ∀ c ∈ cs, isDigit 16 c = true := by
                intro c hc
                by_contra hno
                exact h ⟨cs, htrim, .inr ⟨bs, hbs, .inl ⟨⟨c, hc, by simpa using hno⟩, _, href⟩⟩⟩
              have hstringified : Stringified s ⟨oid, p.host, p.port, p.objectKey⟩ :=
                ⟨cs, bs, htrim, hbs.hex hdigits, href⟩
              have hok := hrun.trans (decode_of_refers hrefers hshort)
              refine ⟨fun ref hrun' => ?_, fun hno => absurd ⟨_, hstringified⟩ hno, fun u hu => ?_⟩
              · rw [hok] at hrun'
                cases hrun'
                exact hstringified
              · rw [hok] at hu
                cases hu
      | cut => exact absurd ⟨cs, htrim, .inr ⟨bs, hbs, .inr (.inr (.inr ⟨oid, hrefers⟩))⟩⟩ h
    · exact absurd ⟨cs, htrim, .inr ⟨bs, hbs, .inr (.inr (.inl hnil))⟩⟩ h
    · exact hthrown ⟨t, hrun.trans ht⟩
  · exact hthrown hraise

omit [Platform] in
/-- A text without the prefix. -/
theorem discerned_x :
    letI : Platform := ⟨.little⟩
    Discerned (ascii "x") := by
  refine (@discerned_iff ⟨.little⟩ (ascii "x") (by decide)).2 ?_
  rintro ⟨cs, htrim, -⟩
  have hhead : (120 : UInt8) = 73 := (List.cons.inj htrim).1
  exact absurd hhead (by decide)

omit [Platform] in
/-- Two characters that are no digits. -/
theorem not_discerned_zz :
    letI : Platform := ⟨.little⟩
    ¬ ∀ s : Octets, s.length ≤ maxStringSize → Discerned s := by
  let platform : Platform := ⟨.little⟩
  intro h
  have hrun : ofString (ascii "IOR:zz") = .error (.undefined .uninitialized) := rfl
  exact (h (ascii "IOR:zz") (by decide)).2.2 _ hrun

end IOR

end Corba
