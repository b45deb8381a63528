/-
What the octets of a stringified reference say, whatever they are.

Here nothing has been written by an encoder.  The numbers and the strings are read with a check,
and an exception is the answer when the buffer is too short for them; single octets are read
without one.  The walk over the profiles therefore ends in one of three ways: all profiles have
been seen, an exception is thrown, or an octet is read that stands behind the buffer.

Main definitions:

* `Corba.Walk` — the walk over the profiles, as far as it does not end with an exception;
* `Corba.Denotes`, `Corba.Anonymous`, `Corba.CutShort` — octets that are a reference, that are one
  without a profile that can be used, and that end in front of an octet;
* `Corba.Raises` — a program that ends with an exception.

Main results:

* `Corba.GIOPDecoder.readProfiles_walk` — the decoder does what the walk says;
* `Corba.GIOPDecoder.walk_total` — where there is no walk, the decoder throws;
* `Corba.decode_of_denotes`, `Corba.decode_total` — the same for references.
-/

import Corba.CdrSound
import Corba.GiopReference
import Corba.Ior

set_option relaxedAutoImplicit false
set_option autoImplicit false

namespace Corba

open Layout ByteOrder Placed Exec
open GIOPDecoder (IiopProfile)

/-! ### Exceptions -/

/-- The program ends with an exception, and not with undefined behaviour. -/
def Raises {σ α : Type} (x : EStateM Fault σ α) (s : σ) : Prop :=
  ∃ t s', x s = .error (.thrown t) s'

section Raises

variable {σ α β : Type} {x : EStateM Fault σ α} {f : α → EStateM Fault σ β} {s s' : σ} {a : α}

theorem Raises.bind (h : Raises x s) : Raises (x >>= f) s := by
  obtain ⟨t, s', h⟩ := h
  exact ⟨t, s', bind_error h _⟩

theorem Raises.of_rest (h : x s = .ok a s') (hf : Raises (f a) s') : Raises (x >>= f) s := by
  obtain ⟨t, s'', hf⟩ := hf
  exact ⟨t, s'', (bind_ok h _).trans hf⟩

theorem GIOPDecoder.raises_read {m : DecodeM α} {d : GIOPDecoder} (h : Raises m d.buffer) :
    Raises (GIOPDecoder.read m) d := by
  obtain ⟨t, b, h⟩ := h
  exact ⟨t, _, read_error h⟩

end Raises

/-! ### What the readers do with any octets -/

namespace CDRDecoder

section Cases

variable {D : Octets} {o : ℕ} {e : Endian}

theorem raises_ptr {n : ℕ} {what : ℕ → ℕ → String} (hlt : D.length < o + n)
    (hno : o + n < 2 ^ 64) : Raises (ptr n what) ⟨D, o, some e⟩ := by
  refine ⟨.outOfRange (what (o + n) D.length), ⟨D, o + n, some e⟩, ?_⟩
  have hskip : skip n ⟨D, o, some e⟩ = ⟨D, o + n, some e⟩ := by
    rw [skip, sizeT_of_lt hno]
  rw [ptr, hskip]
  exact if_pos hlt

/-- Two octets are some number. -/
theorem exists_ushort (e : Endian) (h : roundUp 2 o + 2 ≤ D.length) :
    ∃ v, Laid D o (Cdr.ushort e v) := by
  let bs := (D.drop (roundUp 2 o)).take 2
  have hbs : bs.length = 2 := by
    rw [List.length_take, List.length_drop]
    omega
  have hlt : e.value bs < 2 ^ 16 := by
    have := e.value_lt bs
    rwa [hbs] at this
  have hbytes : e.bytes 2 (e.value bs) = bs := by
    have := e.bytes_value bs
    rwa [hbs] at this
  refine ⟨UInt16.ofNat (e.value bs), laid_align.2 (laid_raw.2 ⟨?_, laid_nil _ _⟩)⟩
  rw [UInt16.toNat_ofNat_of_lt' hlt, hbytes]
  exact at_take_drop

variable [Platform]

theorem readUlong_cases (ho : o + 8 < 2 ^ 64) :
    (∃ v, Laid D o (Cdr.ulong e v)) ∨ Raises readUlong ⟨D, o, some e⟩ := by
  have hround := roundUp_lt (show 0 < 4 by decide) o
  rcases Nat.lt_or_ge D.length (roundUp 4 o + 4) with hlt | hge
  · right
    refine Raises.bind (Raises.bind ?_)
    refine Raises.of_rest (modify_run _ _) ?_
    rw [align4_eq, sizeT_of_lt (show roundUp 4 o < 2 ^ 64 by omega)]
    exact raises_ptr hlt (by omega)
  · exact Or.inl (exists_ulong e hge)

theorem readUshort_cases (ho : o + 8 < 2 ^ 64) :
    (∃ v, Laid D o (Cdr.ushort e v)) ∨ Raises readUshort ⟨D, o, some e⟩ := by
  have hround := roundUp_lt (show 0 < 2 by decide) o
  rcases Nat.lt_or_ge D.length (roundUp 2 o + 2) with hlt | hge
  · right
    refine Raises.bind (Raises.bind ?_)
    refine Raises.of_rest (modify_run _ _) ?_
    rw [align2_eq, sizeT_of_lt (show roundUp 2 o < 2 ^ 64 by omega)]
    exact raises_ptr hlt (by omega)
  · exact Or.inl (exists_ushort e hge)

theorem readBlob_cases (ho : o + 8 < 2 ^ 64) (hD : D.length < 2 ^ 63) :
    (∃ v : Octets, Laid D o (Cdr.blob e v) ∧ v.length < 2 ^ 32) ∨
      Raises readBlob ⟨D, o, some e⟩ := by
  rcases readUlong_cases (D := D) (e := e) ho with ⟨len, hlen⟩ | hraise
  · have hle := Cdr.laid_ulong_le hlen
    have hlt := len.toNat_lt
    rcases Nat.lt_or_ge D.length (roundUp 4 o + 4 + len.toNat) with hshort | hfits
    · right
      exact Raises.of_rest (readUlong_run hlen (by omega))
        (Raises.bind (raises_ptr hshort (by omega)))
    · obtain ⟨v, hv, hlength⟩ := exists_blob hlen hfits
      exact Or.inl ⟨v, hv, hlength ▸ hlt⟩
  · exact Or.inr hraise.bind

omit [Platform] in
/-- Behind a length there is a string, whatever the octet that ends it, or the decoder throws. -/
theorem readStringOf_cases {len : UInt32} (hlen : Laid D o (Cdr.ulong e len))
    (hD : D.length < 2 ^ 63) :
    (∃ v : Octets, Laid D o (Cdr.stringOpen e v) ∧ v.length + 1 < 2 ^ 32 ∧
      extent o (Cdr.stringOpen e v) ≤ D.length) ∨
      Raises (readStringOf len.toNat) ⟨D, roundUp 4 o + 4, some e⟩ := by
  have hle := Cdr.laid_ulong_le hlen
  have hlt := len.toNat_lt
  rcases Nat.lt_or_ge D.length (roundUp 4 o + 4 + len.toNat) with hshort | hfits
  · exact Or.inr (Raises.bind (raises_ptr hshort (by omega)))
  · rcases Nat.eq_zero_or_pos len.toNat with hzero | hpos
    · right
      have hptr : ptr 0 outOfRange ⟨D, roundUp 4 o + 4, some e⟩ = _ :=
        ptr_run hle (by show roundUp 4 o + 4 < 2 ^ 64; omega)
      rw [hzero, readStringOf]
      exact Raises.of_rest hptr ⟨_, _, rfl⟩
    · have hne : len ≠ 0 := fun hzero => absurd hpos (by rw [hzero]; decide)
      obtain ⟨v, hv, hlength⟩ := exists_stringOpen hlen hne hfits
      refine Or.inl ⟨v, hv, hlength ▸ hlt, ?_⟩
      rw [Cdr.extent_stringOpen, hlength]
      exact hfits

theorem readString_cases (ho : o + 8 < 2 ^ 64) (hD : D.length < 2 ^ 63) :
    (∃ v : Octets, Laid D o (Cdr.stringOpen e v) ∧ v.length + 1 < 2 ^ 32 ∧
      extent o (Cdr.stringOpen e v) ≤ D.length) ∨ Raises readString ⟨D, o, some e⟩ := by
  rcases readUlong_cases (D := D) (e := e) ho with ⟨len, hlen⟩ | hraise
  · rcases readStringOf_cases hlen hD with hstring | hraise
    · exact Or.inl hstring
    · exact Or.inr (Raises.of_rest (readUlong_run hlen (by omega)) hraise)
  · exact Or.inr hraise.bind

omit [Platform] in
theorem laid_octet_of_lt (h : o < D.length) : ∃ v, Laid D o (Cdr.octet v) :=
  ⟨D[o], laid_raw.2 ⟨at_singleton.2 (List.getElem?_eq_getElem h), laid_nil _ _⟩⟩

omit [Platform] in
/-- An octet behind the buffer is read without a check. -/
theorem next_overread (h : D.length ≤ o) (order : Option Endian) :
    next ⟨D, o, order⟩ = .error (.undefined (.overread o 1)) ⟨D, o, order⟩ := by
  have hfetch : fetch o 1 ⟨D, o, order⟩ = .error (.undefined (.overread o 1)) ⟨D, o, order⟩ := by
    rw [fetch, if_neg (by show ¬ (1 = 0 ∨ o + 1 ≤ D.length); omega)]
  rw [next, bind_ok (get_run _), bind_error hfetch]

end Cases

end CDRDecoder

/-! ### The walk over the profiles -/

namespace Giop

/-- The byte order an octet of flags announces. -/
def order (flags : UInt8) : Endian := if flags &&& 1 == 1 then .little else .big

/-- What stands in front of the contents of a profile: its tag, its size and the octet that announces
its byte order. -/
def profileHead (e : Endian) (tag size : UInt32) (flags : UInt8) : Cdr.Items :=
  Cdr.ulong e tag ++ (Cdr.ulong e size ++ Cdr.octet flags)

/-- The part of an IIOP profile that is read. -/
def iiopFront (e : Endian) (major minor : UInt8) (p : IiopProfile) : Cdr.Items :=
  Cdr.octet major ++ (Cdr.octet minor ++ (Cdr.stringOpen e p.host ++
    (Cdr.ushort e p.port ++ Cdr.blob e p.objectKey)))

/-- Where the profile behind one that begins at `o` is looked for. -/
def nextProfile (o : ℕ) (size : UInt32) : ℕ := sizeT (roundUp 4 o + 8 + size.toNat)

end Giop

/-- How a walk ends: behind the last profile, with the one that is used, or in front of an octet
that is not there. -/
inductive WalkEnd where
  | whole (profile : Option IiopProfile)
  | cut

/-- A walk over `n` profiles from `o` on, when `profile` is the last IIOP profile so far.  The size
of a profile says where the next one is looked for, whatever has been read of the profile. -/
inductive Walk (D : Octets) (e : Endian) : ℕ → ℕ → Option IiopProfile → WalkEnd → Prop
  | done (o : ℕ) (profile : Option IiopProfile) : Walk D e o 0 profile (.whole profile)
  | other {o n : ℕ} {profile : Option IiopProfile} {result : WalkEnd} {tag size : UInt32}
      {flags : UInt8} (hhead : Laid D o (Giop.profileHead e tag size flags))
      (htag : tag ≠ ProfileId.tagInternetIop.toUlong)
      (hrest : Walk D e (Giop.nextProfile o size) n profile result) :
      Walk D e o (n + 1) profile result
  | iiop {o n : ℕ} {profile : Option IiopProfile} {result : WalkEnd} {size : UInt32}
      {flags major minor : UInt8} {p : IiopProfile}
      (hhead : Laid D o (Giop.profileHead e ProfileId.tagInternetIop.toUlong size flags))
      (hfront : Laid D (roundUp 4 o + 9) (Giop.iiopFront (Giop.order flags) major minor p))
      (hfits : p.Fits) (hrest : Walk D e (Giop.nextProfile o size) n (some p) result) :
      Walk D e o (n + 1) profile result
  | cutFlags {o n : ℕ} {profile : Option IiopProfile} {tag size : UInt32}
      (hnumbers : Laid D o (Cdr.ulong e tag ++ Cdr.ulong e size))
      (hend : D.length = roundUp 4 o + 8) : Walk D e o (n + 1) profile .cut
  | cutVersion {o n : ℕ} {profile : Option IiopProfile} {size : UInt32} {flags : UInt8}
      (hhead : Laid D o (Giop.profileHead e ProfileId.tagInternetIop.toUlong size flags))
      (hend : D.length = roundUp 4 o + 9 ∨ D.length = roundUp 4 o + 10) :
      Walk D e o (n + 1) profile .cut

namespace GIOPDecoder

variable [Platform] {d : GIOPDecoder} {D : Octets} {o : ℕ} {e : Endian}

omit [Platform] in
theorem readOctet_overread (h : D.length ≤ o) :
    readOctet (d.on D o e) = .error (.undefined (.overread o 1)) (d.on D o e) :=
  read_error (CDRDecoder.next_overread h _)

/-- The tag and the size of a profile. -/
theorem readNumbers {α : Type} {tag size : UInt32} {f : UInt32 → UInt32 → ScanM α}
    (h : Laid D o (Cdr.ulong e tag ++ Cdr.ulong e size)) (hD : D.length < 2 ^ 64) :
    (readUlong >>= fun tag => readUlong >>= fun size => f tag size) (d.on D o e) =
      f tag size (d.on D (roundUp 4 o + 8) e) := by
  have hfour : roundUp 4 (roundUp 4 o + 4) = roundUp 4 o + 4 :=
    roundUp_roundUp_add (by decide) (by decide) o
  obtain ⟨htag, hsize⟩ := laid_append.1 h
  rw [Cdr.extent_ulong] at hsize
  have hnumber := readUlong_on (d := d) hsize hD
  rw [hfour] at hnumber
  rw [bind_ok (readUlong_on htag hD), bind_ok hnumber]

omit [Platform] in
theorem laid_profileHead {tag size : UInt32} {flags : UInt8} :
    Laid D o (Giop.profileHead e tag size flags) ↔
      Laid D o (Cdr.ulong e tag ++ Cdr.ulong e size) ∧
        Laid D (roundUp 4 o + 8) (Cdr.octet flags) := by
  have hfour : roundUp 4 (roundUp 4 o + 4) = roundUp 4 o + 4 :=
    roundUp_roundUp_add (by decide) (by decide) o
  rw [Giop.profileHead, ← List.append_assoc, laid_append, extent_append, Cdr.extent_ulong,
    Cdr.extent_ulong, hfour]

/-- What happens to an encapsulation once its head has been read. -/
theorem readEncapsulation_head {α : Type} {closure : UInt32 → ScanM α} {tag size : UInt32}
    {flags : UInt8} (h : Laid D o (Giop.profileHead e tag size flags)) (hD : D.length < 2 ^ 64) :
    readEncapsulation closure (d.on D o e) =
      (closure tag >>= fun a => read (modify ({ · with endian := some e })) >>= fun _ =>
        read (modify (CDRDecoder.setOffset (Giop.nextProfile o size))) >>= fun _ => pure a)
        (d.on D (roundUp 4 o + 9) (Giop.order flags)) := by
  obtain ⟨hnumbers, hflags⟩ := laid_profileHead.1 h
  rw [readEncapsulation, readNumbers hnumbers hD, get_bind, bind_ok (readOctet_on hflags hD)]
  rfl

theorem readEncapsulation_head_ok {α : Type} {closure : UInt32 → ScanM α} {tag size : UInt32}
    {flags : UInt8} {a : α} {d' : GIOPDecoder}
    (h : Laid D o (Giop.profileHead e tag size flags)) (hD : D.length < 2 ^ 64)
    (hclosure : closure tag (d.on D (roundUp 4 o + 9) (Giop.order flags)) = .ok a d')
    (hd' : d'.buffer.data = D) :
    readEncapsulation closure (d.on D o e) = .ok a (d'.on D (Giop.nextProfile o size) e) := by
  rw [readEncapsulation_head h hD, bind_ok hclosure, ← hd']
  rfl

/-- Behind the version of an IIOP profile. -/
theorem readProfile_version (profile : Option IiopProfile) {major minor : UInt8}
    (hmajor : Laid D o (Cdr.octet major)) (hminor : Laid D (o + 1) (Cdr.octet minor))
    (hD : D.length < 2 ^ 64) :
    readProfile profile ProfileId.tagInternetIop.toUlong (d.on D o e) =
      (readString >>= fun host => readUshort >>= fun port => readBlob >>= fun objectKey =>
        pure (some { host, port, objectKey })) (d.on D (o + 1 + 1) e) := by
  rw [readProfile, ProfileId.ofUlong_toUlong]
  show (readOctet >>= fun _ => _) _ = _
  rw [bind_ok (readOctet_on hmajor hD), bind_ok (readOctet_on hminor hD)]

/-- The part of an IIOP profile that is read. -/
theorem readProfile_front (profile : Option IiopProfile) {major minor : UInt8} {p : IiopProfile}
    (h : Laid D o (Giop.iiopFront e major minor p)) (hfits : p.Fits) (hD : D.length < 2 ^ 63) :
    ∃ o', readProfile profile ProfileId.tagInternetIop.toUlong (d.on D o e) =
      .ok (some p) (d.on D o' e) := by
  simp only [Giop.iiopFront, laid_append, Cdr.extent_octet] at h
  obtain ⟨hmajor, hminor, hhost, hport, hblob⟩ := h
  -- the port stands behind the string, which therefore lies in the buffer
  have hend : extent (o + 1 + 1) (Cdr.stringOpen e p.host) ≤ D.length := by
    have hat : At D _ (e.bytes 2 p.port.toNat) := (laid_raw.1 (laid_align.1 hport)).1
    have hle := hat.le_length (List.ne_nil_of_length_pos (by rw [Endian.length_bytes]; decide))
    have hround := le_roundUp 2 (extent (o + 1 + 1) (Cdr.stringOpen e p.host))
    omega
  rw [Cdr.extent_ushort] at hblob
  have hstring : readString (d.on D (o + 1 + 1) e) =
      .ok p.host (d.on D (extent (o + 1 + 1) (Cdr.stringOpen e p.host)) e) :=
    read_on (CDRDecoder.readString_open hhost hfits.1 hend hD)
  refine ⟨roundUp 4 (roundUp 2 (extent (o + 1 + 1) (Cdr.stringOpen e p.host)) + 2) + 4 +
    p.objectKey.length, ?_⟩
  rw [readProfile_version profile hmajor hminor (by omega), bind_ok hstring, bind_ok (readUshort_on hport (by omega)), bind_ok (readBlob_on hblob hfits.2 (by omega))]
  rfl

/-- An IIOP profile is read, ends in front of one of the octets of its version, or is answered with
an exception. -/
theorem readProfile_cases (profile : Option IiopProfile) (ho : o ≤ D.length)
    (hD : D.length < 2 ^ 63) :
    (∃ major minor p, Laid D o (Giop.iiopFront e major minor p) ∧ p.Fits) ∨
      (D.length = o ∨ D.length = o + 1) ∨
        Raises (readProfile profile ProfileId.tagInternetIop.toUlong) (d.on D o e) := by
  rcases Nat.lt_or_ge (o + 1) D.length with hlt | hge
  · obtain ⟨major, hmajor⟩ := CDRDecoder.laid_octet_of_lt (o := o) (D := D) (by omega)
    obtain ⟨minor, hminor⟩ := CDRDecoder.laid_octet_of_lt hlt
    rw [Raises, readProfile_version profile hmajor hminor (by omega)]
    rcases CDRDecoder.readString_cases (D := D) (o := o + 1 + 1) (e := e) (by omega) hD with
      ⟨host, hhost, hfits, hin⟩ | hraise
    · have hstring := read_on (d := d) (CDRDecoder.readString_open hhost hfits hin hD)
      rcases CDRDecoder.readUshort_cases (D := D)
        (o := extent (o + 1 + 1) (Cdr.stringOpen e host)) (e := e) (by omega) with
        ⟨port, hport⟩ | hraise
      · have hround := roundUp_lt (show 0 < 2 by decide)
          (extent (o + 1 + 1) (Cdr.stringOpen e host))
        rcases CDRDecoder.readBlob_cases (D := D)
          (o := roundUp 2 (extent (o + 1 + 1) (Cdr.stringOpen e host)) + 2) (e := e) (by omega) hD
          with ⟨key, hkey, hkfits⟩ | hraise
        · left
          refine ⟨major, minor, ⟨host, port, key⟩, ?_, hfits, hkfits⟩
          simp only [Giop.iiopFront, laid_append, Cdr.extent_octet, Cdr.extent_ushort]
          exact ⟨hmajor, hminor, hhost, hport, hkey⟩
        · right; right
          refine Raises.of_rest hstring ?_
          exact Raises.of_rest (readUshort_on hport (by omega)) (raises_read hraise).bind
      · right; right
        exact Raises.of_rest hstring (raises_read hraise).bind
    · exact Or.inr (Or.inr (raises_read hraise).bind)
  · exact Or.inr (Or.inl (by omega))

/-- The version of an IIOP profile is read without a check. -/
theorem readProfile_cut (profile : Option IiopProfile) (hend : D.length = o ∨ D.length = o + 1)
    (hD : D.length < 2 ^ 63) :
    ∃ u d', readProfile profile ProfileId.tagInternetIop.toUlong (d.on D o e) =
      .error (.undefined u) d' := by
  rw [readProfile, ProfileId.ofUlong_toUlong]
  rcases hend with hend | hend
  · exact ⟨_, _, bind_error (readOctet_overread hend.le) _⟩
  · obtain ⟨major, hmajor⟩ := CDRDecoder.laid_octet_of_lt (o := o) (D := D) (by omega)
    refine ⟨.overread (o + 1) 1, d.on D (o + 1) e, ?_⟩
    refine (bind_ok (readOctet_on hmajor (by omega)) _).trans ?_
    exact bind_error (readOctet_overread (by omega)) _

theorem readProfile_other (profile : Option IiopProfile) {tag : UInt32}
    (htag : tag ≠ ProfileId.tagInternetIop.toUlong) (d : GIOPDecoder) :
    readProfile profile tag d = .ok profile d := by
  have hkind : ProfileId.ofUlong tag = .other tag htag := dif_pos htag
  rw [readProfile, hkind]
  rfl

/-- What the end of a walk is for the decoder. -/
def Reaches : WalkEnd → EStateM.Result Fault GIOPDecoder (Option IiopProfile) → Prop
  | .whole p, r => ∃ d', r = .ok p d'
  | .cut, r => ∃ u d', r = .error (.undefined u) d'

/-- **The decoder does what the walk says.** -/
theorem readProfiles_walk {n : ℕ} {profile : Option IiopProfile} {result : WalkEnd}
    (h : Walk D e o n profile result) (hD : D.length < 2 ^ 63) :
    Reaches result (readProfiles n profile (d.on D o e)) := by
  induction h with
  | done o profile => exact ⟨_, rfl⟩
  | @other o n profile result tag size flags hhead htag hrest ih =>
      have hrun := readEncapsulation_head_ok (d := d) hhead (by omega)
        (readProfile_other profile htag _) rfl
      rw [readProfiles, bind_ok hrun]
      exact ih
  | @iiop o n profile result size flags major minor p hhead hfront hfits hrest ih =>
      obtain ⟨o', hprofile⟩ := readProfile_front (d := d) profile hfront hfits hD
      have hrun := readEncapsulation_head_ok (d := d) hhead (by omega) hprofile rfl
      rw [readProfiles, bind_ok hrun]
      exact ih
  | @cutFlags o n profile tag size hnumbers hend =>
      -- the octet of the byte order is read without a check
      refine ⟨.overread (roundUp 4 o + 8) 1, d.on D (roundUp 4 o + 8) e, ?_⟩
      rw [readProfiles]
      refine bind_error ?_ _
      rw [readEncapsulation, readNumbers hnumbers (by omega), get_bind]
      exact bind_error (readOctet_overread hend.le) _
  | @cutVersion o n profile size flags hhead hend =>
      obtain ⟨u, d', hcut⟩ := readProfile_cut (d := d) (e := Giop.order flags) profile hend hD
      refine ⟨u, d', ?_⟩
      rw [readProfiles]
      refine bind_error ?_ _
      rw [readEncapsulation_head hhead (by omega), bind_error hcut]

/-- The head of a profile is there, or the buffer ends in front of its last octet, or the decoder
throws. -/
theorem profileHead_cases (ho : o + 8 < 2 ^ 64) (hD : D.length < 2 ^ 63) :
    (∃ tag size flags, Laid D o (Giop.profileHead e tag size flags)) ∨
      (∃ tag size, Laid D o (Cdr.ulong e tag ++ Cdr.ulong e size) ∧
        D.length = roundUp 4 o + 8) ∨
      ∀ {α : Type} (closure : UInt32 → ScanM α), Raises (readEncapsulation closure) (d.on D o e) := by
  rcases CDRDecoder.readUlong_cases (D := D) (e := e) ho with ⟨tag, htag⟩ | hraise
  · have hle := Cdr.laid_ulong_le htag
    have hfour : roundUp 4 (roundUp 4 o + 4) = roundUp 4 o + 4 :=
      roundUp_roundUp_add (by decide) (by decide) o
    rcases CDRDecoder.readUlong_cases (D := D) (o := roundUp 4 o + 4) (e := e) (by omega) with
      ⟨size, hsize⟩ | hraise
    · have hle' := Cdr.laid_ulong_le hsize
      rw [hfour] at hle'
      have hnumbers : Laid D o (Cdr.ulong e tag ++ Cdr.ulong e size) :=
        laid_append.2 ⟨htag, by rw [Cdr.extent_ulong]; exact hsize⟩
      rcases Nat.lt_or_ge (roundUp 4 o + 8) D.length with hin | hout
      · obtain ⟨flags, hflags⟩ := CDRDecoder.laid_octet_of_lt hin
        exact Or.inl ⟨tag, size, flags, laid_profileHead.2 ⟨hnumbers, hflags⟩⟩
      · exact Or.inr (Or.inl ⟨tag, size, hnumbers, by omega⟩)
    · right; right
      intro α closure
      refine Raises.of_rest (readUlong_on htag (by omega)) ?_
      exact (raises_read hraise).bind
  · right; right
    intro α closure
    exact (raises_read hraise).bind

/-- **Where there is no walk, the decoder throws.** -/
theorem walk_total (n : ℕ) (profile : Option IiopProfile) (ho : o + 8 < 2 ^ 64)
    (hD : D.length < 2 ^ 63) :
    (∃ result, Walk D e o n profile result) ∨ Raises (readProfiles n profile) (d.on D o e) := by
  induction n generalizing o profile d with
  | zero => exact Or.inl ⟨_, .done o profile⟩
  | succ n ih =>
      rcases profileHead_cases (d := d) (D := D) (e := e) ho hD with
        ⟨tag, size, flags, hhead⟩ | ⟨tag, size, hnumbers, hend⟩ | hraise
      · have hnext : Giop.nextProfile o size + 8 < 2 ^ 64 := by
          have hle := Cdr.laid_ulong_le (laid_append.1 hhead).1
          have hlt := size.toNat_lt
          rw [Giop.nextProfile, sizeT_of_lt (by omega)]
          omega
        -- the rest of the walk, whatever has been seen so far
        have hstep : ∀ (p : Option IiopProfile) (d' : GIOPDecoder),
            readProfile profile tag (d.on D (roundUp 4 o + 9) (Giop.order flags)) = .ok p d' →
            d'.buffer.data = D → (∃ result, Walk D e (Giop.nextProfile o size) n p result) ∨
              Raises (readProfiles (n + 1) profile) (d.on D o e) := by
          intro p d' hrun hd'
          rcases ih (d := d') p hnext with hwalk | hraise
          · exact Or.inl hwalk
          · exact Or.inr
              (Raises.of_rest (readEncapsulation_head_ok hhead (by omega) hrun hd') hraise)
        by_cases hkind : tag = ProfileId.tagInternetIop.toUlong
        · subst hkind
          have hnine : roundUp 4 o + 9 ≤ D.length := by
            have hat := (laid_raw.1 (laid_profileHead.1 hhead).2).1
            exact hat.le_length (List.cons_ne_nil _ _)
          rcases readProfile_cases (d := d) (e := Giop.order flags) profile hnine hD with
            ⟨major, minor, p, hfront, hfits⟩ | hend | hraise
          · obtain ⟨o', hrun⟩ := readProfile_front (d := d) profile hfront hfits hD
            rcases hstep _ _ hrun rfl with ⟨result, hwalk⟩ | hraise
            · exact Or.inl ⟨result, .iiop hhead hfront hfits hwalk⟩
            · exact Or.inr hraise
          · exact Or.inl ⟨.cut, .cutVersion hhead hend⟩
          · right
            refine Raises.bind ?_
            obtain ⟨t, d', hraise⟩ := hraise
            exact ⟨t, d', by rw [readEncapsulation_head hhead (by omega), bind_error hraise]⟩
        · rcases hstep _ _ (readProfile_other profile hkind _) rfl with ⟨result, hwalk⟩ | hraise
          · exact Or.inl ⟨result, .other hhead hkind hwalk⟩
          · exact Or.inr hraise
      · exact Or.inl ⟨.cut, .cutFlags hnumbers hend⟩
      · exact Or.inr (hraise _).bind

end GIOPDecoder

/-! ### References -/

/-- A type stands in the octets, and the walk over the profiles behind it has a result. -/
def Refers (D oid : Octets) (result : WalkEnd) : Prop :=
  ∃ (flags : UInt8) (count : UInt32),
    Laid D 0 (Cdr.octet flags ++ (Cdr.stringOpen (Giop.order flags) oid ++
      Cdr.ulong (Giop.order flags) count)) ∧
    oid.length + 1 < 2 ^ 32 ∧
    Walk D (Giop.order flags) (roundUp 4 (9 + oid.length) + 4) count.toNat none result

/-- The octets are a reference: its location is that of the last IIOP profile. -/
def Denotes (D : Octets) (ref : IOR) : Prop :=
  Refers D ref.oid (.whole (some ⟨ref.host, ref.port, ref.objectKey⟩))

/-- The octets are a type and profiles none of which says where the object lives. -/
def Unlocated (D : Octets) : Prop := ∃ oid, Refers D oid (.whole none)

/-- The octets end in front of an octet that is read without a check. -/
def CutShort (D : Octets) : Prop := D = [] ∨ ∃ oid, Refers D oid .cut

namespace IOR

variable [Platform] {D oid : Octets}

omit [Platform] in
theorem laid_refers {flags : UInt8} {count : UInt32} :
    Laid D 0 (Cdr.octet flags ++ (Cdr.stringOpen (Giop.order flags) oid ++
      Cdr.ulong (Giop.order flags) count)) ↔
      Laid D 0 (Cdr.octet flags) ∧ Laid D 1 (Cdr.stringOpen (Giop.order flags) oid) ∧
        Laid D (9 + oid.length) (Cdr.ulong (Giop.order flags) count) := by
  have hnine : roundUp 4 1 + 4 + (oid.length + 1) = 9 + oid.length := by
    show 8 + (oid.length + 1) = _
    omega
  rw [laid_append, laid_append, Cdr.extent_octet, Cdr.extent_stringOpen, hnine]

/-- The decoder in front of the type of a reference. -/
theorem decodeReference_flags {flags : UInt8} (h : Laid D 0 (Cdr.octet flags))
    (hD : D.length < 2 ^ 64) :
    decodeReference { buffer := { data := D }, connection := none } =
      (GIOPDecoder.readUlong >>= fun length => GIOPDecoder.readReference length.toNat)
        (GIOPDecoder.on { buffer := { data := D }, connection := none } D 1
          (Giop.order flags)) := by
  have hendian : CDRDecoder.readEndian ⟨D, 0, none⟩ =
      .ok () ⟨D, 1, some (Giop.order flags)⟩ := by
    have hbit : (decide (flags &&& 1 ≠ 0)) = (flags &&& 1 == 1) := by
      have hmod : (flags &&& 1).toNat < 2 := by
        rw [UInt8.toNat_and]
        exact Nat.lt_of_le_of_lt Nat.and_le_right (by decide)
      rcases (show (flags &&& 1).toNat = 0 ∨ (flags &&& 1).toNat = 1 by omega) with h | h
      · rw [UInt8.toNat_inj.1 (h.trans (UInt8.toNat_zero).symm)]
        decide
      · rw [UInt8.toNat_inj.1 (h.trans (UInt8.toNat_one).symm)]
        decide
    rw [CDRDecoder.readEndian]
    refine (bind_ok (CDRDecoder.next_run h hD) _).trans ?_
    rw [modify_run, CDRDecoder.setLittleEndian, hbit, Giop.order]
  rw [decodeReference]
  exact bind_ok (GIOPDecoder.read_ok hendian) _

/-- What is made of the last IIOP profile. -/
def referenceOf (oid : Octets) : Option IiopProfile → ScanM IOR
  | none => throw (.undefined .uninitialized)
  | some p => pure { oid, host := p.host, port := p.port, objectKey := p.objectKey }

/-- The decoder between the length of a type and the profiles. -/
theorem readReference_on {d : GIOPDecoder} {o : ℕ} {e : Endian} {len count : UInt32}
    (hlen : Laid D o (Cdr.ulong e len)) (hid : Laid D o (Cdr.stringOpen e oid))
    (hfits : oid.length + 1 < 2 ^ 32) (hcount : Laid D (extent o (Cdr.stringOpen e oid))
      (Cdr.ulong e count)) (hD : D.length < 2 ^ 63) :
    (GIOPDecoder.readUlong >>= fun length => GIOPDecoder.readReference length.toNat)
      (d.on D o e) =
    (GIOPDecoder.readProfiles count.toNat none >>= referenceOf oid)
      (d.on D (roundUp 4 (extent o (Cdr.stringOpen e oid)) + 4) e) := by
  have hle := Cdr.laid_ulong_le hcount
  have hround := le_roundUp 4 (extent o (Cdr.stringOpen e oid))
  have hnumber := CDRDecoder.readUlong_run hlen (by omega)
  have hstring := CDRDecoder.readString_open hid hfits (by omega) hD
  -- reading a string is reading its length, and then what the length says
  rw [CDRDecoder.readString, bind_ok hnumber] at hstring
  rw [bind_ok (GIOPDecoder.readUlong_on hlen (by omega)), GIOPDecoder.readReference,
    bind_ok (GIOPDecoder.read_on hstring), bind_ok (GIOPDecoder.readUlong_on hcount (by omega))]
  rfl

/-- What the end of a walk is for the reference. -/
def Decodes (oid : Octets) : WalkEnd → Except Fault IOR → Prop
  | .whole (some p), r => r = .ok ⟨oid, p.host, p.port, p.objectKey⟩
  | .whole none, r => r = .error (.undefined .uninitialized)
  | .cut, r => ∃ u, r = .error (.undefined u)

/-- **What the decoder makes of octets that have a type.** -/
theorem decode_of_refers {result : WalkEnd} (h : Refers D oid result) (hD : D.length < 2 ^ 63) :
    Decodes oid result (decode D) := by
  obtain ⟨flags, count, hlaid, hfits, hwalk⟩ := h
  obtain ⟨hflags, hid, hcount⟩ := laid_refers.1 hlaid
  have hextent : extent 1 (Cdr.stringOpen (Giop.order flags) oid) = 9 + oid.length := by
    rw [Cdr.extent_stringOpen]
    show 8 + (oid.length + 1) = _
    omega
  obtain ⟨len, hlen⟩ : ∃ len, Laid D 1 (Cdr.ulong (Giop.order flags) len) :=
    ⟨_, (laid_append.1 hid).1⟩
  have hrun := readReference_on (d := { buffer := { data := D }, connection := none }) hlen hid
    hfits (hextent ▸ hcount) hD
  rw [hextent, ← decodeReference_flags hflags (by omega)] at hrun
  have hreach := GIOPDecoder.readProfiles_walk
    (d := { buffer := { data := D }, connection := none }) hwalk hD
  rw [decode, hrun]
  cases result with
  | whole p =>
      obtain ⟨d', hprofiles⟩ := hreach
      rw [bind_ok hprofiles]
      cases p with
      | none => rfl
      | some p => rfl
  | cut =>
      obtain ⟨u, d', hprofiles⟩ := hreach
      rw [bind_error hprofiles]
      exact ⟨u, rfl⟩

theorem decode_of_raises
    (h : Raises decodeReference { buffer := { data := D }, connection := none }) :
    ∃ t, decode D = .error (.thrown t) := by
  obtain ⟨t, d', h⟩ := h
  exact ⟨t, by rw [decode, h]⟩

/-- **The decoder throws for everything else.** -/
theorem decode_total (hD : D.length < 2 ^ 63) :
    (∃ oid result, Refers D oid result) ∨ D = [] ∨ ∃ t, decode D = .error (.thrown t) := by
  rcases List.eq_nil_or_concat D with hnil | ⟨_, _, hcons⟩
  · exact Or.inr (Or.inl hnil)
  have hpos : 0 < D.length := by
    rw [hcons]
    simp
  obtain ⟨flags, hflags⟩ := CDRDecoder.laid_octet_of_lt hpos
  let d : GIOPDecoder := { buffer := { data := D }, connection := none }
  have hstart := decodeReference_flags hflags (by omega)
  -- from here on it is enough to find out what throws
  suffices (∃ oid result, Refers D oid result) ∨
      Raises (GIOPDecoder.readUlong >>= fun length => GIOPDecoder.readReference length.toNat)
        (d.on D 1 (Giop.order flags)) by
    rcases this with hrefers | ⟨t, d', hraise⟩
    · exact Or.inl hrefers
    · exact Or.inr (Or.inr (decode_of_raises ⟨t, d', hstart.trans hraise⟩))
  rcases CDRDecoder.readUlong_cases (D := D) (o := 1) (e := Giop.order flags) (by decide) with
    ⟨len, hlen⟩ | hraise
  · rcases CDRDecoder.readStringOf_cases hlen hD with ⟨oid, hid, hfits, hin⟩ | hraise
    · rw [Cdr.extent_stringOpen] at hin
      have hextent : extent 1 (Cdr.stringOpen (Giop.order flags) oid) = 9 + oid.length := by
        rw [Cdr.extent_stringOpen]
        show 8 + (oid.length + 1) = _
        omega
      rcases CDRDecoder.readUlong_cases (D := D)
        (o := extent 1 (Cdr.stringOpen (Giop.order flags) oid)) (e := Giop.order flags)
        (by rw [Cdr.extent_stringOpen]; omega) with ⟨count, hcount⟩ | hraise
      · have hle := Cdr.laid_ulong_le hcount
        have hrun := readReference_on (d := d) hlen hid hfits hcount hD
        rw [hextent] at hcount hle hrun
        rcases GIOPDecoder.walk_total (d := d) (e := Giop.order flags) count.toNat none
          (show roundUp 4 (9 + oid.length) + 4 + 8 < 2 ^ 64 by omega) hD with
          ⟨result, hwalk⟩ | ⟨t, d', hraise⟩
        · exact Or.inl ⟨oid, result, flags, count, laid_refers.2 ⟨hflags, hid, hcount⟩, hfits,
            hwalk⟩
        · exact Or.inr ⟨t, d', by rw [hrun, bind_error hraise]⟩
      · right
        have hnumber := CDRDecoder.readUlong_run hlen (show D.length < 2 ^ 64 by omega)
        have hstring := CDRDecoder.readString_open hid hfits (by rw [Cdr.extent_stringOpen]; exact hin)
          hD
        rw [CDRDecoder.readString, bind_ok hnumber] at hstring
        refine Raises.of_rest (GIOPDecoder.readUlong_on hlen (by omega)) ?_
        refine Raises.of_rest (GIOPDecoder.read_on hstring) ?_
        exact (GIOPDecoder.raises_read hraise).bind
    · right
      refine Raises.of_rest (GIOPDecoder.readUlong_on hlen (by omega)) ?_
      exact (GIOPDecoder.raises_read hraise).bind
  · exact Or.inr (GIOPDecoder.raises_read hraise).bind

end IOR

end Corba
