/-
What has been read stands in the buffer.

The layouts say what a reader yields.  Here is the other direction: a number or a string that has
been read is laid out at the offset it was read from.  The octet that ends a string is not part of
this, since it is passed over.

Main definitions:

* `Corba.Cdr.stringOpen` — a string the last octet of which may be any.

Main results:

* `Corba.CDRDecoder.readUlong_sound`, `Corba.CDRDecoder.readString_sound` — what has been read is
  laid out;
* `Corba.CDRDecoder.readString_open` — what is laid out is read.
-/

import Corba.CdrDecoder

set_option relaxedAutoImplicit false
set_option autoImplicit false

namespace Corba

open Layout ByteOrder Placed Exec

namespace Cdr

/-- A string the last octet of which may be any. -/
def stringOpen (e : Endian) (s : Octets) : Items :=
  ulong e (UInt32.ofNat (s.length + 1)) ++ [.raw s, .skip 1]

@[simp] theorem extent_stringOpen (o : ℕ) (e : Endian) (s : Octets) :
    extent o (stringOpen e s) = roundUp 4 o + 4 + (s.length + 1) := by
  rw [stringOpen, extent_append, extent_ulong]
  simp only [extent_raw, extent_skip, extent_nil]
  omega

theorem laid_stringOpen {D : Octets} {o : ℕ} {e : Endian} {s : Octets}
    (h : Laid D o (string e s)) : Laid D o (stringOpen e s) := by
  obtain ⟨hlen, hbody⟩ := laid_append.1 h
  refine laid_append.2 ⟨hlen, ?_⟩
  rw [laid_raw]
  exact ⟨(at_append.1 (laid_raw.1 hbody).1).1, laid_skip.2 (laid_nil _ _)⟩

/-- A number that is laid out ends in the buffer. -/
theorem laid_ulong_le {D : Octets} {o : ℕ} {e : Endian} {v : UInt32} (h : Laid D o (ulong e v)) :
    roundUp 4 o + 4 ≤ D.length := by
  have hat : At D (roundUp 4 o) (e.bytes 4 v.toNat) := (laid_raw.1 (laid_align.1 h)).1
  have hle := hat.le_length (List.ne_nil_of_length_pos (by rw [Endian.length_bytes]; decide))
  rwa [Endian.length_bytes] at hle

/-- There is one number at a place. -/
theorem laid_ulong_inj {D : Octets} {o : ℕ} {e : Endian} {v w : UInt32} (h : Laid D o (ulong e v))
    (h' : Laid D o (ulong e w)) : v = w := by
  have hat : At D (roundUp 4 o) (e.bytes 4 v.toNat) := (laid_raw.1 (laid_align.1 h)).1
  have hat' : At D (roundUp 4 o) (e.bytes 4 w.toNat) := (laid_raw.1 (laid_align.1 h')).1
  have hbytes : e.bytes 4 v.toNat = e.bytes 4 w.toNat := by
    have htake := hat.take_drop
    have htake' := hat'.take_drop
    rw [Endian.length_bytes] at htake htake'
    exact htake.symm.trans htake'
  have hvalue := congrArg e.value hbytes
  rw [e.value_bytes v.toNat_lt, e.value_bytes w.toNat_lt] at hvalue
  exact UInt32.toNat.inj hvalue

end Cdr

namespace CDRDecoder

variable [Platform] {D : Octets} {o : ℕ} {e : Endian}

omit [Platform] in
/-- Four octets are some number. -/
theorem exists_ulong (e : Endian) (h : roundUp 4 o + 4 ≤ D.length) :
    ∃ v, Laid D o (Cdr.ulong e v) := by
  let bs := (D.drop (roundUp 4 o)).take 4
  have hbs : bs.length = 4 := by
    rw [List.length_take, List.length_drop]
    omega
  have hlt : e.value bs < 2 ^ 32 := by
    have := e.value_lt bs
    rwa [hbs] at this
  have hbytes : e.bytes 4 (e.value bs) = bs := by
    have := e.bytes_value bs
    rwa [hbs] at this
  refine ⟨UInt32.ofNat (e.value bs), laid_align.2 (laid_raw.2 ⟨?_, laid_nil _ _⟩)⟩
  rw [UInt32.toNat_ofNat_of_lt' hlt, hbytes]
  exact at_take_drop

omit [Platform] in
/-- A pointer is only returned when what it points at is in the buffer. -/
theorem ptr_sound {n pos : ℕ} {what : ℕ → ℕ → String} {d' : CDRDecoder}
    (h : ptr n what ⟨D, o, some e⟩ = .ok pos d') (hno : o + n < 2 ^ 64) :
    o + n ≤ D.length ∧ pos = o ∧ d' = ⟨D, o + n, some e⟩ := by
  have hskip : skip n ⟨D, o, some e⟩ = ⟨D, o + n, some e⟩ := by
    rw [skip, sizeT_of_lt hno]
  rw [ptr, hskip] at h
  dsimp only at h
  split at h
  · cases h
  · rename_i hle
    cases h
    exact ⟨Nat.le_of_not_lt hle, rfl, rfl⟩

/-- **A number that has been read is laid out.** -/
theorem readUlong_sound {v : UInt32} {d' : CDRDecoder}
    (h : readUlong ⟨D, o, some e⟩ = .ok v d') (ho : o ≤ D.length) (hD : D.length < 2 ^ 63) :
    Laid D o (Cdr.ulong e v) ∧ d' = ⟨D, roundUp 4 o + 4, some e⟩ := by
  have hround := roundUp_lt (show 0 < 4 by decide) o
  have hle : roundUp 4 o + 4 ≤ D.length := by
    rw [readUlong, bind_eq_ok] at h
    obtain ⟨n, d₁, hword, -⟩ := h
    rw [word, bind_eq_ok] at hword
    obtain ⟨pos, d₂, hptr, -⟩ := hword
    rw [ptr4, modify_bind, align4_eq, sizeT_of_lt (show roundUp 4 o < 2 ^ 64 by omega)] at hptr
    exact (ptr_sound hptr (by omega)).1
  obtain ⟨w, hw⟩ := exists_ulong (D := D) (o := o) e hle
  rw [readUlong_run hw (by omega)] at h
  cases h
  exact ⟨hw, rfl⟩

/-- A string that is laid out is read, whatever ends it. -/
theorem readString_open {v : Octets} (h : Laid D o (Cdr.stringOpen e v))
    (hv : v.length + 1 < 2 ^ 32) (hle : extent o (Cdr.stringOpen e v) ≤ D.length)
    (hD : D.length < 2 ^ 63) :
    readString ⟨D, o, some e⟩ = .ok v ⟨D, extent o (Cdr.stringOpen e v), some e⟩ := by
  obtain ⟨hlen, hbody⟩ := laid_append.1 h
  rw [Cdr.extent_ulong, laid_raw] at hbody
  rw [Cdr.extent_stringOpen] at hle ⊢
  have hn : (UInt32.ofNat (v.length + 1)).toNat = v.length + 1 := UInt32.toNat_ofNat_of_lt' hv
  have hsize : sizeT (v.length + 1 + (2 ^ 64 - 1)) = v.length := by
    unfold sizeT
    omega
  have hmax : ¬ maxStringSize < v.length := by
    unfold maxStringSize
    omega
  rw [readString, bind_ok (readUlong_run hlen (by omega)), hn, readStringOf,
    bind_ok (ptr_run (d := ⟨D, roundUp 4 o + 4, some e⟩) hle (hle.trans_lt (by omega))), hsize]
  simp only [hmax, if_false]
  exact fetch_run (d := ⟨D, _, _⟩) hbody.1

omit [Platform] in
/-- The octets of a string stand behind its length. -/
theorem at_stringOpen {v : Octets} (h : Laid D o (Cdr.stringOpen e v)) :
    At D (roundUp 4 o + 4) v := by
  have hbody := (laid_append.1 h).2
  rw [Cdr.extent_ulong] at hbody
  exact (laid_raw.1 hbody).1

theorem readStringView_open {v : Octets} (h : Laid D o (Cdr.stringOpen e v))
    (hv : v.length + 1 < 2 ^ 32) (hle : extent o (Cdr.stringOpen e v) ≤ D.length)
    (hD : D.length < 2 ^ 64) :
    readStringView ⟨D, o, some e⟩ =
      .ok ⟨roundUp 4 o + 4, v.length⟩ ⟨D, extent o (Cdr.stringOpen e v), some e⟩ := by
  have hlen := (laid_append.1 h).1
  rw [Cdr.extent_stringOpen] at hle ⊢
  have hn : (UInt32.ofNat (v.length + 1)).toNat = v.length + 1 := UInt32.toNat_ofNat_of_lt' hv
  have hsize : sizeT (v.length + 1 + (2 ^ 64 - 1)) = v.length := by
    unfold sizeT
    omega
  rw [readStringView, bind_ok (readUlong_run hlen hD), hn, readStringViewOf,
    bind_ok (ptr_run (d := ⟨D, roundUp 4 o + 4, some e⟩) hle (hle.trans_lt hD)), hsize]
  rfl

/-- The size of a view of a string without any octets wraps around. -/
theorem readStringView_zero (h : Laid D o (Cdr.ulong e 0)) (hD : D.length < 2 ^ 64) :
    readStringView ⟨D, o, some e⟩ =
      .ok ⟨roundUp 4 o + 4, 2 ^ 64 - 1⟩ ⟨D, roundUp 4 o + 4, some e⟩ := by
  have hle : roundUp 4 o + 4 + 0 ≤ D.length := Cdr.laid_ulong_le h
  have hptr : ptr 0 outOfRange ⟨D, roundUp 4 o + 4, some e⟩ = _ := ptr_run hle (hle.trans_lt hD)
  rw [readStringView, bind_ok (readUlong_run h hD)]
  show readStringViewOf 0 _ = _
  rw [readStringViewOf, bind_ok hptr]
  rfl

omit [Platform] in
/-- Behind a length that is not zero there is a string. -/
theorem exists_stringOpen {len : UInt32} (hlen : Laid D o (Cdr.ulong e len)) (hpos : len ≠ 0)
    (hfits : roundUp 4 o + 4 + len.toNat ≤ D.length) :
    ∃ v : Octets, Laid D o (Cdr.stringOpen e v) ∧ v.length + 1 = len.toNat := by
  have hpos : len.toNat ≠ 0 := fun hzero => hpos (UInt32.toNat_inj.1 hzero)
  have hv : ((D.drop (roundUp 4 o + 4)).take (len.toNat - 1)).length + 1 = len.toNat := by
    rw [List.length_take, List.length_drop]
    omega
  refine ⟨(D.drop (roundUp 4 o + 4)).take (len.toNat - 1), laid_append.2 ⟨?_, ?_⟩, hv⟩
  · rw [hv, UInt32.ofNat_toNat]
    exact hlen
  · rw [Cdr.extent_ulong, laid_raw]
    exact ⟨at_take_drop, laid_skip.2 (laid_nil _ _)⟩

/-- A string that has been read is laid out, and lies in the buffer with the octet that ends it. -/
theorem readString_sound {v : Octets} {d' : CDRDecoder}
    (h : readString ⟨D, o, some e⟩ = .ok v d') (ho : o ≤ D.length) (hD : D.length < 2 ^ 63) :
    Laid D o (Cdr.stringOpen e v) ∧ v.length + 1 < 2 ^ 32 ∧
      extent o (Cdr.stringOpen e v) ≤ D.length ∧
      d' = ⟨D, extent o (Cdr.stringOpen e v), some e⟩ := by
  have hrun := h
  rw [readString, bind_eq_ok] at h
  obtain ⟨len, d₁, hlen, h⟩ := h
  obtain ⟨hlaid, rfl⟩ := readUlong_sound hlen ho hD
  have hlt := len.toNat_lt
  have hround := roundUp_lt (show 0 < 4 by decide) o
  rw [readStringOf, bind_eq_ok] at h
  obtain ⟨pos, d₂, hptr, h⟩ := h
  obtain ⟨hle, rfl, rfl⟩ := ptr_sound hptr (by omega)
  -- the length is not zero, or the size would be larger than any string
  have hne : len ≠ 0 := by
    rintro rfl
    split at h
    · cases h
    · rename_i hmax
      exact hmax (by decide)
  obtain ⟨v', hv', hlength⟩ := exists_stringOpen hlaid hne hle
  have hend : extent o (Cdr.stringOpen e v') ≤ D.length := by
    rw [Cdr.extent_stringOpen, hlength]
    exact hle
  rw [readString_open hv' (by omega) hend hD] at hrun
  cases hrun
  exact ⟨hv', by omega, hend, rfl⟩

omit [Platform] in
/-- Behind a length there is a blob. -/
theorem exists_blob {len : UInt32} (hlen : Laid D o (Cdr.ulong e len))
    (hfits : roundUp 4 o + 4 + len.toNat ≤ D.length) :
    ∃ v : Octets, Laid D o (Cdr.blob e v) ∧ v.length = len.toNat := by
  have hv : ((D.drop (roundUp 4 o + 4)).take len.toNat).length = len.toNat := by
    rw [List.length_take, List.length_drop]
    omega
  refine ⟨(D.drop (roundUp 4 o + 4)).take len.toNat, laid_append.2 ⟨?_, ?_⟩, hv⟩
  · rw [hv, UInt32.ofNat_toNat]
    exact hlen
  · rw [Cdr.extent_ulong, laid_raw]
    exact ⟨at_take_drop, laid_nil _ _⟩

end CDRDecoder

end Corba
