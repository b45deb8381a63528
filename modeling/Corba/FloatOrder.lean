/-
Floating point numbers in the other byte order.

A peer announces its byte order and sends everything in it.  The decoder swaps what it reads when
this is not its own order.  It swaps integers, but a floating point number it converts to an integer
first and back afterwards, and the elements of a sequence it does not swap at all.

Main definitions:

* `Corba.Value.foreign` — what the decoder makes of a value in the other byte order;
* `Corba.Value.Symmetric` — the values it makes the same of;
* `Corba.Encodings` — a value in both byte orders.

Main results:

* `Corba.Reader.read_foreign` — reading what is laid out in the other byte order;
* `Corba.order_independent_iff` — exactly which values are read alike in both byte orders.
-/

import Corba.CdrRoundTrip
import Corba.SwapFloat

set_option relaxedAutoImplicit false
set_option autoImplicit false

namespace Corba

open Layout ByteOrder Placed Exec CDRDecoder

/-! ### Values in the other byte order -/

/-- What the decoder makes of a value that is laid out in the other byte order, unless it converts a
number that is out of range. -/
def Value.foreign : Value → Option Value
  | .float bits =>
      (Ieee.Format.single.reread 4 (swap 4 bits.toNat)).map fun n => .float (UInt32.ofNat n)
  | .double bits =>
      (Ieee.Format.double.reread 8 (swap 8 bits.toNat)).map fun n => .double (UInt64.ofNat n)
  | .sequenceFloat bits =>
      some (.sequenceFloat (bits.map fun b => UInt32.ofNat (swap 4 b.toNat)))
  | .sequenceDouble bits =>
      some (.sequenceDouble (bits.map fun b => UInt64.ofNat (swap 8 b.toNat)))
  | v => some v

/-- Of floating point numbers, zero is the same in both byte orders; of the elements of a sequence,
those whose octets are the same from both ends. -/
def Value.Symmetric : Value → Prop
  | .float bits => bits = 0
  | .double bits => bits = 0
  | .sequenceFloat bits => ∀ b ∈ bits, swap 4 b.toNat = b.toNat
  | .sequenceDouble bits => ∀ b ∈ bits, swap 8 b.toNat = b.toNat
  | _ => True

/-- **What the decoder makes of a value is the value, exactly if the value is symmetric.** -/
theorem Value.foreign_eq_iff (v : Value) : v.foreign = some v ↔ v.Symmetric := by
  cases v with
  | float bits =>
      have hiff := Ieee.Format.reread_single_iff bits.toNat_lt
      have hzero : bits.toNat = 0 ↔ bits = 0 := UInt32.toNat_inj (b := 0)
      rw [Value.Symmetric, ← hzero, ← hiff, Value.foreign, Option.map_eq_some_iff]
      constructor
      · rintro ⟨n, hn, hbits⟩
        have hlt : n < 2 ^ 32 := Ieee.Format.reread_lt Ieee.Format.fills_single (by decide) hn
        cases hbits
        rwa [UInt32.toNat_ofNat_of_lt' hlt] at hn ⊢
      · intro hn
        exact ⟨_, hn, by rw [UInt32.ofNat_toNat]⟩
  | double bits =>
      have hiff := Ieee.Format.reread_double_iff bits.toNat_lt
      have hzero : bits.toNat = 0 ↔ bits = 0 := UInt64.toNat_inj (b := 0)
      rw [Value.Symmetric, ← hzero, ← hiff, Value.foreign, Option.map_eq_some_iff]
      constructor
      · rintro ⟨n, hn, hbits⟩
        have hlt : n < 2 ^ 64 := Ieee.Format.reread_lt Ieee.Format.fills_double (by decide) hn
        cases hbits
        rwa [UInt64.toNat_ofNat_of_lt' hlt] at hn ⊢
      · intro hn
        exact ⟨_, hn, by rw [UInt64.ofNat_toNat]⟩
  | sequenceFloat bits =>
      have hmap := List.map_inj_left (l := bits)
        (f := fun b : UInt32 => UInt32.ofNat (swap 4 b.toNat)) (g := id)
      rw [List.map_id] at hmap
      rw [Value.Symmetric, Value.foreign, Option.some.injEq, Value.sequenceFloat.injEq, hmap]
      refine forall₂_congr fun b _ => ?_
      rw [id, ← UInt32.toNat_inj, UInt32.toNat_ofNat_of_lt' (swap_lt 4 b.toNat)]
  | sequenceDouble bits =>
      have hmap := List.map_inj_left (l := bits)
        (f := fun b : UInt64 => UInt64.ofNat (swap 8 b.toNat)) (g := id)
      rw [List.map_id] at hmap
      rw [Value.Symmetric, Value.foreign, Option.some.injEq, Value.sequenceDouble.injEq, hmap]
      refine forall₂_congr fun b _ => ?_
      rw [id, ← UInt64.toNat_inj, UInt64.toNat_ofNat_of_lt' (swap_lt 8 b.toNat)]
  | boolean _ | octet _ | ushort _ | ulong _ | ulonglong _ | short _ | long _ | longlong _
  | string _ | blob _ => exact iff_of_true rfl trivial

/-! ### Reading in the other byte order -/

section Numbers

variable [Platform] {D : Octets} {o : ℕ} {e : Endian}

/-- What comes of a number that is converted, unless it is out of range. -/
def converted {α : Type} (d : CDRDecoder) : Option α → EStateM.Result Fault CDRDecoder α
  | some a => .ok a d
  | none => .error (.undefined .conversion) d

omit [Platform] in
theorem converted_map {α β : Type} {x : DecodeM α} {d d' : CDRDecoder} {a : Option α}
    (hx : x d = converted d' a) (g : α → β) :
    (do return g (← x)) d = converted d' (a.map g) := by
  cases a with
  | none => exact bind_error hx _
  | some a => exact map_ok hx g

/-- The bit pattern of a floating point number goes through an integer. -/
theorem floating_foreign (he : e ≠ native) {f : Ieee.Format} {p : DecodeM ℕ} {w o' n : ℕ}
    (hat : At D o' (e.bytes w n))
    (hp : p ⟨D, o, some e⟩ = .ok o' ⟨D, o' + w, some e⟩) (hn : n < 256 ^ w) :
    floating f p w ⟨D, o, some e⟩ = converted ⟨D, o' + w, some e⟩ (f.reread w (swap w n)) := by
  have hfetch : fetch o' w ⟨D, o' + w, some e⟩ = .ok (e.bytes w n) ⟨D, o' + w, some e⟩ := by
    have h := fetch_run (d := ⟨D, o' + w, some e⟩) hat
    rwa [Endian.length_bytes] at h
  have hvalue : native.value (e.bytes w n) = swap w n := by
    rw [Endian.eq_flip_of_ne he, e.flip_value_bytes hn]
  have hne : ¬ some e = some (native : Endian) := fun h => he (Option.some.inj h)
  rw [floating, bind_ok hp, bind_ok hfetch, bind_ok (get_run _), if_neg hne, hvalue,
    Ieee.Format.reread]
  cases f.truncate (8 * w) (swap w n) with
  | none => rfl
  | some m => rfl

theorem readFloat_foreign (he : e ≠ native) {v : UInt32} (h : Laid D o (Cdr.ulong e v))
    (hD : D.length < 2 ^ 64) :
    readFloat ⟨D, o, some e⟩ = converted ⟨D, roundUp 4 o + 4, some e⟩
      ((Ieee.Format.single.reread 4 (swap 4 v.toNat)).map UInt32.ofNat) := by
  have hat : At D (roundUp 4 o) (e.bytes 4 v.toNat) := (laid_raw.1 (laid_align.1 h)).1
  have hlen := hat.le_length (List.ne_nil_of_length_pos (by simp))
  rw [Endian.length_bytes] at hlen
  exact converted_map (floating_foreign he hat (ptr4_run hlen (by omega)) v.toNat_lt) _

theorem readDouble_foreign (he : e ≠ native) {v : UInt64} (h : Laid D o (Cdr.ulonglong e v))
    (hD : D.length < 2 ^ 64) :
    readDouble ⟨D, o, some e⟩ = converted ⟨D, roundUp 8 o + 8, some e⟩
      ((Ieee.Format.double.reread 8 (swap 8 v.toNat)).map UInt64.ofNat) := by
  have hat : At D (roundUp 8 o) (e.bytes 8 v.toNat) := (laid_raw.1 (laid_align.1 h)).1
  have hlen := hat.le_length (List.ne_nil_of_length_pos (by simp))
  rw [Endian.length_bytes] at hlen
  exact converted_map (floating_foreign he hat (ptr8_run hlen (by omega)) v.toNat_lt) _

/-- The elements of a span are swapped. -/
theorem elements_foreign (he : e ≠ native) {β : Type} {d : CDRDecoder} {w p : ℕ} {f : β → ℕ}
    {vs : List β} (hw : 0 < w) (hf : ∀ v, f v < 256 ^ w)
    (h : At d.data p (vs.flatMap fun v => e.bytes w (f v))) :
    elements w ⟨p, vs.length * w⟩ d = .ok (vs.map fun v => swap w (f v)) d := by
  refine elements_run hw (fun v => swap_lt w (f v)) ?_
  have hflip : native = e.flip := Endian.eq_flip_of_ne he
  simp only [hflip, Endian.flip_bytes_swap e (hf _)]
  exact h

theorem floats_foreign (he : e ≠ native) {d : CDRDecoder} {vs : List UInt32}
    (h : Laid d.data o (Cdr.floats e vs)) :
    floats ⟨roundUp 4 o + 4, vs.length * 4⟩ d =
      .ok (vs.map fun b => UInt32.ofNat (swap 4 b.toNat)) d := by
  have hat := (laid_append.1 h).2
  rw [Cdr.extent_ulong, laid_raw] at hat
  rw [floats, bind_ok (elements_foreign he (by decide) (fun v => v.toNat_lt) hat.1), pure_run,
    List.map_map]
  rfl

theorem doubles_foreign (he : e ≠ native) {d : CDRDecoder} {vs : List UInt64}
    (h : Laid d.data o (Cdr.doubles e vs)) :
    doubles ⟨roundUp 8 (roundUp 4 o + 4), vs.length * 8⟩ d =
      .ok (vs.map fun b => UInt64.ofNat (swap 8 b.toNat)) d := by
  have hat := (laid_append.1 h).2
  rw [Cdr.extent_ulong, laid_align, laid_raw] at hat
  rw [doubles, bind_ok (elements_foreign he (by decide) (fun v => v.toNat_lt) hat.1), pure_run,
    List.map_map]
  rfl

/-- **What a matching reader makes of a value that is laid out in the other byte order.** -/
theorem Reader.read_foreign (he : e ≠ native) {v : Value} {r : Reader} (hr : r ∈ v.readers)
    (hv : v.Fits) (h : Laid D o (v.items e)) (hD : D.length < 2 ^ 63) :
    r.read ⟨D, o, some e⟩ = converted ⟨D, extent o (v.items e), some e⟩ v.foreign := by
  have hD' : D.length < 2 ^ 64 := by omega
  cases v with
  | float bits =>
      obtain rfl : r = .float := by simpa [Value.readers] using hr
      have hrun := converted_map (readFloat_foreign he h hD') Value.float
      rw [Option.map_map] at hrun
      rw [Value.items, Cdr.extent_ulong]
      exact hrun
  | double bits =>
      obtain rfl : r = .double := by simpa [Value.readers] using hr
      have hrun := converted_map (readDouble_foreign he h hD') Value.double
      rw [Option.map_map] at hrun
      rw [Value.items, Cdr.extent_ulonglong]
      exact hrun
  | sequenceFloat bits =>
      exact Reader.read_floats hr hv h hD fun d hd => floats_foreign he (hd ▸ h)
  | sequenceDouble bits =>
      exact Reader.read_doubles hr hv h hD fun d hd => doubles_foreign he (hd ▸ h)
  | boolean _ | octet _ | ushort _ | ulong _ | ulonglong _ | short _ | long _ | longlong _
  | string _ | blob _ => exact Reader.read_plain trivial hr hv h hD

/-- A value is read as itself in the other byte order only if it is symmetric. -/
theorem Reader.read_foreign_iff (he : e ≠ native) {v : Value} {r : Reader} (hr : r ∈ v.readers)
    (hv : v.Fits) (h : Laid D o (v.items e)) (hD : D.length < 2 ^ 63) :
    (∃ d, r.read ⟨D, o, some e⟩ = .ok v d) ↔ v.Symmetric := by
  rw [← v.foreign_eq_iff, Reader.read_foreign he hr hv h hD]
  cases v.foreign with
  | none => exact iff_of_false (fun ⟨_, h⟩ => by cases h) (fun h => by cases h)
  | some v' =>
      constructor
      · rintro ⟨d, h⟩
        cases h
        rfl
      · intro h
        cases h
        exact ⟨_, rfl⟩

end Numbers

/-! ### Both byte orders -/

/-- A value laid out in a buffer in each byte order. -/
structure Encodings (v : Value) where
  data : Endian → Octets
  offset : Endian → ℕ
  laid : ∀ e, Laid (data e) (offset e) (v.items e)
  size : ∀ e, (data e).length < 2 ^ 63

namespace Encodings

variable [Platform] {v : Value}

/-- The decoder that has been told the byte order of its buffer. -/
def decoder (x : Encodings v) (e : Endian) : CDRDecoder :=
  ⟨x.data e, x.offset e, some e⟩

/-- The big endian decoder and the little endian decoder yield the same value. -/
def SameRead (x : Encodings v) (r : Reader) : Prop :=
  ∃ v' d d', r.read (x.decoder .big) = .ok v' d ∧ r.read (x.decoder .little) = .ok v' d'

/-- One of the two byte orders is the native one, and in this the value is read as it is. -/
theorem sameRead_iff (x : Encodings v) {r : Reader} (hr : r ∈ v.readers) (hv : v.Fits) {e : Endian}
    (he : e ≠ native) : x.SameRead r ↔ ∃ d, r.read (x.decoder e) = .ok v d := by
  have hnative := Reader.read_run hr hv (x.laid native) (x.size native)
  have hflip : native = e.flip := Endian.eq_flip_of_ne he
  rw [hflip] at hnative
  cases e with
  | big =>
      constructor
      · rintro ⟨v', d, d', hbig, hlittle⟩
        cases hnative.symm.trans hlittle
        exact ⟨d, hbig⟩
      · rintro ⟨d, hbig⟩
        exact ⟨v, d, _, hbig, hnative⟩
  | little =>
      constructor
      · rintro ⟨v', d, d', hbig, hlittle⟩
        cases hnative.symm.trans hbig
        exact ⟨d', hlittle⟩
      · rintro ⟨d, hlittle⟩
        exact ⟨v, _, d, hnative, hlittle⟩

omit [Platform] in
/-- A value laid out from the start of a vector. -/
def encode (v : Value) (h : ∀ e, (({} : CDREncoder).put (v.items e)).data.length < 2 ^ 63) :
    Encodings v where
  data e := (({} : CDREncoder).put (v.items e)).data
  offset _ := 0
  laid e := CDREncoder.laid_put (v.items e) {}
  size := h

end Encodings

/-- **Exactly the symmetric values are read alike in both byte orders**, wherever they stand in
whatever buffers. -/
theorem order_independent_iff [Platform] {v : Value} (x : Encodings v) {r : Reader}
    (hr : r ∈ v.readers) (hv : v.Fits) : x.SameRead r ↔ v.Symmetric := by
  obtain ⟨e, he⟩ : ∃ e : Endian, e ≠ native :=
    ⟨(native : Endian).flip, by cases (native : Endian) <;> decide⟩
  rw [x.sameRead_iff hr hv he]
  exact Reader.read_foreign_iff he hr hv (x.laid e) (x.size e)

/-- The octets of the element are the same from both ends. -/
theorem order_independent_palindrome :
    letI : Platform := ⟨.little⟩
    ∃ x : Encodings (.sequenceFloat [0x01020201]),
      x.data .big = [0, 0, 0, 1, 1, 2, 2, 1] ∧ x.data .little = [1, 0, 0, 0, 1, 2, 2, 1] ∧
        x.SameRead .sequenceSpanFloat := by
  let : Platform := ⟨.little⟩
  have hsymmetric : (Value.sequenceFloat [0x01020201]).Symmetric := by
    intro b hb
    obtain rfl : b = 0x01020201 := by simpa using hb
    decide
  refine ⟨Encodings.encode _ fun e => by cases e <;> decide, rfl, rfl, ?_⟩
  exact (order_independent_iff _ (by decide) (by decide)).2 hsymmetric

/-- A little endian host takes 1.0 for 0.0 when it comes from a big endian peer, and so it does with
another number for the element of a sequence. -/
theorem order_dependent :
    letI : Platform := ⟨.little⟩
    readFloat ⟨[0, 0, 0x80, 0x3f], 0, some .little⟩ =
        .ok 0x3f800000 ⟨[0, 0, 0x80, 0x3f], 4, some .little⟩ ∧
      readFloat ⟨[0x3f, 0x80, 0, 0], 0, some .big⟩ =
        .ok 0 ⟨[0x3f, 0x80, 0, 0], 4, some .big⟩ ∧
      readSequenceVectorFloat ⟨[1, 0, 0, 0, 0, 0, 0x80, 0x3f], 0, some .little⟩ =
        .ok [0x3f800000] ⟨[1, 0, 0, 0, 0, 0, 0x80, 0x3f], 8, some .little⟩ ∧
      readSequenceVectorFloat ⟨[0, 0, 0, 1, 0x3f, 0x80, 0, 0], 0, some .big⟩ =
        .ok [0x0000803f] ⟨[0, 0, 0, 1, 0x3f, 0x80, 0, 0], 8, some .big⟩ ∧
      ¬ ∀ (v : Value) (x : Encodings v), v.Fits → ∀ r ∈ v.readers, x.SameRead r := by
  refine ⟨by rfl, by rfl, by rfl, by rfl, fun hall => ?_⟩
  obtain ⟨v, d, d', hbig, hlittle⟩ :=
    hall (.float 0x3f800000) (Encodings.encode _ fun e => by cases e <;> decide) trivial .float
      (by decide)
  cases hbig
  cases hlittle

end Corba
