/-
The CDR encoder.

`CDREncoder` of `src/corba/cdr.hh` appends values to a byte vector at an offset.  The offset can
run ahead of the vector: alignment and reserved room only move it, and the vector is grown when
something is stored.  Numbers are stored in the byte order of the host.

Main definitions:

* `Corba.Platform` — the host, of which only the byte order matters;
* `Corba.CDREncoder` and its writers, `reserveSize` and `fillInSize`;
* `Corba.CDREncoder.put` — laying out items at the offset, which is what all writers do;
* `Corba.CDREncoder.Wrote` — a program has laid out items at the offset;
* `Corba.CDREncoder.Clean` — nothing stands beyond the offset.

Main results:

* `Corba.CDREncoder.writeUlong_eq`, … — each writer lays out its value;
* `Corba.CDREncoder.laid_put`, `Corba.CDREncoder.keep_put` — what laying out leaves in the vector;
* `Corba.CDREncoder.fillInSize_run` — what filling in a size does;
* `Corba.CDREncoder.Wrote.sized`, `Corba.CDREncoder.Wrote.patch` — going back to fill something in
  is as good as having written it in the first place.
-/

import Corba.CdrLayout
import Corba.Exec

set_option relaxedAutoImplicit false
set_option autoImplicit false

namespace Corba

open Layout ByteOrder Placed

/-- The host the code runs on: `std::endian::native`. -/
class Platform where
  native : Endian

export Platform (native)

/-- `CDREncoder`: the bytes, the offset of the next write and the stack of reserved sizes, whose
head is the one reserved last. -/
structure CDREncoder where
  data : Octets := []
  offset : ℕ := 0
  sizeStack : List ℕ := []
  deriving DecidableEq, Repr

namespace CDREncoder

/-! ### Alignment and memory -/

/-- `align2()` does not set the low bit first, which is set already. -/
def align2 (e : CDREncoder) : CDREncoder :=
  { e with offset := if e.offset &&& 0x01 ≠ 0 then e.offset + 1 else e.offset }

def align4 (e : CDREncoder) : CDREncoder := { e with offset := maskUp 0x03 e.offset }

def align8 (e : CDREncoder) : CDREncoder := { e with offset := maskUp 0x07 e.offset }

/-- `reserve()`: the vector reaches up to the offset. -/
def reserve (e : CDREncoder) : CDREncoder := { e with data := padTo 0 e.offset e.data }

/-- `reserve(offset + n)`, a copy of `n` octets to the offset, and `offset += n`. -/
def store (bs : Octets) (e : CDREncoder) : CDREncoder :=
  { e with data := Placed.store 0 e.data e.offset bs, offset := e.offset + bs.length }

/-! ### The writers -/

section Writers

variable [Platform]

def writeBoolean (value : Bool) (e : CDREncoder) : CDREncoder :=
  e.store [if value then 1 else 0]

def writeOctet (value : UInt8) (e : CDREncoder) : CDREncoder := e.store [value]

def writeEndian (e : CDREncoder) : CDREncoder :=
  e.writeOctet (if native = .big then 0 else 1)

def writeUshort (value : UInt16) (e : CDREncoder) : CDREncoder :=
  e.align2.store (native.bytes 2 value.toNat)

def writeUlong (value : UInt32) (e : CDREncoder) : CDREncoder :=
  e.align4.store (native.bytes 4 value.toNat)

def writeUlonglong (value : UInt64) (e : CDREncoder) : CDREncoder :=
  e.align8.store (native.bytes 8 value.toNat)

def writeShort (value : Int16) (e : CDREncoder) : CDREncoder :=
  e.align2.store (native.bytes 2 value.toUInt16.toNat)

def writeLong (value : Int32) (e : CDREncoder) : CDREncoder :=
  e.align4.store (native.bytes 4 value.toUInt32.toNat)

def writeLonglong (value : Int64) (e : CDREncoder) : CDREncoder :=
  e.align8.store (native.bytes 8 value.toUInt64.toNat)

/-- `value` is the bit pattern of the `float`. -/
def writeFloat (value : UInt32) (e : CDREncoder) : CDREncoder :=
  e.align4.store (native.bytes 4 value.toNat)

/-- `value` is the bit pattern of the `double`. -/
def writeDouble (value : UInt64) (e : CDREncoder) : CDREncoder :=
  e.align8.store (native.bytes 8 value.toNat)

def writeBlob (value : Octets) (e : CDREncoder) : CDREncoder :=
  (e.writeUlong (UInt32.ofNat value.length)).store value

def writeString (value : Octets) (e : CDREncoder) : CDREncoder :=
  (e.writeUlong (UInt32.ofNat (value.length + 1))).store (value ++ [0])

/-- `writeSequence(const std::span<float> &)`.  The offset is aligned at four already. -/
def writeSequenceFloat (value : List UInt32) (e : CDREncoder) : CDREncoder :=
  (e.writeUlong (UInt32.ofNat value.length)).store (value.flatMap fun v => native.bytes 4 v.toNat)

/-- `writeSequence(const std::span<double> &)`. -/
def writeSequenceDouble (value : List UInt64) (e : CDREncoder) : CDREncoder :=
  (e.writeUlong (UInt32.ofNat value.length)).align8.store
    (value.flatMap fun v => native.bytes 8 v.toNat)

/-- The writer of each type. -/
def writeValue : Value → CDREncoder → CDREncoder
  | .boolean v => writeBoolean v
  | .octet v => writeOctet v
  | .ushort v => writeUshort v
  | .ulong v => writeUlong v
  | .ulonglong v => writeUlonglong v
  | .short v => writeShort v
  | .long v => writeLong v
  | .longlong v => writeLonglong v
  | .float v => writeFloat v
  | .double v => writeDouble v
  | .string v => writeString v
  | .blob v => writeBlob v
  | .sequenceFloat v => writeSequenceFloat v
  | .sequenceDouble v => writeSequenceDouble v

/-- Values written one after the other. -/
def writeValues : List Value → CDREncoder → CDREncoder
  | [], e => e
  | v :: vs, e => writeValues vs (e.writeValue v)

/-- Leave room for a size. -/
def reserveSize (e : CDREncoder) : CDREncoder :=
  let e := e.align4
  { e with offset := e.offset + 4, sizeStack := (e.offset + 4) :: e.sizeStack }

/-- Write the number of octets since the last reserved size into its room.  The difference is
taken modulo `2 ^ 32`, which is what is stored. -/
def fillInSize : EStateM Fault CDREncoder Unit := fun e =>
  match e.sizeStack with
  | [] =>
      .error (.thrown (.runtimeError "internal error: fillinSize() misses reserveSize()")) e
  | savedOffset :: rest =>
      let size := UInt32.ofNat e.offset - UInt32.ofNat savedOffset
      let e' := { e with offset := savedOffset - 4, sizeStack := rest }.writeUlong size
      .ok () { e' with offset := e.offset }

end Writers

/-! ### Alignment is rounding up -/

theorem align2_eq (e : CDREncoder) : e.align2 = { e with offset := roundUp 2 e.offset } := by
  have hand : e.offset &&& 0x01 = e.offset % 2 := Nat.and_two_pow_sub_one_eq_mod e.offset 1
  have hup : (if e.offset % 2 ≠ 0 then e.offset + 1 else e.offset) = roundUp 2 e.offset := by
    unfold roundUp
    split <;> omega
  rw [align2, hand, hup]

theorem align4_eq (e : CDREncoder) : e.align4 = { e with offset := roundUp 4 e.offset } := by
  rw [align4, maskUp_three]

theorem align8_eq (e : CDREncoder) : e.align8 = { e with offset := roundUp 8 e.offset } := by
  rw [align8, maskUp_seven]

/-! ### Writers lay out their values -/

/-- Lay out items at the offset. -/
def put (xs : Cdr.Items) (e : CDREncoder) : CDREncoder :=
  { e with data := write 0 e.data e.offset xs, offset := extent e.offset xs }

@[simp] theorem put_nil (e : CDREncoder) : e.put [] = e := rfl

theorem put_append (xs ys : Cdr.Items) (e : CDREncoder) :
    e.put (xs ++ ys) = (e.put xs).put ys := by
  simp only [put, write_append, extent_append]

@[simp] theorem put_offset (xs : Cdr.Items) (e : CDREncoder) :
    (e.put xs).offset = extent e.offset xs := rfl

@[simp] theorem put_sizeStack (xs : Cdr.Items) (e : CDREncoder) :
    (e.put xs).sizeStack = e.sizeStack := rfl

theorem laid_put (xs : Cdr.Items) (e : CDREncoder) : Laid (e.put xs).data e.offset xs :=
  laid_write 0 e.data e.offset xs

/-- What stands before the offset is kept. -/
theorem keep_put (xs : Cdr.Items) (e : CDREncoder) (a : ℕ) :
    Keep a e.offset e.data (e.put xs).data :=
  keep_write 0 e.data e.offset a xs

theorem store_eq (bs : Octets) (e : CDREncoder) : e.store bs = e.put [.raw bs] := rfl

section Layouts

variable (e : CDREncoder)

theorem writeBoolean_eq (v : Bool) : e.writeBoolean v = e.put (Cdr.boolean v) := rfl

theorem writeOctet_eq (v : UInt8) : e.writeOctet v = e.put (Cdr.octet v) := rfl

variable [Platform]

theorem writeUshort_eq (v : UInt16) : e.writeUshort v = e.put (Cdr.ushort native v) := by
  rw [writeUshort, align2_eq]
  rfl

theorem writeUlong_eq (v : UInt32) : e.writeUlong v = e.put (Cdr.ulong native v) := by
  rw [writeUlong, align4_eq]
  rfl

theorem writeUlonglong_eq (v : UInt64) :
    e.writeUlonglong v = e.put (Cdr.ulonglong native v) := by
  rw [writeUlonglong, align8_eq]
  rfl

theorem writeBlob_eq (v : Octets) : e.writeBlob v = e.put (Cdr.blob native v) := by
  rw [writeBlob, writeUlong_eq, store_eq, Cdr.blob, put_append]

theorem writeString_eq (v : Octets) : e.writeString v = e.put (Cdr.string native v) := by
  rw [writeString, writeUlong_eq, store_eq, Cdr.string, put_append]

theorem writeSequenceFloat_eq (v : List UInt32) :
    e.writeSequenceFloat v = e.put (Cdr.floats native v) := by
  rw [writeSequenceFloat, writeUlong_eq, store_eq, Cdr.floats, put_append]

theorem writeSequenceDouble_eq (v : List UInt64) :
    e.writeSequenceDouble v = e.put (Cdr.doubles native v) := by
  rw [writeSequenceDouble, writeUlong_eq, align8_eq, Cdr.doubles, put_append]
  rfl

/-- **Every writer lays out its value.** -/
theorem writeValue_eq (v : Value) : e.writeValue v = e.put (v.items native) := by
  cases v with
  | boolean v => exact writeBoolean_eq e v
  | octet v => exact writeOctet_eq e v
  | ushort v => exact writeUshort_eq e v
  | ulong v => exact writeUlong_eq e v
  | ulonglong v => exact writeUlonglong_eq e v
  | short v => exact writeUshort_eq e v.toUInt16
  | long v => exact writeUlong_eq e v.toUInt32
  | longlong v => exact writeUlonglong_eq e v.toUInt64
  | float v => exact writeUlong_eq e v
  | double v => exact writeUlonglong_eq e v
  | string v => exact writeString_eq e v
  | blob v => exact writeBlob_eq e v
  | sequenceFloat v => exact writeSequenceFloat_eq e v
  | sequenceDouble v => exact writeSequenceDouble_eq e v

theorem writeValues_eq (vs : List Value) :
    e.writeValues vs = e.put (Value.itemsAll native vs) := by
  induction vs generalizing e with
  | nil => rfl
  | cons v vs ih => rw [writeValues, ih, writeValue_eq, Value.itemsAll_cons, put_append]

end Layouts

/-! ### Sizes that are filled in -/

/-- Reserving a size leaves room for it and remembers where the room ends. -/
theorem reserveSize_eq (e : CDREncoder) :
    e.reserveSize = { e.put [.align 4, .skip 4] with
      sizeStack := (roundUp 4 e.offset + 4) :: e.sizeStack } := by
  simp only [reserveSize, align4_eq]
  rfl

variable [Platform]

/-- Filling in a size stores it into its room and changes nothing else. -/
theorem fillInSize_run {e : CDREncoder} {saved : ℕ} {rest : List ℕ}
    (hstack : e.sizeStack = saved :: rest) (hsaved : (saved - 4) % 4 = 0) :
    fillInSize e = .ok () { e with
      data := Placed.store 0 e.data (saved - 4)
        (native.bytes 4 (UInt32.ofNat e.offset - UInt32.ofNat saved).toNat)
      sizeStack := rest } := by
  simp only [fillInSize, hstack, writeUlong, align4_eq, roundUp_eq_self hsaved]
  rfl

/-! ### What a program has written -/

/-- From `e` to `e'`, the items have been laid out at the offset, and what stood before it has been
left alone.  How it was done, and what stands in the gaps, is left open. -/
structure Wrote (xs : Cdr.Items) (e e' : CDREncoder) : Prop where
  offset : e'.offset = extent e.offset xs
  sizeStack : e'.sizeStack = e.sizeStack
  laid : Laid e'.data e.offset xs
  keep : Keep 0 e.offset e.data e'.data
  le_length : e.data.length ≤ e'.data.length
  length_le : e'.data.length ≤ max e.data.length e'.offset

section Wrote

omit [Platform]

theorem Wrote.put (xs : Cdr.Items) (e : CDREncoder) : e.Wrote xs (e.put xs) where
  offset := rfl
  sizeStack := rfl
  laid := laid_put xs e
  keep := keep_put xs e 0
  le_length := length_le_write 0 e.data e.offset xs
  length_le := length_write_le 0 e.data e.offset xs

theorem Wrote.trans {xs ys : Cdr.Items} {e e' e'' : CDREncoder} (h : e.Wrote xs e')
    (h' : e'.Wrote ys e'') : e.Wrote (xs ++ ys) e'' where
  offset := by rw [h'.offset, h.offset, extent_append]
  sizeStack := h'.sizeStack.trans h.sizeStack
  laid := by
    refine laid_append.2 ⟨h.laid.keep h'.keep (Nat.zero_le _) h.offset.ge, ?_⟩
    rw [← h.offset]
    exact h'.laid
  keep := by
    have hle : e.offset ≤ e'.offset := h.offset ▸ le_extent _ xs
    exact h.keep.trans (h'.keep.mono le_rfl hle)
  le_length := h.le_length.trans h'.le_length
  length_le := by
    have hle : e'.offset ≤ e''.offset := h'.offset ▸ le_extent _ ys
    have h1 := h.length_le
    have h2 := h'.length_le
    omega

theorem Wrote.le_offset {xs : Cdr.Items} {e e' : CDREncoder} (h : e.Wrote xs e') :
    e.offset ≤ e'.offset := h.offset ▸ le_extent _ xs

theorem Wrote.length_le_offset {xs : Cdr.Items} {e e' : CDREncoder} (h : e.Wrote xs e')
    (he : e.data.length ≤ e.offset) : e'.data.length ≤ e'.offset := by
  have hle := h.le_offset
  have hlen := h.length_le
  omega

/-- Coming back to an item that has been left open or is to be replaced. -/
theorem Wrote.patch {xs ys : Cdr.Items} {y : Item UInt8} {bs : Octets} {e e' : CDREncoder}
    (h : e.Wrote (xs ++ y :: ys) e')
    (hlen : y.next (extent e.offset xs) = extent e.offset xs + bs.length) :
    e.Wrote (xs ++ .raw bs :: ys)
      { e' with data := Placed.store 0 e'.data (extent e.offset xs) bs } := by
  have hle := le_extent e.offset xs
  have hend : extent e.offset xs + bs.length ≤ e'.offset := by
    rw [h.offset, extent_append, extent, hlen]
    exact le_extent _ ys
  refine ⟨?_, h.sizeStack, h.laid.patch 0 hlen, ?_, ?_, ?_⟩
  · exact h.offset.trans (extent_patch hlen).symm
  · exact h.keep.trans ((keep_store_below 0 e'.data _ 0 bs).mono le_rfl hle)
  · have := h.le_length
    show _ ≤ (Placed.store 0 e'.data (extent e.offset xs) bs).length
    rw [length_store]
    omega
  · have := h.length_le
    show (Placed.store 0 e'.data (extent e.offset xs) bs).length ≤ max _ e'.offset
    rw [length_store]
    omega

end Wrote

/-- Contents with their size in front of them. -/
theorem Wrote.sized {body : Cdr.Items} {e e' : CDREncoder} (h : e.reserveSize.Wrote body e') :
    ∃ e'', fillInSize e' = .ok () e'' ∧ e.Wrote (Cdr.sized native e.offset body) e'' := by
  have hmod : roundUp 4 e.offset % 4 = 0 := roundUp_mod (by decide) _
  have hres := reserveSize_eq e
  rw [hres] at h
  -- the whole, with the room for the size still open, on the stack it will end with
  have hopen : e.Wrote ([.align 4] ++ .skip 4 :: body) { e' with sizeStack := e.sizeStack } := by
    have hbody : (e.put [.align 4, .skip 4]).Wrote body { e' with sizeStack := e.sizeStack } :=
      ⟨h.offset, rfl, h.laid, h.keep, h.le_length, h.length_le⟩
    exact (Wrote.put [.align 4, .skip 4] e).trans hbody
  have hoff : e'.offset = extent (roundUp 4 e.offset + 4) body := h.offset
  have hle : roundUp 4 e.offset + 4 ≤ e'.offset := h.le_offset
  have hstack : e'.sizeStack = (roundUp 4 e.offset + 4) :: e.sizeStack := h.sizeStack
  have hfill := fillInSize_run hstack (by rw [Nat.add_sub_cancel, hmod])
  refine ⟨_, hfill, ?_⟩
  have hsize : UInt32.ofNat e'.offset - UInt32.ofNat (roundUp 4 e.offset + 4) =
      UInt32.ofNat (extent (roundUp 4 e.offset + 4) body - (roundUp 4 e.offset + 4)) := by
    rw [← hoff, UInt32.ofNat_sub hle]
  rw [hsize, Nat.add_sub_cancel]
  exact hopen.patch (by simp [Item.next])

/-! ### Nothing stands beyond the offset -/

/-- Neither the vector nor the room of a reserved size reaches beyond the offset, and the room of
a reserved size is aligned. -/
structure Clean (e : CDREncoder) : Prop where
  length_le : e.data.length ≤ e.offset
  stack_le : ∀ s ∈ e.sizeStack, s ≤ e.offset
  stack_mod : ∀ s ∈ e.sizeStack, 4 ≤ s ∧ s % 4 = 0

omit [Platform] in
theorem Clean.put {e : CDREncoder} (h : e.Clean) (xs : Cdr.Items) : (e.put xs).Clean where
  length_le := by
    have hle := length_write_le 0 e.data e.offset xs
    have hmono := le_extent e.offset xs
    have hlen := h.length_le
    show (write 0 e.data e.offset xs).length ≤ extent e.offset xs
    omega
  stack_le s hs := (h.stack_le s hs).trans (le_extent e.offset xs)
  stack_mod := h.stack_mod

omit [Platform] in
theorem Clean.reserveSize {e : CDREncoder} (h : e.Clean) : e.reserveSize.Clean := by
  have hput := h.put [.align 4, .skip 4]
  rw [reserveSize_eq]
  refine ⟨hput.length_le, ?_, ?_⟩
  · intro s hs
    rcases List.mem_cons.1 hs with rfl | hs
    · exact le_rfl
    · exact hput.stack_le s hs
  · intro s hs
    rcases List.mem_cons.1 hs with rfl | hs
    · have := roundUp_mod (a := 4) (by decide) e.offset
      omega
    · exact hput.stack_mod s hs

theorem Clean.fillInSize {e e' : CDREncoder} (h : e.Clean)
    (hrun : CDREncoder.fillInSize e = .ok () e') : e'.Clean ∧ e'.offset = e.offset := by
  cases hstack : e.sizeStack with
  | nil => simp [CDREncoder.fillInSize, hstack] at hrun
  | cons saved rest =>
      have hsaved := h.stack_mod saved (by simp [hstack])
      have hle := h.stack_le saved (by simp [hstack])
      have hlen := h.length_le
      rw [fillInSize_run hstack (by omega)] at hrun
      cases hrun
      refine ⟨⟨?_, ?_, ?_⟩, rfl⟩
      · show (Placed.store 0 e.data (saved - 4) _).length ≤ e.offset
        rw [length_store, Endian.length_bytes]
        omega
      · intro s hs
        exact h.stack_le s (by simp [hstack, hs])
      · intro s hs
        exact h.stack_mod s (by simp [hstack, hs])

end CDREncoder

end Corba
