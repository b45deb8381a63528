/-
The CDR decoder.

`CDRDecoder` of `src/corba/cdr.hh` reads values at an offset of a buffer it does not own.  The
offset is a `size_t`: what is added to it is added modulo `2 ^ 64`.  Every access to the buffer goes
through `fetch`, which is undefined where the buffer ends, so that what the code checks and what
it does not check both show.  A view or a span is the stretch it denotes.

Main definitions:

* `Corba.CDRDecoder` and its readers;
* `Corba.View` — a stretch of the buffer.

Main results:

* `Corba.CDRDecoder.readUlong_run`, … — where a value is laid out in the byte order of the
  decoder, its reader returns it and moves the offset behind it.
-/

import Corba.CdrEncoder
import Corba.Ieee

set_option relaxedAutoImplicit false
set_option autoImplicit false

namespace Corba

open Layout ByteOrder Placed Exec

/-- The value of a `size_t`. -/
def sizeT (n : ℕ) : ℕ := n % 2 ^ 64

theorem sizeT_of_lt {n : ℕ} (h : n < 2 ^ 64) : sizeT n = n := Nat.mod_eq_of_lt h

/-- The largest size of a string. -/
def maxStringSize : ℕ := 2 ^ 63 - 2

/-- A stretch of the buffer: a `string_view`, a `blob_view` or a `span`, with its size in
octets. -/
structure View where
  start : ℕ
  size : ℕ
  deriving DecidableEq, Repr

/-- `CDRDecoder`: the buffer, the offset of the next read and the byte order, which is none of the
two before it is set. -/
structure CDRDecoder where
  data : Octets
  m_offset : ℕ := 0
  endian : Option Endian := none
  deriving DecidableEq, Repr

/-- Reading from a decoder. -/
abbrev DecodeM := EStateM Fault CDRDecoder

namespace CDRDecoder

/-! ### The offset -/

def align2 (d : CDRDecoder) : CDRDecoder := { d with m_offset := sizeT (maskUp 0x01 d.m_offset) }

def align4 (d : CDRDecoder) : CDRDecoder := { d with m_offset := sizeT (maskUp 0x03 d.m_offset) }

def align8 (d : CDRDecoder) : CDRDecoder := { d with m_offset := sizeT (maskUp 0x07 d.m_offset) }

def skip (size : ℕ) (d : CDRDecoder) : CDRDecoder :=
  { d with m_offset := sizeT (d.m_offset + size) }

def setOffset (offset : ℕ) (d : CDRDecoder) : CDRDecoder := { d with m_offset := offset }

def setLittleEndian (little : Bool) (d : CDRDecoder) : CDRDecoder :=
  { d with endian := some (if little then .little else .big) }

/-- `n` octets at `pos`.  Touching none of them is always defined. -/
def fetch (pos n : ℕ) : DecodeM Octets := fun d =>
  if n = 0 ∨ pos + n ≤ d.data.length then .ok ((d.data.drop pos).take n) d
  else .error (.undefined (.overread pos n)) d

/-- The pointer to `n` octets at the offset, which moves behind them and is checked there. -/
def ptr (n : ℕ) (what : ℕ → ℕ → String) : DecodeM ℕ := fun d =>
  let d' := d.skip n
  if d.data.length < d'.m_offset then
    .error (.thrown (.outOfRange (what d'.m_offset d.data.length))) d'
  else .ok d.m_offset d'

def outOfRange (_ _ : ℕ) : String := "out of range"

def ptr2 : DecodeM ℕ := do
  modify align2
  ptr 2 outOfRange

def ptr4OutOfRange (offset length : ℕ) : String :=
  s!"out of range in CDRDecoder::ptr4(): offset {offset} > length {length}"

def ptr4 : DecodeM ℕ := do
  modify align4
  ptr 4 ptr4OutOfRange

def ptr8 : DecodeM ℕ := do
  modify align8
  ptr 8 outOfRange

/-! ### The readers -/

/-- `_data[m_offset]` and `m_offset += 1`, without a check. -/
def next : DecodeM UInt8 := do
  let d ← get
  let bs ← fetch d.m_offset 1
  set (d.skip 1)
  return bs.headD 0

def readBoolean : DecodeM Bool := do
  return (← next) != 0

def readOctet : DecodeM UInt8 := next

def readChar : DecodeM UInt8 := next

def readEndian : DecodeM Unit := do
  let flags ← readOctet
  modify (setLittleEndian (flags &&& 1 ≠ 0))

section Readers

variable [Platform]

/-- The number of `w` octets behind a pointer, swapped unless the byte order is the native one. -/
def word (p : DecodeM ℕ) (w : ℕ) : DecodeM ℕ := do
  let bs ← fetch (← p) w
  let d ← get
  return if d.endian = some native then native.value bs else swap w (native.value bs)

def readUshort : DecodeM UInt16 := do
  return UInt16.ofNat (← word ptr2 2)

def readUlong : DecodeM UInt32 := do
  return UInt32.ofNat (← word ptr4 4)

def readUlonglong : DecodeM UInt64 := do
  return UInt64.ofNat (← word ptr8 8)

def readShort : DecodeM Int16 := do
  return (UInt16.ofNat (← word ptr2 2)).toInt16

def readLong : DecodeM Int32 := do
  return (UInt32.ofNat (← word ptr4 4)).toInt32

def readLonglong : DecodeM Int64 := do
  return (UInt64.ofNat (← word ptr8 8)).toInt64

/-- The bit pattern of the floating point number behind a pointer.  The swap is applied to the
number, not to its bit pattern: it is converted to an unsigned integer and back. -/
def floating (f : Ieee.Format) (p : DecodeM ℕ) (w : ℕ) : DecodeM ℕ := do
  let bs ← fetch (← p) w
  let d ← get
  if d.endian = some native then return native.value bs
  else match f.truncate (8 * w) (native.value bs) with
    | some n => return f.round (swap w n)
    | none => throw (.undefined .conversion)

def readFloat : DecodeM UInt32 := do
  return UInt32.ofNat (← floating .single ptr4 4)

def readDouble : DecodeM UInt64 := do
  return UInt64.ofNat (← floating .double ptr8 8)

def readBlob : DecodeM Octets := do
  let len := (← readUlong).toNat
  let buffer ← ptr len outOfRange
  fetch buffer len

/-- `readString(size_t)`: a length of zero makes the size of the string wrap around. -/
def readStringOf (len : ℕ) : DecodeM Octets := do
  let buffer ← ptr len outOfRange
  let size := sizeT (len + (2 ^ 64 - 1))
  if maxStringSize < size then throw (.thrown (.lengthError "basic_string::_M_create"))
  else fetch buffer size

def readString : DecodeM Octets := do
  readStringOf (← readUlong).toNat

def readBlobView : DecodeM View := do
  let len := (← readUlong).toNat
  let buffer ← ptr len outOfRange
  return ⟨buffer, len⟩

/-- `readStringView(size_t)`. -/
def readStringViewOf (len : ℕ) : DecodeM View := do
  let buffer ← ptr len outOfRange
  return ⟨buffer, sizeT (len + (2 ^ 64 - 1))⟩

def readStringView : DecodeM View := do
  readStringViewOf (← readUlong).toNat

def readSequenceSpanFloat : DecodeM View := do
  let size := (← readUlong).toNat
  let d ← get
  set (d.skip (size * 4))
  return ⟨d.m_offset, size * 4⟩

def readSequenceSpanDouble : DecodeM View := do
  let size := (← readUlong).toNat
  modify align8
  let d ← get
  set (d.skip (size * 8))
  return ⟨d.m_offset, size * 8⟩

/-- The octets a view denotes. -/
def octets (view : View) : DecodeM Octets := fetch view.start view.size

/-- The elements of a span, which are numbers of `w` octets in native byte order. -/
def elements (w : ℕ) (span : View) : DecodeM (List ℕ) := do
  return native.values w (span.size / w) (← octets span)

/-- The elements of a `span<float>`. -/
def floats (span : View) : DecodeM (List UInt32) := do
  return (← elements 4 span).map UInt32.ofNat

/-- The elements of a `span<double>`. -/
def doubles (span : View) : DecodeM (List UInt64) := do
  return (← elements 8 span).map UInt64.ofNat

def readSequenceVectorFloat : DecodeM (List UInt32) := do
  floats (← readSequenceSpanFloat)

def readSequenceVectorDouble : DecodeM (List UInt64) := do
  doubles (← readSequenceSpanDouble)

end Readers

/-! ### Steps of a read -/

theorem align2_eq (d : CDRDecoder) :
    d.align2 = { d with m_offset := sizeT (roundUp 2 d.m_offset) } := by
  rw [align2, maskUp_one]

theorem align4_eq (d : CDRDecoder) :
    d.align4 = { d with m_offset := sizeT (roundUp 4 d.m_offset) } := by
  rw [align4, maskUp_three]

theorem align8_eq (d : CDRDecoder) :
    d.align8 = { d with m_offset := sizeT (roundUp 8 d.m_offset) } := by
  rw [align8, maskUp_seven]

theorem fetch_run {d : CDRDecoder} {pos : ℕ} {bs : Octets} (h : At d.data pos bs) :
    fetch pos bs.length d = .ok bs d := by
  by_cases hne : bs = []
  · subst hne
    simp [fetch]
  · rw [fetch, if_pos (Or.inr (h.le_length hne)), h.take_drop]

theorem ptr_run {d : CDRDecoder} {n : ℕ} {what : ℕ → ℕ → String}
    (hn : d.m_offset + n ≤ d.data.length) (ho : d.m_offset + n < 2 ^ 64) :
    ptr n what d = .ok d.m_offset { d with m_offset := d.m_offset + n } := by
  have hskip : d.skip n = { d with m_offset := d.m_offset + n } := by
    rw [skip, sizeT_of_lt ho]
  simp only [ptr, hskip]
  rw [if_neg (by omega)]

section Laid

variable {D : Octets} {o : ℕ} {e : Endian}

/-- An octet is the same in every byte order. -/
theorem next_at {b : UInt8} {order : Option Endian} (h : Laid D o (Cdr.octet b))
    (ho : o + 1 < 2 ^ 64) : next ⟨D, o, order⟩ = .ok b ⟨D, o + 1, order⟩ := by
  have hat : At D o [b] := (laid_raw.1 h).1
  have hfetch : fetch o 1 ⟨D, o, order⟩ = .ok [b] ⟨D, o, order⟩ :=
    fetch_run (d := ⟨D, o, order⟩) hat
  rw [next, bind_ok (get_run _), bind_ok hfetch]
  simp only [skip, sizeT_of_lt ho]
  rfl

theorem next_run {b : UInt8} {order : Option Endian} (h : Laid D o (Cdr.octet b))
    (hD : D.length < 2 ^ 64) : next ⟨D, o, order⟩ = .ok b ⟨D, o + 1, order⟩ := by
  have hlen : o + 1 ≤ D.length := At.le_length (laid_raw.1 h).1 (by simp)
  exact next_at h (by omega)

variable [Platform]

/-- The number that is read is the one that stands there in the byte order of the decoder. -/
private theorem order_value {e : Endian} {w : ℕ} {bs : Octets} (hw : bs.length = w) :
    (if some e = some native then native.value bs else swap w (native.value bs)) = e.value bs := by
  by_cases he : e = native
  · rw [if_pos (by rw [he]), he]
  · have hne : ¬ some e = some (native : Endian) := fun h => he (Option.some.inj h)
    rw [if_neg hne, ← hw, swap_value, ← Endian.eq_flip_of_ne (Ne.symm he)]

private theorem word_run {p : DecodeM ℕ} {w o' n : ℕ} (hat : At D o' (e.bytes w n))
    (hp : p ⟨D, o, some e⟩ = .ok o' ⟨D, o' + w, some e⟩) (hn : n < 256 ^ w) :
    word p w ⟨D, o, some e⟩ = .ok n ⟨D, o' + w, some e⟩ := by
  have hfetch : fetch o' w ⟨D, o' + w, some e⟩ = .ok (e.bytes w n) ⟨D, o' + w, some e⟩ := by
    have h := fetch_run (d := ⟨D, o' + w, some e⟩) hat
    rwa [Endian.length_bytes] at h
  have hval := order_value (e := e) (Endian.length_bytes e w n)
  rw [Endian.value_bytes e hn] at hval
  rw [word, bind_ok hp, bind_ok hfetch, bind_ok (get_run _), pure_run]
  exact congrArg₂ EStateM.Result.ok hval rfl

omit [Platform] in
private theorem ptr2_run (h : roundUp 2 o + 2 ≤ D.length) (ho : roundUp 2 o + 2 < 2 ^ 64) :
    ptr2 ⟨D, o, some e⟩ = .ok (roundUp 2 o) ⟨D, roundUp 2 o + 2, some e⟩ := by
  rw [ptr2, bind_ok (modify_run _ _), align2_eq, sizeT_of_lt (show roundUp 2 o < 2 ^ 64 by omega)]
  exact ptr_run h ho

omit [Platform] in
theorem ptr4_run (h : roundUp 4 o + 4 ≤ D.length) (ho : roundUp 4 o + 4 < 2 ^ 64) :
    ptr4 ⟨D, o, some e⟩ = .ok (roundUp 4 o) ⟨D, roundUp 4 o + 4, some e⟩ := by
  rw [ptr4, bind_ok (modify_run _ _), align4_eq, sizeT_of_lt (show roundUp 4 o < 2 ^ 64 by omega)]
  exact ptr_run h ho

omit [Platform] in
theorem ptr8_run (h : roundUp 8 o + 8 ≤ D.length) (ho : roundUp 8 o + 8 < 2 ^ 64) :
    ptr8 ⟨D, o, some e⟩ = .ok (roundUp 8 o) ⟨D, roundUp 8 o + 8, some e⟩ := by
  rw [ptr8, bind_ok (modify_run _ _), align8_eq, sizeT_of_lt (show roundUp 8 o < 2 ^ 64 by omega)]
  exact ptr_run h ho

private theorem word2_run {n : ℕ} (h : At D (roundUp 2 o) (e.bytes 2 n)) (hn : n < 256 ^ 2)
    (hD : D.length < 2 ^ 64) :
    word ptr2 2 ⟨D, o, some e⟩ = .ok n ⟨D, roundUp 2 o + 2, some e⟩ := by
  have hlen := h.le_length (List.ne_nil_of_length_pos (by simp))
  rw [Endian.length_bytes] at hlen
  exact word_run h (ptr2_run hlen (by omega)) hn

private theorem word4_at {n : ℕ} (h : At D (roundUp 4 o) (e.bytes 4 n)) (hn : n < 256 ^ 4)
    (ho : roundUp 4 o + 4 < 2 ^ 64) :
    word ptr4 4 ⟨D, o, some e⟩ = .ok n ⟨D, roundUp 4 o + 4, some e⟩ := by
  have hlen := h.le_length (List.ne_nil_of_length_pos (by simp))
  rw [Endian.length_bytes] at hlen
  exact word_run h (ptr4_run hlen ho) hn

private theorem word4_run {n : ℕ} (h : At D (roundUp 4 o) (e.bytes 4 n)) (hn : n < 256 ^ 4)
    (hD : D.length < 2 ^ 64) :
    word ptr4 4 ⟨D, o, some e⟩ = .ok n ⟨D, roundUp 4 o + 4, some e⟩ := by
  have hlen := h.le_length (List.ne_nil_of_length_pos (by simp))
  rw [Endian.length_bytes] at hlen
  exact word4_at h hn (by omega)

private theorem word8_run {n : ℕ} (h : At D (roundUp 8 o) (e.bytes 8 n)) (hn : n < 256 ^ 8)
    (hD : D.length < 2 ^ 64) :
    word ptr8 8 ⟨D, o, some e⟩ = .ok n ⟨D, roundUp 8 o + 8, some e⟩ := by
  have hlen := h.le_length (List.ne_nil_of_length_pos (by simp))
  rw [Endian.length_bytes] at hlen
  exact word_run h (ptr8_run hlen (by omega)) hn

/-! ### Reading what is laid out -/

theorem readUshort_run {v : UInt16} (h : Laid D o (Cdr.ushort e v)) (hD : D.length < 2 ^ 64) :
    readUshort ⟨D, o, some e⟩ = .ok v ⟨D, roundUp 2 o + 2, some e⟩ := by
  have hat : At D (roundUp 2 o) (e.bytes 2 v.toNat) := (laid_raw.1 (laid_align.1 h)).1
  rw [readUshort, bind_ok (word2_run hat v.toNat_lt hD), pure_run, UInt16.ofNat_toNat]

/-- In a buffer of any length. -/
theorem readUlong_at {v : UInt32} (h : Laid D o (Cdr.ulong e v)) (ho : roundUp 4 o + 4 < 2 ^ 64) :
    readUlong ⟨D, o, some e⟩ = .ok v ⟨D, roundUp 4 o + 4, some e⟩ := by
  have hat : At D (roundUp 4 o) (e.bytes 4 v.toNat) := (laid_raw.1 (laid_align.1 h)).1
  rw [readUlong, bind_ok (word4_at hat v.toNat_lt ho), pure_run, UInt32.ofNat_toNat]

theorem readUlong_run {v : UInt32} (h : Laid D o (Cdr.ulong e v)) (hD : D.length < 2 ^ 64) :
    readUlong ⟨D, o, some e⟩ = .ok v ⟨D, roundUp 4 o + 4, some e⟩ := by
  have hat : At D (roundUp 4 o) (e.bytes 4 v.toNat) := (laid_raw.1 (laid_align.1 h)).1
  rw [readUlong, bind_ok (word4_run hat v.toNat_lt hD), pure_run, UInt32.ofNat_toNat]

theorem readUlonglong_run {v : UInt64} (h : Laid D o (Cdr.ulonglong e v))
    (hD : D.length < 2 ^ 64) :
    readUlonglong ⟨D, o, some e⟩ = .ok v ⟨D, roundUp 8 o + 8, some e⟩ := by
  have hat : At D (roundUp 8 o) (e.bytes 8 v.toNat) := (laid_raw.1 (laid_align.1 h)).1
  rw [readUlonglong, bind_ok (word8_run hat v.toNat_lt hD), pure_run, UInt64.ofNat_toNat]

theorem readShort_run {v : Int16} (h : Laid D o (Cdr.ushort e v.toUInt16))
    (hD : D.length < 2 ^ 64) :
    readShort ⟨D, o, some e⟩ = .ok v ⟨D, roundUp 2 o + 2, some e⟩ := by
  have hat : At D (roundUp 2 o) (e.bytes 2 v.toUInt16.toNat) := (laid_raw.1 (laid_align.1 h)).1
  rw [readShort, bind_ok (word2_run hat v.toUInt16.toNat_lt hD), pure_run, UInt16.ofNat_toNat]
  rfl

theorem readLong_run {v : Int32} (h : Laid D o (Cdr.ulong e v.toUInt32))
    (hD : D.length < 2 ^ 64) :
    readLong ⟨D, o, some e⟩ = .ok v ⟨D, roundUp 4 o + 4, some e⟩ := by
  have hat : At D (roundUp 4 o) (e.bytes 4 v.toUInt32.toNat) := (laid_raw.1 (laid_align.1 h)).1
  rw [readLong, bind_ok (word4_run hat v.toUInt32.toNat_lt hD), pure_run, UInt32.ofNat_toNat]
  rfl

theorem readLonglong_run {v : Int64} (h : Laid D o (Cdr.ulonglong e v.toUInt64))
    (hD : D.length < 2 ^ 64) :
    readLonglong ⟨D, o, some e⟩ = .ok v ⟨D, roundUp 8 o + 8, some e⟩ := by
  have hat : At D (roundUp 8 o) (e.bytes 8 v.toUInt64.toNat) :=
    (laid_raw.1 (laid_align.1 h)).1
  rw [readLonglong, bind_ok (word8_run hat v.toUInt64.toNat_lt hD), pure_run, UInt64.ofNat_toNat]
  rfl

/-- In native byte order the bit pattern of a floating point number is read as it stands. -/
private theorem floating_run {f : Ieee.Format} {p : DecodeM ℕ} {w o' n : ℕ}
    (hat : At D o' (native.bytes w n))
    (hp : p ⟨D, o, some native⟩ = .ok o' ⟨D, o' + w, some native⟩) (hn : n < 256 ^ w) :
    floating f p w ⟨D, o, some native⟩ = .ok n ⟨D, o' + w, some native⟩ := by
  have hfetch : fetch o' w ⟨D, o' + w, some native⟩ =
      .ok (native.bytes w n) ⟨D, o' + w, some native⟩ := by
    have h := fetch_run (d := ⟨D, o' + w, some native⟩) hat
    rwa [Endian.length_bytes] at h
  rw [floating, bind_ok hp, bind_ok hfetch, bind_ok (get_run _), if_pos rfl,
    Endian.value_bytes native hn, pure_run]

theorem readFloat_run {v : UInt32} (h : Laid D o (Cdr.ulong native v))
    (hD : D.length < 2 ^ 64) :
    readFloat ⟨D, o, some native⟩ = .ok v ⟨D, roundUp 4 o + 4, some native⟩ := by
  have hat : At D (roundUp 4 o) (native.bytes 4 v.toNat) := (laid_raw.1 (laid_align.1 h)).1
  have hlen := hat.le_length (List.ne_nil_of_length_pos (by simp))
  rw [Endian.length_bytes] at hlen
  rw [readFloat, bind_ok (floating_run hat (ptr4_run hlen (by omega)) v.toNat_lt), pure_run,
    UInt32.ofNat_toNat]

theorem readDouble_run {v : UInt64} (h : Laid D o (Cdr.ulonglong native v))
    (hD : D.length < 2 ^ 64) :
    readDouble ⟨D, o, some native⟩ = .ok v ⟨D, roundUp 8 o + 8, some native⟩ := by
  have hat : At D (roundUp 8 o) (native.bytes 8 v.toNat) := (laid_raw.1 (laid_align.1 h)).1
  have hlen := hat.le_length (List.ne_nil_of_length_pos (by simp))
  rw [Endian.length_bytes] at hlen
  rw [readDouble, bind_ok (floating_run hat (ptr8_run hlen (by omega)) v.toNat_lt), pure_run,
    UInt64.ofNat_toNat]

/-! ### Strings, blobs and sequences -/

/-- A length of octets is read, and the octets follow it. -/
private theorem counted_run {n : ℕ} {bs : Octets}
    (h : Laid D o (Cdr.ulong e (UInt32.ofNat n) ++ [.raw bs])) (hbs : bs.length = n)
    (hn : n < 2 ^ 32) (hD : D.length < 2 ^ 64) :
    readUlong ⟨D, o, some e⟩ = .ok (UInt32.ofNat n) ⟨D, roundUp 4 o + 4, some e⟩ ∧
      (UInt32.ofNat n).toNat = n ∧
      At D (roundUp 4 o + 4) bs ∧
      ptr n outOfRange ⟨D, roundUp 4 o + 4, some e⟩ =
        .ok (roundUp 4 o + 4) ⟨D, roundUp 4 o + 4 + n, some e⟩ := by
  obtain ⟨hlen, hbody⟩ := laid_append.1 h
  rw [Cdr.extent_ulong, laid_raw] at hbody
  have hat : At D (roundUp 4 o) (e.bytes 4 (UInt32.ofNat n).toNat) :=
    (laid_raw.1 (laid_align.1 hlen)).1
  have hroom := hat.le_length (List.ne_nil_of_length_pos (by simp))
  rw [Endian.length_bytes] at hroom
  have hle : roundUp 4 o + 4 + n ≤ D.length := by
    by_cases hne : bs = []
    · rw [hne, List.length_nil] at hbs
      omega
    · have := hbody.1.le_length hne
      omega
  exact ⟨readUlong_run hlen hD, UInt32.toNat_ofNat_of_lt' hn, hbody.1, ptr_run hle (hle.trans_lt hD)⟩

theorem readBlob_run {v : Octets} (h : Laid D o (Cdr.blob e v)) (hv : v.length < 2 ^ 32)
    (hD : D.length < 2 ^ 64) :
    readBlob ⟨D, o, some e⟩ = .ok v ⟨D, roundUp 4 o + 4 + v.length, some e⟩ := by
  obtain ⟨hlen, hn, hat, hptr⟩ := counted_run h rfl hv hD
  rw [readBlob, bind_ok hlen]
  simp only [hn]
  rw [bind_ok hptr]
  exact fetch_run (d := ⟨D, _, _⟩) hat

theorem readBlobView_run {v : Octets} (h : Laid D o (Cdr.blob e v)) (hv : v.length < 2 ^ 32)
    (hD : D.length < 2 ^ 64) :
    readBlobView ⟨D, o, some e⟩ =
      .ok ⟨roundUp 4 o + 4, v.length⟩ ⟨D, roundUp 4 o + 4 + v.length, some e⟩ := by
  obtain ⟨hlen, hn, _, hptr⟩ := counted_run h rfl hv hD
  rw [readBlobView, bind_ok hlen]
  simp only [hn]
  rw [bind_ok hptr]
  rfl

omit [Platform] in
/-- The size of a string is one less than its length on the wire. -/
private theorem sizeT_pred {n : ℕ} (hn : n + 1 < 2 ^ 32) : sizeT (n + 1 + (2 ^ 64 - 1)) = n := by
  unfold sizeT
  omega

omit [Platform] in
/-- A string of a length that has been read before. -/
theorem readStringOf_run {v : Octets} (h : At D o (v ++ [0])) (hv : v.length + 1 < 2 ^ 32)
    (hD : D.length < 2 ^ 64) :
    readStringOf (v.length + 1) ⟨D, o, some e⟩ = .ok v ⟨D, o + (v.length + 1), some e⟩ := by
  have hle : o + (v.length + 1) ≤ D.length := by
    have := h.le_length (by simp)
    simpa using this
  have hmax : ¬ maxStringSize < v.length := by
    unfold maxStringSize
    omega
  rw [readStringOf, bind_ok (ptr_run hle (hle.trans_lt hD)), sizeT_pred hv]
  simp only [hmax, if_false]
  exact fetch_run (d := ⟨D, _, _⟩) (at_append.1 h).1

theorem readString_run {v : Octets} (h : Laid D o (Cdr.string e v))
    (hv : v.length + 1 < 2 ^ 32) (hD : D.length < 2 ^ 64) :
    readString ⟨D, o, some e⟩ = .ok v ⟨D, roundUp 4 o + 4 + (v.length + 1), some e⟩ := by
  obtain ⟨hlen, hn, hat, _⟩ := counted_run h (by simp) hv hD
  rw [readString, bind_ok hlen, hn, readStringOf_run hat hv hD]

theorem readStringView_run {v : Octets} (h : Laid D o (Cdr.string e v))
    (hv : v.length + 1 < 2 ^ 32) (hD : D.length < 2 ^ 64) :
    readStringView ⟨D, o, some e⟩ =
      .ok ⟨roundUp 4 o + 4, v.length⟩ ⟨D, roundUp 4 o + 4 + (v.length + 1), some e⟩ := by
  obtain ⟨hlen, hn, _, hptr⟩ := counted_run h (by simp) hv hD
  rw [readStringView, bind_ok hlen, readStringViewOf, hn, bind_ok hptr, sizeT_pred hv]
  rfl

omit [Platform] in
/-- A view of contents is followed to the contents. -/
theorem octets_run {d : CDRDecoder} {o : ℕ} {v : Octets} (h : At d.data o v) :
    octets ⟨o, v.length⟩ d = .ok v d := fetch_run h

/-- A span begins behind its count, whether or not its elements are there. -/
theorem readSequenceSpanFloat_count {n : UInt32} (h : Laid D o (Cdr.ulong e n))
    (hD : D.length < 2 ^ 63) :
    readSequenceSpanFloat ⟨D, o, some e⟩ =
      .ok ⟨roundUp 4 o + 4, n.toNat * 4⟩ ⟨D, roundUp 4 o + 4 + n.toNat * 4, some e⟩ := by
  have hat : At D (roundUp 4 o) (e.bytes 4 n.toNat) := (laid_raw.1 (laid_align.1 h)).1
  have hroom := hat.le_length (List.ne_nil_of_length_pos (by simp))
  rw [Endian.length_bytes] at hroom
  have hn := n.toNat_lt
  rw [readSequenceSpanFloat, bind_ok (readUlong_run h (by omega)), bind_ok (get_run _)]
  simp only [skip]
  rw [sizeT_of_lt (by omega)]
  rfl

theorem readSequenceSpanDouble_count {n : UInt32} (h : Laid D o (Cdr.ulong e n))
    (hD : D.length < 2 ^ 63) :
    readSequenceSpanDouble ⟨D, o, some e⟩ =
      .ok ⟨roundUp 8 (roundUp 4 o + 4), n.toNat * 8⟩
        ⟨D, roundUp 8 (roundUp 4 o + 4) + n.toNat * 8, some e⟩ := by
  have hat : At D (roundUp 4 o) (e.bytes 4 n.toNat) := (laid_raw.1 (laid_align.1 h)).1
  have hroom := hat.le_length (List.ne_nil_of_length_pos (by simp))
  rw [Endian.length_bytes] at hroom
  have hn := n.toNat_lt
  have hup := roundUp_lt (show 0 < 8 by decide) (roundUp 4 o + 4)
  rw [readSequenceSpanDouble, bind_ok (readUlong_run h (by omega)), bind_ok (modify_run _ _),
    align8_eq, bind_ok (get_run _)]
  simp only [skip]
  rw [sizeT_of_lt (show roundUp 8 (roundUp 4 o + 4) < 2 ^ 64 by omega), sizeT_of_lt (by omega)]
  rfl

theorem readSequenceSpanFloat_run {vs : List UInt32} (h : Laid D o (Cdr.floats e vs))
    (hvs : vs.length < 2 ^ 32) (hD : D.length < 2 ^ 63) :
    readSequenceSpanFloat ⟨D, o, some e⟩ =
      .ok ⟨roundUp 4 o + 4, vs.length * 4⟩
        ⟨D, roundUp 4 o + 4 + vs.length * 4, some e⟩ := by
  have hcount := readSequenceSpanFloat_count (laid_append.1 h).1 hD
  rwa [UInt32.toNat_ofNat_of_lt' hvs] at hcount

theorem readSequenceSpanDouble_run {vs : List UInt64} (h : Laid D o (Cdr.doubles e vs))
    (hvs : vs.length < 2 ^ 32) (hD : D.length < 2 ^ 63) :
    readSequenceSpanDouble ⟨D, o, some e⟩ =
      .ok ⟨roundUp 8 (roundUp 4 o + 4), vs.length * 8⟩
        ⟨D, roundUp 8 (roundUp 4 o + 4) + vs.length * 8, some e⟩ := by
  have hcount := readSequenceSpanDouble_count (laid_append.1 h).1 hD
  rwa [UInt32.toNat_ofNat_of_lt' hvs] at hcount

/-- The elements of a span are the numbers that stand there in native byte order. -/
theorem elements_run {β : Type} {d : CDRDecoder} {w p : ℕ} {f : β → ℕ} {vs : List β}
    (hw : 0 < w) (hf : ∀ v, f v < 256 ^ w)
    (h : At d.data p (vs.flatMap fun v => native.bytes w (f v))) :
    elements w ⟨p, vs.length * w⟩ d = .ok (vs.map f) d := by
  have hlen : (vs.flatMap fun v => native.bytes w (f v)).length = vs.length * w := by simp
  have hoct := octets_run h
  rw [hlen] at hoct
  have hdiv : vs.length * w / w = vs.length := Nat.mul_div_cancel _ hw
  rw [elements, bind_ok hoct, pure_run]
  simp only [hdiv, Endian.values_flatMap native hf]

theorem floats_run {d : CDRDecoder} {vs : List UInt32}
    (h : Laid d.data o (Cdr.floats native vs)) :
    floats ⟨roundUp 4 o + 4, vs.length * 4⟩ d = .ok vs d := by
  have hat := (laid_append.1 h).2
  rw [Cdr.extent_ulong, laid_raw] at hat
  rw [floats, bind_ok (elements_run (by decide) (fun v => v.toNat_lt) hat.1), pure_run, List.map_map]
  simp [Function.comp_def]

theorem doubles_run {d : CDRDecoder} {vs : List UInt64}
    (h : Laid d.data o (Cdr.doubles native vs)) :
    doubles ⟨roundUp 8 (roundUp 4 o + 4), vs.length * 8⟩ d = .ok vs d := by
  have hat := (laid_append.1 h).2
  rw [Cdr.extent_ulong, laid_align, laid_raw] at hat
  rw [doubles, bind_ok (elements_run (by decide) (fun v => v.toNat_lt) hat.1), pure_run, List.map_map]
  simp [Function.comp_def]

end Laid

end CDRDecoder

end Corba
