/-
Which reads stay inside the buffer.

The buffer of a decoder comes from the network, and each reader of `src/corba/cdr.cc` makes its own
check.  Most readers compare the offset with the length after they have moved it; the octet readers
and the sequence readers do not, a string view of a string of length zero wraps around, and the
offset itself wraps around at `2 ^ 64`.  For each operation this module gives the exact condition
on the state before it under which it touches and returns octets of the buffer only.

Main definitions:

* `Corba.Op`, `Corba.Op.run` — an operation, and the views it returns;
* `Corba.StaysInside` — a result that touched and returned octets of the buffer only, or threw;
* `Corba.Op.InBounds` — the condition;
* `Corba.steps` — the operations of a sequence, each with the state it starts in.

Main results:

* `Corba.Op.staysInside_iff` — the condition is exact for every operation;
* `Corba.Op.preserves_on` — no operation changes the octets of the buffer;
* `Corba.reads_stay_inside_iff` — a whole sequence stays inside exactly when each of its
  operations meets the condition.
-/

import Corba.CdrDecoder

set_option relaxedAutoImplicit false
set_option autoImplicit false

namespace Corba

open Layout ByteOrder Placed Exec CDRDecoder

/-! ### Operations -/

/-- An operation on a decoder. -/
inductive Op where
  | readBoolean | readOctet | readChar
  | readUshort | readUlong | readUlonglong | readShort | readLong | readLonglong
  | readFloat | readDouble
  | readBlob | readBlobView
  | readString | readStringOf (length : UInt64)
  | readStringView | readStringViewOf (length : UInt64)
  | readSequenceSpanFloat | readSequenceVectorFloat
  | readSequenceSpanDouble | readSequenceVectorDouble
  | skip (size : UInt64) | align2 | align4 | align8
  deriving DecidableEq, Repr

section Run

variable [Platform]

/-- Run an operation.  What it yields is the list of the views it returns; every other value has
been copied out of the buffer. -/
def Op.run : Op → DecodeM (List View)
  | .readBoolean => do let _ ← CDRDecoder.readBoolean; return []
  | .readOctet => do let _ ← CDRDecoder.readOctet; return []
  | .readChar => do let _ ← CDRDecoder.readChar; return []
  | .readUshort => do let _ ← CDRDecoder.readUshort; return []
  | .readUlong => do let _ ← CDRDecoder.readUlong; return []
  | .readUlonglong => do let _ ← CDRDecoder.readUlonglong; return []
  | .readShort => do let _ ← CDRDecoder.readShort; return []
  | .readLong => do let _ ← CDRDecoder.readLong; return []
  | .readLonglong => do let _ ← CDRDecoder.readLonglong; return []
  | .readFloat => do let _ ← CDRDecoder.readFloat; return []
  | .readDouble => do let _ ← CDRDecoder.readDouble; return []
  | .readBlob => do let _ ← CDRDecoder.readBlob; return []
  | .readBlobView => do return [← CDRDecoder.readBlobView]
  | .readString => do let _ ← CDRDecoder.readString; return []
  | .readStringOf length => do let _ ← CDRDecoder.readStringOf length.toNat; return []
  | .readStringView => do return [← CDRDecoder.readStringView]
  | .readStringViewOf length => do return [← CDRDecoder.readStringViewOf length.toNat]
  | .readSequenceSpanFloat => do return [← CDRDecoder.readSequenceSpanFloat]
  | .readSequenceVectorFloat => do let _ ← CDRDecoder.readSequenceVectorFloat; return []
  | .readSequenceSpanDouble => do return [← CDRDecoder.readSequenceSpanDouble]
  | .readSequenceVectorDouble => do let _ ← CDRDecoder.readSequenceVectorDouble; return []
  | .skip size => do modify (CDRDecoder.skip size.toNat); return []
  | .align2 => do modify CDRDecoder.align2; return []
  | .align4 => do modify CDRDecoder.align4; return []
  | .align8 => do modify CDRDecoder.align8; return []

/-- The number a count at `pos` is read as. -/
def CDRDecoder.countAt (d : CDRDecoder) (pos : ℕ) : ℕ :=
  let bs := (d.data.drop pos).take 4
  if d.endian = some native then native.value bs else swap 4 (native.value bs)

end Run

/-- The octets a view denotes are octets of the buffer. -/
def View.Within (D : Octets) (v : View) : Prop := v.size = 0 ∨ v.start + v.size ≤ D.length

/-- The result comes from a run that touched and returned octets of the buffer only. -/
def StaysInside (D : Octets) : EStateM.Result Fault CDRDecoder (List View) → Prop
  | .ok views _ => ∀ v ∈ views, v.Within D
  | .error (.undefined (.overread _ _)) _ => False
  | .error _ _ => True

/-! ### The condition -/

/-- The offset of the next number of `w` octets. -/
def CDRDecoder.nextAligned (d : CDRDecoder) (w : ℕ) : ℕ := sizeT (roundUp w d.m_offset)

/-- The next number of `w` octets is not the last one a `size_t` can address, behind which the
offset would be zero again. -/
def CDRDecoder.NoWrap (d : CDRDecoder) (w : ℕ) : Prop := d.nextAligned w + w ≠ 2 ^ 64

variable [Platform]

/-- The condition on the state before an operation. -/
def Op.InBounds (d : CDRDecoder) : Op → Prop
  | .readBoolean | .readOctet | .readChar => d.m_offset < d.data.length
  | .readUshort | .readShort => d.NoWrap 2
  | .readUlong | .readLong | .readFloat | .readBlob | .readBlobView | .readString => d.NoWrap 4
  | .readUlonglong | .readLonglong | .readDouble => d.NoWrap 8
  | .readStringOf n =>
      ¬ (2 ≤ n.toNat ∧ n.toNat ≤ maxStringSize + 1 ∧
        2 ^ 64 ≤ d.m_offset + n.toNat ∧ d.m_offset + n.toNat - 2 ^ 64 ≤ d.data.length)
  | .readStringView =>
      d.NoWrap 4 ∧ (d.nextAligned 4 + 4 ≤ d.data.length → d.countAt (d.nextAligned 4) ≠ 0)
  | .readStringViewOf n =>
      (n.toNat = 0 → d.data.length < d.m_offset) ∧
      ¬ (2 ≤ n.toNat ∧
        2 ^ 64 ≤ d.m_offset + n.toNat ∧ d.m_offset + n.toNat - 2 ^ 64 ≤ d.data.length)
  | .readSequenceSpanFloat | .readSequenceVectorFloat =>
      d.NoWrap 4 ∧ (d.nextAligned 4 + 4 ≤ d.data.length →
        d.countAt (d.nextAligned 4) = 0 ∨
        d.nextAligned 4 + 4 + d.countAt (d.nextAligned 4) * 4 ≤ d.data.length)
  | .readSequenceSpanDouble | .readSequenceVectorDouble =>
      d.NoWrap 4 ∧ (d.nextAligned 4 + 4 ≤ d.data.length →
        d.countAt (d.nextAligned 4) = 0 ∨
        roundUp 8 (d.nextAligned 4 + 4) + d.countAt (d.nextAligned 4) * 8 ≤ d.data.length)
  | .skip _ | .align2 | .align4 | .align8 => True

instance (d : CDRDecoder) (w : ℕ) : Decidable (d.NoWrap w) :=
  inferInstanceAs (Decidable (_ ≠ _))

instance (d : CDRDecoder) : DecidablePred (Op.InBounds d)
  | .readBoolean | .readOctet | .readChar => inferInstanceAs (Decidable (_ < _))
  | .readUshort | .readShort => inferInstanceAs (Decidable (d.NoWrap 2))
  | .readUlong | .readLong | .readFloat | .readBlob | .readBlobView | .readString =>
      inferInstanceAs (Decidable (d.NoWrap 4))
  | .readUlonglong | .readLonglong | .readDouble => inferInstanceAs (Decidable (d.NoWrap 8))
  | .readStringOf _ => inferInstanceAs (Decidable (¬ (_ ∧ _ ∧ _ ∧ _)))
  | .readStringView => inferInstanceAs (Decidable (_ ∧ (_ → _ ≠ _)))
  | .readStringViewOf _ => inferInstanceAs (Decidable ((_ → _) ∧ ¬ (_ ∧ _ ∧ _)))
  | .readSequenceSpanFloat | .readSequenceVectorFloat =>
      inferInstanceAs (Decidable (_ ∧ (_ → _ ∨ _)))
  | .readSequenceSpanDouble | .readSequenceVectorDouble =>
      inferInstanceAs (Decidable (_ ∧ (_ → _ ∨ _)))
  | .skip _ | .align2 | .align4 | .align8 => inferInstanceAs (Decidable True)

instance (D : Octets) : DecidablePred (View.Within D) :=
  fun v => inferInstanceAs (Decidable (v.size = 0 ∨ v.start + v.size ≤ D.length))

/-! ### Numbers -/

omit [Platform] in
/-- A checked pointer and the access through it: the access leaves the buffer exactly when the
offset wraps around to zero. -/
private theorem staysInside_ptr {D : Octets} {d d' : CDRDecoder} {p : DecodeM ℕ} {w : ℕ}
    {what : ℕ → ℕ → String} {k : Octets → DecodeM (List View)} {Q : Prop}
    (hp : p d = ptr w what d') (hw : 0 < w) (hsum : d'.m_offset + w ≤ 2 ^ 64)
    (hD : d'.data.length < 2 ^ 63)
    (hk : d'.m_offset + w ≤ d'.data.length →
      (StaysInside D (k ((d'.data.drop d'.m_offset).take w)
        { d' with m_offset := d'.m_offset + w }) ↔ Q)) :
    StaysInside D ((p >>= fun a => fetch a w >>= k) d) ↔
      d'.m_offset + w ≠ 2 ^ 64 ∧ (d'.m_offset + w ≤ d'.data.length → Q) := by
  by_cases hwrap : d'.m_offset + w = 2 ^ 64
  · -- the offset becomes zero, which passes the check, and the access is beyond every buffer
    have hskip : d'.skip w = { d' with m_offset := 0 } := by
      rw [CDRDecoder.skip, hwrap]
      rfl
    have hptr : p d = .ok d'.m_offset { d' with m_offset := 0 } := by
      rw [hp, ptr, hskip]
      rfl
    have hfetch : fetch d'.m_offset w { d' with m_offset := 0 } =
        .error (.undefined (.overread d'.m_offset w)) { d' with m_offset := 0 } := by
      rw [fetch, if_neg]
      show ¬ (w = 0 ∨ d'.m_offset + w ≤ d'.data.length)
      omega
    rw [bind_ok hptr, bind_error hfetch]
    exact ⟨fun h => h.elim, fun h => absurd hwrap h.1⟩
  · have hskip : d'.skip w = { d' with m_offset := d'.m_offset + w } := by
      rw [CDRDecoder.skip, sizeT_of_lt (by omega)]
    by_cases hlen : d'.m_offset + w ≤ d'.data.length
    · have hptr : p d = .ok d'.m_offset { d' with m_offset := d'.m_offset + w } := by
        rw [hp, ptr_run hlen (by omega)]
      have hfetch : fetch d'.m_offset w { d' with m_offset := d'.m_offset + w } =
          .ok ((d'.data.drop d'.m_offset).take w) { d' with m_offset := d'.m_offset + w } := by
        rw [fetch, if_pos (Or.inr hlen)]
      rw [bind_ok hptr, bind_ok hfetch, hk hlen]
      exact ⟨fun h => ⟨hwrap, fun _ => h⟩, fun h => h.2 hlen⟩
    · have hptr : ∃ t, p d = .error (.thrown t) { d' with m_offset := d'.m_offset + w } := by
        rw [hp, ptr, hskip, if_pos (by show d'.data.length < d'.m_offset + w; omega)]
        exact ⟨_, rfl⟩
      obtain ⟨t, ht⟩ := hptr
      rw [bind_error ht]
      exact ⟨fun _ => ⟨hwrap, fun h => absurd h hlen⟩, fun _ => trivial⟩

section Step

variable {d : CDRDecoder}

omit [Platform] in
theorem CDRDecoder.nextAligned_two_le (d : CDRDecoder) : d.nextAligned 2 + 2 ≤ 2 ^ 64 := by
  unfold nextAligned roundUp sizeT
  omega

omit [Platform] in
theorem CDRDecoder.nextAligned_four_le (d : CDRDecoder) : d.nextAligned 4 + 4 ≤ 2 ^ 64 := by
  unfold nextAligned roundUp sizeT
  omega

omit [Platform] in
theorem CDRDecoder.nextAligned_eight_le (d : CDRDecoder) : d.nextAligned 8 + 8 ≤ 2 ^ 64 := by
  unfold nextAligned roundUp sizeT
  omega

omit [Platform] in
private theorem staysInside_ptr2 (hD : d.data.length < 2 ^ 63) {k : Octets → DecodeM (List View)}
    {Q : Prop}
    (hk : d.nextAligned 2 + 2 ≤ d.data.length →
      (StaysInside d.data (k ((d.data.drop (d.nextAligned 2)).take 2)
        { d with m_offset := d.nextAligned 2 + 2 }) ↔ Q)) :
    StaysInside d.data ((ptr2 >>= fun a => fetch a 2 >>= k) d) ↔
      d.NoWrap 2 ∧ (d.nextAligned 2 + 2 ≤ d.data.length → Q) := by
  have hp : ptr2 d = ptr 2 outOfRange { d with m_offset := d.nextAligned 2 } := by
    rw [ptr2, bind_ok (modify_run _ _), align2_eq]
    rfl
  exact staysInside_ptr hp (by decide) d.nextAligned_two_le hD hk

omit [Platform] in
private theorem staysInside_ptr4 (hD : d.data.length < 2 ^ 63) {k : Octets → DecodeM (List View)}
    {Q : Prop}
    (hk : d.nextAligned 4 + 4 ≤ d.data.length →
      (StaysInside d.data (k ((d.data.drop (d.nextAligned 4)).take 4)
        { d with m_offset := d.nextAligned 4 + 4 }) ↔ Q)) :
    StaysInside d.data ((ptr4 >>= fun a => fetch a 4 >>= k) d) ↔
      d.NoWrap 4 ∧ (d.nextAligned 4 + 4 ≤ d.data.length → Q) := by
  have hp : ptr4 d = ptr 4 ptr4OutOfRange { d with m_offset := d.nextAligned 4 } := by
    rw [ptr4, bind_ok (modify_run _ _), align4_eq]
    rfl
  exact staysInside_ptr hp (by decide) d.nextAligned_four_le hD hk

omit [Platform] in
private theorem staysInside_ptr8 (hD : d.data.length < 2 ^ 63) {k : Octets → DecodeM (List View)}
    {Q : Prop}
    (hk : d.nextAligned 8 + 8 ≤ d.data.length →
      (StaysInside d.data (k ((d.data.drop (d.nextAligned 8)).take 8)
        { d with m_offset := d.nextAligned 8 + 8 }) ↔ Q)) :
    StaysInside d.data ((ptr8 >>= fun a => fetch a 8 >>= k) d) ↔
      d.NoWrap 8 ∧ (d.nextAligned 8 + 8 ≤ d.data.length → Q) := by
  have hp : ptr8 d = ptr 8 outOfRange { d with m_offset := d.nextAligned 8 } := by
    rw [ptr8, bind_ok (modify_run _ _), align8_eq]
    rfl
  exact staysInside_ptr hp (by decide) d.nextAligned_eight_le hD hk

theorem CDRDecoder.countAt_lt (d : CDRDecoder) (pos : ℕ) : d.countAt pos < 2 ^ 32 := by
  have hlen : ((d.data.drop pos).take 4).length ≤ 4 := by
    rw [List.length_take]
    omega
  have hpow : ∀ n ≤ 4, 256 ^ n ≤ 2 ^ 32 := by decide
  have hnat : native.value ((d.data.drop pos).take 4) < 2 ^ 32 :=
    (native.value_lt _).trans_le (hpow _ hlen)
  have hswap : ∀ n, swap 4 n < 2 ^ 32 := by
    intro n
    have h := leValue_lt (leBytes 4 n).reverse
    rw [List.length_reverse, length_leBytes] at h
    exact h
  unfold countAt
  split
  · exact hnat
  · exact hswap _

/-- A read that begins with a length or a count. -/
private theorem staysInside_readUlong (hD : d.data.length < 2 ^ 63) {k : UInt32 → DecodeM (List View)}
    {Q : Prop}
    (hk : d.nextAligned 4 + 4 ≤ d.data.length →
      (StaysInside d.data (k (UInt32.ofNat (d.countAt (d.nextAligned 4)))
        { d with m_offset := d.nextAligned 4 + 4 }) ↔ Q)) :
    StaysInside d.data ((CDRDecoder.readUlong >>= k) d) ↔
      d.NoWrap 4 ∧ (d.nextAligned 4 + 4 ≤ d.data.length → Q) := by
  simp only [CDRDecoder.readUlong, word, bind_assoc, pure_bind]
  refine staysInside_ptr4 hD fun hle => ?_
  rw [bind_ok (get_run _)]
  exact hk hle

omit [Platform] in
/-- The octets a length counts: the offset does not wrap around, so that the check holds them. -/
private theorem staysInside_counted {n : ℕ} (hD : d.data.length < 2 ^ 63)
    (ho : d.m_offset ≤ d.data.length) (hn : n < 2 ^ 32) {k : ℕ → DecodeM (List View)} {Q : Prop}
    (hk : d.m_offset + n ≤ d.data.length →
      (StaysInside d.data (k d.m_offset { d with m_offset := d.m_offset + n }) ↔ Q)) :
    StaysInside d.data ((ptr n outOfRange >>= k) d) ↔ (d.m_offset + n ≤ d.data.length → Q) := by
  by_cases hle : d.m_offset + n ≤ d.data.length
  · rw [bind_ok (ptr_run hle (by omega)), hk hle]
    exact ⟨fun h _ => h, fun h => h hle⟩
  · have hskip : d.skip n = { d with m_offset := d.m_offset + n } := by
      rw [CDRDecoder.skip, sizeT_of_lt (by omega)]
    have hptr : ∃ t, ptr n outOfRange d = .error (.thrown t) (d.skip n) := by
      rw [ptr, hskip, if_pos (by show d.data.length < d.m_offset + n; omega)]
      exact ⟨_, rfl⟩
    obtain ⟨t, ht⟩ := hptr
    rw [bind_error ht]
    exact ⟨fun _ h => absurd h hle, fun _ => trivial⟩

omit [Platform] in
/-- An access to octets of the buffer, or to none. -/
private theorem staysInside_fetch (d : CDRDecoder) (pos n : ℕ) :
    StaysInside d.data ((fetch pos n >>= fun _ => pure []) d) ↔
      n = 0 ∨ pos + n ≤ d.data.length := by
  by_cases h : n = 0 ∨ pos + n ≤ d.data.length
  · have hfetch : fetch pos n d = .ok ((d.data.drop pos).take n) d := by rw [fetch, if_pos h]
    rw [bind_ok hfetch]
    simp [StaysInside, h]
  · have hfetch : fetch pos n d = .error (.undefined (.overread pos n)) d := by
      rw [fetch, if_neg h]
    rw [bind_error hfetch]
    simp [StaysInside, h]

omit [Platform] in
/-- A view that is returned. -/
private theorem staysInside_view (d : CDRDecoder) (pos n : ℕ) :
    StaysInside d.data ((pure [⟨pos, n⟩] : DecodeM (List View)) d) ↔
      n = 0 ∨ pos + n ≤ d.data.length := by
  simp [StaysInside, View.Within]

omit [Platform] in
/-- An octet at the offset, which is not checked. -/
private theorem staysInside_next (d : CDRDecoder) {β : Type} (f : UInt8 → β) :
    StaysInside d.data ((next >>= fun b => pure (f b) >>= fun _ => pure []) d) ↔
      d.m_offset < d.data.length := by
  simp only [next, bind_assoc, pure_bind]
  rw [bind_ok (get_run _)]
  by_cases h : d.m_offset + 1 ≤ d.data.length
  · have hfetch : fetch d.m_offset 1 d = .ok ((d.data.drop d.m_offset).take 1) d := by
      rw [fetch, if_pos (Or.inr h)]
    rw [bind_ok hfetch, bind_ok (set_run _ _)]
    simp [StaysInside]
    omega
  · have hfetch : fetch d.m_offset 1 d = .error (.undefined (.overread d.m_offset 1)) d := by
      rw [fetch, if_neg (by omega)]
    rw [bind_error hfetch]
    simp [StaysInside]
    omega

omit [Platform] in
/-- What does not pass the check. -/
private theorem ptr_thrown {d : CDRDecoder} {n : ℕ} (what : ℕ → ℕ → String)
    (h : d.data.length < sizeT (d.m_offset + n)) :
    ∃ t, ptr n what d = .error (.thrown t) (d.skip n) := by
  rw [ptr, if_pos (by exact h)]
  exact ⟨_, rfl⟩

omit [Platform] in
/-- What passes the check. -/
private theorem ptr_passed {d : CDRDecoder} {n : ℕ} (what : ℕ → ℕ → String)
    (h : ¬ d.data.length < sizeT (d.m_offset + n)) : ptr n what d = .ok d.m_offset (d.skip n) := by
  rw [ptr, if_neg (by exact h)]

omit [Platform] in
/-- A string of a length that is given.  Only a length that makes the offset wrap around to a
place inside the buffer gets past the check and out of the buffer. -/
private theorem staysInside_readStringOf (d : CDRDecoder) (n : ℕ) (ho : d.m_offset < 2 ^ 64)
    (hn : n < 2 ^ 64) (hD : d.data.length < 2 ^ 63) :
    StaysInside d.data ((CDRDecoder.readStringOf n >>= fun _ => pure []) d) ↔
      ¬ (2 ≤ n ∧ n ≤ maxStringSize + 1 ∧
        2 ^ 64 ≤ d.m_offset + n ∧ d.m_offset + n - 2 ^ 64 ≤ d.data.length) := by
  simp only [CDRDecoder.readStringOf, bind_assoc]
  by_cases hcheck : d.data.length < sizeT (d.m_offset + n)
  · obtain ⟨t, ht⟩ := ptr_thrown outOfRange hcheck
    rw [bind_error ht]
    refine iff_of_true trivial ?_
    unfold sizeT at hcheck
    omega
  · rw [bind_ok (ptr_passed outOfRange hcheck)]
    by_cases hmax : maxStringSize < sizeT (n + (2 ^ 64 - 1))
    · rw [if_pos hmax, bind_error (throw_run _ _)]
      refine iff_of_true trivial ?_
      unfold maxStringSize sizeT at *
      omega
    · rw [if_neg hmax]
      refine (staysInside_fetch (d.skip n) _ _).trans ?_
      show sizeT (n + (2 ^ 64 - 1)) = 0 ∨ d.m_offset + sizeT (n + (2 ^ 64 - 1)) ≤ d.data.length ↔ _
      unfold maxStringSize sizeT at *
      omega

omit [Platform] in
/-- A view of a string of a length that is given. -/
private theorem staysInside_readStringViewOf (d : CDRDecoder) (n : ℕ) (ho : d.m_offset < 2 ^ 64)
    (hn : n < 2 ^ 64) (hD : d.data.length < 2 ^ 63) :
    StaysInside d.data ((CDRDecoder.readStringViewOf n >>= fun v => pure [v]) d) ↔
      (n = 0 → d.data.length < d.m_offset) ∧
      ¬ (2 ≤ n ∧ 2 ^ 64 ≤ d.m_offset + n ∧ d.m_offset + n - 2 ^ 64 ≤ d.data.length) := by
  simp only [CDRDecoder.readStringViewOf, bind_assoc, pure_bind]
  by_cases hcheck : d.data.length < sizeT (d.m_offset + n)
  · obtain ⟨t, ht⟩ := ptr_thrown outOfRange hcheck
    rw [bind_error ht]
    refine iff_of_true trivial ?_
    unfold sizeT at hcheck
    omega
  · rw [bind_ok (ptr_passed outOfRange hcheck)]
    refine (staysInside_view (d.skip n) _ _).trans ?_
    show sizeT (n + (2 ^ 64 - 1)) = 0 ∨ d.m_offset + sizeT (n + (2 ^ 64 - 1)) ≤ d.data.length ↔ _
    unfold sizeT at *
    omega

/-- A floating point number: a conversion that is undefined is not an access. -/
private theorem staysInside_floating (d : CDRDecoder) (f : Ieee.Format) (w : ℕ) (bs : Octets)
    {β : Type} (g : ℕ → β) :
    StaysInside d.data (((get : DecodeM CDRDecoder) >>= fun s =>
      (if s.endian = some native then pure (native.value bs)
      else match f.truncate (8 * w) (native.value bs) with
        | some n => pure (f.round (swap w n))
        | none => throw (.undefined .conversion)) >>= fun n => pure (g n) >>= fun _ => pure []) d) := by
  rw [bind_ok (get_run _)]
  by_cases he : d.endian = some native
  · rw [if_pos he]
    simp [StaysInside]
  · rw [if_neg he]
    cases f.truncate (8 * w) (native.value bs) with
    | some n => simp [StaysInside]
    | none => exact trivial

private theorem toNat_countAt (d : CDRDecoder) (pos : ℕ) :
    (UInt32.ofNat (d.countAt pos)).toNat = d.countAt pos :=
  UInt32.toNat_ofNat_of_lt' (d.countAt_lt pos)

/-- A blob: its octets are behind the check. -/
private theorem staysInside_blob (hD : d.data.length < 2 ^ 63) {k : ℕ → ℕ → DecodeM (List View)}
    (hk : ∀ start n e, e.data = d.data → start + n ≤ d.data.length →
      StaysInside d.data (k start n e)) :
    StaysInside d.data ((CDRDecoder.readUlong >>= fun size =>
      ptr size.toNat outOfRange >>= fun start => k start size.toNat) d) ↔ d.NoWrap 4 := by
  rw [staysInside_readUlong hD (Q := True)]
  · simp
  · intro hle
    rw [toNat_countAt]
    have hcounted := staysInside_counted (d := { d with m_offset := d.nextAligned 4 + 4 })
      (Q := True) hD hle (d.countAt_lt (d.nextAligned 4))
      (k := fun start => k start (d.countAt (d.nextAligned 4)))
      fun hle' => iff_true_intro (hk _ _ _ rfl hle')
    exact hcounted.trans (by simp)

/-- The length of a string that is read does not make the offset wrap around. -/
private theorem staysInside_readString (hD : d.data.length < 2 ^ 63) :
    StaysInside d.data ((CDRDecoder.readString >>= fun _ => pure []) d) ↔ d.NoWrap 4 := by
  simp only [CDRDecoder.readString, bind_assoc]
  rw [staysInside_readUlong hD (Q := True)]
  · simp
  · intro hle
    have hcount := d.countAt_lt (d.nextAligned 4)
    have hn := toNat_countAt d (d.nextAligned 4)
    have hlt : d.nextAligned 4 + 4 < 2 ^ 64 := by omega
    rw [staysInside_readStringOf { d with m_offset := d.nextAligned 4 + 4 } _ hlt (by omega) hD]
    refine iff_true_intro ?_
    rintro ⟨-, -, hwrap, -⟩
    rw [hn] at hwrap
    have : 2 ^ 64 ≤ d.nextAligned 4 + 4 + d.countAt (d.nextAligned 4) := hwrap
    omega

private theorem staysInside_readStringView (hD : d.data.length < 2 ^ 63) :
    StaysInside d.data ((CDRDecoder.readStringView >>= fun v => pure [v]) d) ↔
      Op.readStringView.InBounds d := by
  simp only [CDRDecoder.readStringView, bind_assoc]
  refine staysInside_readUlong hD fun hle => ?_
  have hcount := d.countAt_lt (d.nextAligned 4)
  have hn := toNat_countAt d (d.nextAligned 4)
  have hlt : d.nextAligned 4 + 4 < 2 ^ 64 := by omega
  rw [staysInside_readStringViewOf { d with m_offset := d.nextAligned 4 + 4 } _ hlt
    (by omega) hD, hn]
  constructor
  · rintro ⟨hzero, -⟩ h0
    have : d.data.length < d.nextAligned 4 + 4 := hzero h0
    omega
  · intro h0
    refine ⟨fun h => absurd h h0, ?_⟩
    rintro ⟨-, hwrap, -⟩
    have : 2 ^ 64 ≤ d.nextAligned 4 + 4 + d.countAt (d.nextAligned 4) := hwrap
    omega

/-- A span, which is returned or read off. -/
private theorem staysInside_floats (hD : d.data.length < 2 ^ 63) {k : View → DecodeM (List View)}
    (hk : ∀ v e, e.data = d.data → (StaysInside d.data (k v e) ↔ v.Within d.data)) :
    StaysInside d.data ((CDRDecoder.readSequenceSpanFloat >>= k) d) ↔
      Op.readSequenceSpanFloat.InBounds d := by
  simp only [CDRDecoder.readSequenceSpanFloat, bind_assoc, pure_bind]
  refine staysInside_readUlong hD fun hle => ?_
  rw [bind_ok (get_run _), bind_ok (set_run _ _), toNat_countAt]
  refine (hk _ _ (by rfl)).trans ?_
  show _ * 4 = 0 ∨ d.nextAligned 4 + 4 + _ * 4 ≤ d.data.length ↔ _
  omega

private theorem staysInside_doubles (hD : d.data.length < 2 ^ 63) {k : View → DecodeM (List View)}
    (hk : ∀ v e, e.data = d.data → (StaysInside d.data (k v e) ↔ v.Within d.data)) :
    StaysInside d.data ((CDRDecoder.readSequenceSpanDouble >>= k) d) ↔
      Op.readSequenceSpanDouble.InBounds d := by
  simp only [CDRDecoder.readSequenceSpanDouble, bind_assoc, pure_bind]
  refine staysInside_readUlong hD fun hle => ?_
  rw [bind_ok (modify_run _ _), bind_ok (get_run _), bind_ok (set_run _ _), toNat_countAt, align8_eq]
  refine (hk _ _ (by rfl)).trans ?_
  show _ * 8 = 0 ∨ sizeT (roundUp 8 (d.nextAligned 4 + 4)) + _ * 8 ≤ d.data.length ↔ _
  rw [sizeT_of_lt (by unfold roundUp; omega)]
  omega

omit [Platform] in
private theorem staysInside_returned (v : View) (e : CDRDecoder) (he : e.data = d.data) :
    StaysInside d.data ((pure [v] : DecodeM (List View)) e) ↔ v.Within d.data := by
  rw [← he]
  exact staysInside_view e v.start v.size

omit [Platform] in
private theorem staysInside_octets (v : View) (e : CDRDecoder) (he : e.data = d.data) :
    StaysInside d.data ((octets v >>= fun _ => pure []) e) ↔ v.Within d.data := by
  rw [← he]
  exact staysInside_fetch e v.start v.size

/-- The condition is exact. -/
theorem Op.staysInside_iff (op : Op) (ho : d.m_offset < 2 ^ 64) (hD : d.data.length < 2 ^ 63) :
    StaysInside d.data (op.run d) ↔ op.InBounds d := by
  -- behind the access to a number, its value is all that is left to compute
  have hword : ∀ e : CDRDecoder,
      StaysInside d.data (((get : DecodeM CDRDecoder) >>= fun _ => pure []) e) ↔ True := by
    intro e
    rw [bind_ok (get_run _)]
    simp [StaysInside]
  cases op with
  | readBoolean =>
      simp only [Op.run, CDRDecoder.readBoolean, bind_assoc]
      exact staysInside_next d _
  | readOctet =>
      exact staysInside_next d id
  | readChar =>
      exact staysInside_next d id
  | readUshort =>
      simp only [Op.run, CDRDecoder.readUshort, word, bind_assoc, pure_bind]
      rw [staysInside_ptr2 hD fun _ => hword _]
      simp [Op.InBounds]
  | readUlong =>
      simp only [Op.run, CDRDecoder.readUlong, word, bind_assoc, pure_bind]
      rw [staysInside_ptr4 hD fun _ => hword _]
      simp [Op.InBounds]
  | readUlonglong =>
      simp only [Op.run, CDRDecoder.readUlonglong, word, bind_assoc, pure_bind]
      rw [staysInside_ptr8 hD fun _ => hword _]
      simp [Op.InBounds]
  | readShort =>
      simp only [Op.run, CDRDecoder.readShort, word, bind_assoc, pure_bind]
      rw [staysInside_ptr2 hD fun _ => hword _]
      simp [Op.InBounds]
  | readLong =>
      simp only [Op.run, CDRDecoder.readLong, word, bind_assoc, pure_bind]
      rw [staysInside_ptr4 hD fun _ => hword _]
      simp [Op.InBounds]
  | readLonglong =>
      simp only [Op.run, CDRDecoder.readLonglong, word, bind_assoc, pure_bind]
      rw [staysInside_ptr8 hD fun _ => hword _]
      simp [Op.InBounds]
  | readFloat =>
      simp only [Op.run, CDRDecoder.readFloat, floating, bind_assoc]
      rw [staysInside_ptr4 hD fun _ => iff_true_intro (staysInside_floating _ _ _ _ _)]
      simp [Op.InBounds]
  | readDouble =>
      simp only [Op.run, CDRDecoder.readDouble, floating, bind_assoc]
      rw [staysInside_ptr8 hD fun _ => iff_true_intro (staysInside_floating _ _ _ _ _)]
      simp [Op.InBounds]
  | readBlob =>
      simp only [Op.run, CDRDecoder.readBlob, bind_assoc]
      refine staysInside_blob (k := fun start n => fetch start n >>= fun _ => pure []) hD
        fun start n e he hle => ?_
      rw [← he] at hle ⊢
      exact (staysInside_fetch e start n).2 (.inr hle)
  | readBlobView =>
      simp only [Op.run, CDRDecoder.readBlobView, bind_assoc, pure_bind]
      refine staysInside_blob (k := fun start n => pure [⟨start, n⟩]) hD fun start n e he hle => ?_
      rw [← he] at hle ⊢
      exact (staysInside_view e start n).2 (.inr hle)
  | readStringOf n => exact staysInside_readStringOf d _ ho n.toNat_lt hD
  | readStringViewOf n => exact staysInside_readStringViewOf d _ ho n.toNat_lt hD
  | readString => exact staysInside_readString hD
  | readStringView => exact staysInside_readStringView hD
  | readSequenceSpanFloat => exact staysInside_floats hD staysInside_returned
  | readSequenceVectorFloat =>
      simp only [Op.run, CDRDecoder.readSequenceVectorFloat, floats, elements, bind_assoc, pure_bind]
      exact staysInside_floats hD staysInside_octets
  | readSequenceSpanDouble => exact staysInside_doubles hD staysInside_returned
  | readSequenceVectorDouble =>
      simp only [Op.run, CDRDecoder.readSequenceVectorDouble, doubles, elements, bind_assoc,
        pure_bind]
      exact staysInside_doubles hD staysInside_octets
  | skip size => simp [Op.run, Op.InBounds, StaysInside, bind_ok (modify_run _ _)]
  | align2 => simp [Op.run, Op.InBounds, StaysInside, bind_ok (modify_run _ _)]
  | align4 => simp [Op.run, Op.InBounds, StaysInside, bind_ok (modify_run _ _)]
  | align8 => simp [Op.run, Op.InBounds, StaysInside, bind_ok (modify_run _ _)]

end Step

/-! ### What every operation preserves -/

/-- The decoder is on these octets, at an offset a `size_t` can hold. -/
def CDRDecoder.On (D : Octets) (d : CDRDecoder) : Prop := d.data = D ∧ d.m_offset < 2 ^ 64

section Preserves

variable {D : Octets}

omit [Platform]

theorem sizeT_lt (n : ℕ) : sizeT n < 2 ^ 64 := Nat.mod_lt _ (by decide)

theorem CDRDecoder.On.moved {d : CDRDecoder} (hd : d.On D) (n : ℕ) :
    CDRDecoder.On D { d with m_offset := sizeT n } :=
  ⟨hd.1, sizeT_lt n⟩

theorem preserves_fetch (pos n : ℕ) : Preserves (On D) (fetch pos n) := by
  intro d hd
  rw [fetch]
  split <;> exact hd

theorem preserves_ptr (n : ℕ) (what : ℕ → ℕ → String) : Preserves (On D) (ptr n what) := by
  intro d hd
  rw [ptr]
  split <;> exact hd.moved _

theorem preserves_ptr2 : Preserves (On D) ptr2 :=
  (Preserves.modify fun _ hd => hd.moved _).bind fun _ => preserves_ptr 2 _

theorem preserves_ptr4 : Preserves (On D) ptr4 :=
  (Preserves.modify fun _ hd => hd.moved _).bind fun _ => preserves_ptr 4 _

theorem preserves_ptr8 : Preserves (On D) ptr8 :=
  (Preserves.modify fun _ hd => hd.moved _).bind fun _ => preserves_ptr 8 _

theorem preserves_next : Preserves (On D) next := by
  refine Preserves.get_bind fun d hd => ?_
  refine (preserves_fetch _ _).bind fun bs => ?_
  exact (Preserves.set (hd.moved _)).bind fun _ => Preserves.pure _

theorem preserves_readStringOf (n : ℕ) : Preserves (On D) (CDRDecoder.readStringOf n) := by
  refine (preserves_ptr n _).bind fun pos => ?_
  show Preserves (On D) (if maxStringSize < sizeT (n + (2 ^ 64 - 1)) then _ else _)
  split
  · exact Preserves.throw _
  · exact preserves_fetch _ _

theorem preserves_readStringViewOf (n : ℕ) :
    Preserves (On D) (CDRDecoder.readStringViewOf n) :=
  (preserves_ptr n _).bind fun _ => Preserves.pure _

end Preserves

variable {D : Octets}

theorem preserves_word {p : DecodeM ℕ} (hp : Preserves (On D) p) (w : ℕ) :
    Preserves (On D) (word p w) := by
  refine hp.bind fun pos => (preserves_fetch pos w).bind fun bs => ?_
  exact Preserves.get_bind fun d _ => Preserves.pure _

theorem preserves_floating (f : Ieee.Format) {p : DecodeM ℕ} (hp : Preserves (On D) p) (w : ℕ) :
    Preserves (On D) (floating f p w) := by
  refine hp.bind fun pos => (preserves_fetch pos w).bind fun bs => ?_
  refine Preserves.get_bind fun d _ => ?_
  split
  · exact Preserves.pure _
  · split
    · exact Preserves.pure _
    · exact Preserves.throw _

theorem preserves_readUlong : Preserves (On D) CDRDecoder.readUlong :=
  (preserves_word preserves_ptr4 4).bind fun _ => Preserves.pure _

theorem preserves_readSequenceSpanFloat : Preserves (On D) CDRDecoder.readSequenceSpanFloat := by
  refine preserves_readUlong.bind fun size => ?_
  refine Preserves.get_bind fun d hd => ?_
  exact (Preserves.set (hd.moved _)).bind fun _ => Preserves.pure _

theorem preserves_readSequenceSpanDouble : Preserves (On D) CDRDecoder.readSequenceSpanDouble := by
  refine preserves_readUlong.bind fun size => ?_
  refine (Preserves.modify fun _ hd => hd.moved _).bind fun _ => ?_
  refine Preserves.get_bind fun d hd => ?_
  exact (Preserves.set (hd.moved _)).bind fun _ => Preserves.pure _

/-- An operation leaves the octets of the buffer as they are, also when it throws. -/
theorem Op.preserves_on (op : Op) : Preserves (On D) op.run := by
  have hvalue : ∀ {α : Type} {m : DecodeM α}, Preserves (On D) m →
      Preserves (On D) (m >>= fun _ => pure ([] : List View)) :=
    fun hm => hm.bind fun _ => Preserves.pure _
  have hview : ∀ {m : DecodeM View}, Preserves (On D) m →
      Preserves (On D) (m >>= fun v => pure [v]) :=
    fun hm => hm.bind fun _ => Preserves.pure _
  cases op with
  | readBoolean => exact hvalue (preserves_next.bind fun _ => Preserves.pure _)
  | readOctet => exact hvalue preserves_next
  | readChar => exact hvalue preserves_next
  | readUshort => exact hvalue ((preserves_word preserves_ptr2 2).bind fun _ => Preserves.pure _)
  | readUlong => exact hvalue preserves_readUlong
  | readUlonglong => exact hvalue ((preserves_word preserves_ptr8 8).bind fun _ => Preserves.pure _)
  | readShort => exact hvalue ((preserves_word preserves_ptr2 2).bind fun _ => Preserves.pure _)
  | readLong => exact hvalue ((preserves_word preserves_ptr4 4).bind fun _ => Preserves.pure _)
  | readLonglong => exact hvalue ((preserves_word preserves_ptr8 8).bind fun _ => Preserves.pure _)
  | readFloat =>
      exact hvalue ((preserves_floating _ preserves_ptr4 4).bind fun _ => Preserves.pure _)
  | readDouble =>
      exact hvalue ((preserves_floating _ preserves_ptr8 8).bind fun _ => Preserves.pure _)
  | readBlob =>
      refine hvalue (preserves_readUlong.bind fun len => ?_)
      exact (preserves_ptr _ _).bind fun _ => preserves_fetch _ _
  | readBlobView =>
      refine hview (preserves_readUlong.bind fun len => ?_)
      exact (preserves_ptr _ _).bind fun _ => Preserves.pure _
  | readString => exact hvalue (preserves_readUlong.bind fun _ => preserves_readStringOf _)
  | readStringOf n => exact hvalue (preserves_readStringOf _)
  | readStringView => exact hview (preserves_readUlong.bind fun _ => preserves_readStringViewOf _)
  | readStringViewOf n => exact hview (preserves_readStringViewOf _)
  | readSequenceSpanFloat => exact hview preserves_readSequenceSpanFloat
  | readSequenceVectorFloat =>
      refine hvalue (preserves_readSequenceSpanFloat.bind fun span => ?_)
      refine Preserves.bind ?_ fun _ => Preserves.pure _
      exact (preserves_fetch _ _).bind fun _ => Preserves.pure _
  | readSequenceSpanDouble => exact hview preserves_readSequenceSpanDouble
  | readSequenceVectorDouble =>
      refine hvalue (preserves_readSequenceSpanDouble.bind fun span => ?_)
      refine Preserves.bind ?_ fun _ => Preserves.pure _
      exact (preserves_fetch _ _).bind fun _ => Preserves.pure _
  | skip size => exact hvalue (Preserves.modify fun _ hd => hd.moved _)
  | align2 => exact hvalue (Preserves.modify fun _ hd => hd.moved _)
  | align4 => exact hvalue (Preserves.modify fun _ hd => hd.moved _)
  | align8 => exact hvalue (Preserves.modify fun _ hd => hd.moved _)

/-! ### Sequences of operations -/

/-- The operations of a sequence, each with the state it starts in.  A caller that catches an
exception goes on from the state the throwing operation has left. -/
def steps : List Op → CDRDecoder → List (Op × CDRDecoder)
  | [], _ => []
  | op :: ops, d => (op, d) :: steps ops (State (op.run d))

/-- Every state of a sequence is on the octets of the buffer. -/
theorem on_of_mem_steps {ops : List Op} :
    ∀ {d : CDRDecoder}, d.On D → ∀ s ∈ steps ops d, s.2.On D := by
  induction ops with
  | nil => intro d hd s hs; cases hs
  | cons op ops ih =>
      intro d hd s hs
      rcases List.mem_cons.1 hs with rfl | hs
      · exact hd
      · exact ih (op.preserves_on d hd) s hs

/-- Every operation of a sequence that starts at the beginning of a buffer stays inside it exactly
when each of them meets its condition in the state it starts in. -/
theorem reads_stay_inside_iff (D : Octets) (hD : D.length < 2 ^ 63) (endian : Option Endian)
    (ops : List Op) :
    (∀ s ∈ steps ops ⟨D, 0, endian⟩, StaysInside D (s.1.run s.2)) ↔
      ∀ s ∈ steps ops ⟨D, 0, endian⟩, s.1.InBounds s.2 := by
  have hstart : CDRDecoder.On D ⟨D, 0, endian⟩ := ⟨rfl, Nat.two_pow_pos 64⟩
  refine forall₂_congr fun s hs => ?_
  obtain ⟨hdata, hoff⟩ := on_of_mem_steps hstart s hs
  have hlen : s.2.data.length < 2 ^ 63 := by rw [hdata]; exact hD
  rw [← s.1.staysInside_iff hoff hlen, hdata]

omit [Platform] in
/-- A number, a string and an octet behind it, in a buffer that holds all of them. -/
theorem reads_stay_inside_string :
    letI : Platform := ⟨.little⟩
    letI D : Octets := [1, 2, 0, 0, 3, 0, 0, 0, 104, 105, 0, 7]
    StaysInside D (Op.readUshort.run ⟨D, 0, some .little⟩) ∧
      StaysInside D (Op.readString.run ⟨D, 2, some .little⟩) ∧
      StaysInside D (Op.readOctet.run ⟨D, 11, some .little⟩) := by
  have hall := (@reads_stay_inside_iff ⟨.little⟩ [1, 2, 0, 0, 3, 0, 0, 0, 104, 105, 0, 7]
    (by decide) (some .little) [.readUshort, .readString, .readOctet]).mpr (by decide)
  exact ⟨hall _ (List.mem_cons_self ..), hall _ (List.mem_cons_of_mem _ (List.mem_cons_self ..)),
    hall _ (List.mem_cons_of_mem _ (List.mem_cons_of_mem _ (List.mem_cons_self ..)))⟩

omit [Platform] in
/-- A count of one and no element behind it: the span lies behind the end of the buffer. -/
theorem reads_leave_buffer :
    letI : Platform := ⟨.little⟩
    ¬ ∀ (D : Octets) (endian : Option Endian) (ops : List Op), D.length < 2 ^ 63 →
      ∀ s ∈ steps ops ⟨D, 0, endian⟩, StaysInside D (s.1.run s.2) := by
  intro h
  have hspan := h [1, 0, 0, 0] (some .little) [.readSequenceSpanFloat] (by decide) _
    (List.mem_singleton.2 rfl)
  have hwithin : View.Within [1, 0, 0, 0] ⟨4, 4⟩ := hspan _ (List.mem_singleton.2 rfl)
  exact absurd hwithin (by decide)

end Corba
