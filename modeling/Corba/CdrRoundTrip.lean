/-
What the CDR encoder writes, the CDR decoder reads.

The encoder and the decoder implement alignment separately, and both depend on everything that
was written before.  Neither is compared with the other here: the encoder lays the values out
(`Corba.CDREncoder.writeValue_eq`), a decoder that finds a value laid out reads it
(`Corba.Reader.read_run`), and the two offsets are the extent of the same layout.

Main definitions:

* `Corba.Reader` — the readers of the decoder, `Corba.Value.readers` — those that match a value;
* `Corba.readTrace`, `Corba.writeTrace` — what each step of a sequence of reads or writes yields.

Main results:

* `Corba.Reader.read_run` — a reader on a value that is laid out;
* `Corba.cdr_round_trip` — the round trip for lists of values of all types.
-/

import Corba.CdrDecoder

set_option relaxedAutoImplicit false
set_option autoImplicit false

namespace Corba

open Layout ByteOrder Placed Exec CDRDecoder

/-! ### Readers -/

/-- The readers of `CDRDecoder`. -/
inductive Reader where
  | boolean | octet | char | ushort | ulong | ulonglong | short | long | longlong | float | double
  | string | stringView | blob | blobView
  | sequenceVectorFloat | sequenceSpanFloat | sequenceVectorDouble | sequenceSpanDouble
  deriving DecidableEq, Repr

variable [Platform]

/-- Read a value.  A view or a span is followed to what it denotes. -/
def Reader.read : Reader → DecodeM Value
  | .boolean => return .boolean (← readBoolean)
  | .octet => return .octet (← readOctet)
  | .char => return .octet (← readChar)
  | .ushort => return .ushort (← readUshort)
  | .ulong => return .ulong (← readUlong)
  | .ulonglong => return .ulonglong (← readUlonglong)
  | .short => return .short (← readShort)
  | .long => return .long (← readLong)
  | .longlong => return .longlong (← readLonglong)
  | .float => return .float (← readFloat)
  | .double => return .double (← readDouble)
  | .string => return .string (← readString)
  | .stringView => do return .string (← octets (← readStringView))
  | .blob => return .blob (← readBlob)
  | .blobView => do return .blob (← octets (← readBlobView))
  | .sequenceVectorFloat => return .sequenceFloat (← readSequenceVectorFloat)
  | .sequenceSpanFloat => do
      return .sequenceFloat (← floats (← readSequenceSpanFloat))
  | .sequenceVectorDouble => return .sequenceDouble (← readSequenceVectorDouble)
  | .sequenceSpanDouble => do
      return .sequenceDouble (← doubles (← readSequenceSpanDouble))

/-- The readers that match a value. -/
def Value.readers : Value → List Reader
  | .boolean _ => [.boolean]
  | .octet _ => [.octet, .char]
  | .ushort _ => [.ushort]
  | .ulong _ => [.ulong]
  | .ulonglong _ => [.ulonglong]
  | .short _ => [.short]
  | .long _ => [.long]
  | .longlong _ => [.longlong]
  | .float _ => [.float]
  | .double _ => [.double]
  | .string _ => [.string, .stringView]
  | .blob _ => [.blob, .blobView]
  | .sequenceFloat _ => [.sequenceVectorFloat, .sequenceSpanFloat]
  | .sequenceDouble _ => [.sequenceVectorDouble, .sequenceSpanDouble]

/-- The value contains no floating point numbers. -/
def Value.Plain : Value → Prop
  | .float _ | .double _ | .sequenceFloat _ | .sequenceDouble _ => False
  | _ => True

omit [Platform] in
theorem readBoolean_run {D : Octets} {o : ℕ} {e : Endian} {v : Bool}
    (h : Laid D o (Cdr.boolean v)) (hD : D.length < 2 ^ 64) :
    readBoolean ⟨D, o, some e⟩ = .ok v ⟨D, o + 1, some e⟩ := by
  rw [readBoolean, bind_ok (next_run h hD), pure_run]
  cases v <;> rfl

section Laid

variable {D : Octets} {o : ℕ} {e : Endian} {v : Value} {r : Reader}

/-- A value that contains no floating point numbers is read in any byte order. -/
theorem Reader.read_plain (hplain : v.Plain) (hr : r ∈ v.readers) (hv : v.Fits)
    (h : Laid D o (v.items e)) (hD : D.length < 2 ^ 63) :
    r.read ⟨D, o, some e⟩ = .ok v ⟨D, extent o (v.items e), some e⟩ := by
  have hD' : D.length < 2 ^ 64 := by omega
  cases v with
  | boolean v =>
      obtain rfl : r = .boolean := by simpa [Value.readers] using hr
      exact map_ok (readBoolean_run h hD') _
  | octet v =>
      rcases (by simpa [Value.readers] using hr : r = .octet ∨ r = .char) with rfl | rfl
      · exact map_ok (next_run h hD') _
      · exact map_ok (next_run h hD') _
  | ushort v =>
      obtain rfl : r = .ushort := by simpa [Value.readers] using hr
      rw [Value.items, Cdr.extent_ushort]
      exact map_ok (readUshort_run h hD') _
  | ulong v =>
      obtain rfl : r = .ulong := by simpa [Value.readers] using hr
      rw [Value.items, Cdr.extent_ulong]
      exact map_ok (readUlong_run h hD') _
  | ulonglong v =>
      obtain rfl : r = .ulonglong := by simpa [Value.readers] using hr
      rw [Value.items, Cdr.extent_ulonglong]
      exact map_ok (readUlonglong_run h hD') _
  | short v =>
      obtain rfl : r = .short := by simpa [Value.readers] using hr
      rw [Value.items, Cdr.extent_ushort]
      exact map_ok (readShort_run h hD') _
  | long v =>
      obtain rfl : r = .long := by simpa [Value.readers] using hr
      rw [Value.items, Cdr.extent_ulong]
      exact map_ok (readLong_run h hD') _
  | longlong v =>
      obtain rfl : r = .longlong := by simpa [Value.readers] using hr
      rw [Value.items, Cdr.extent_ulonglong]
      exact map_ok (readLonglong_run h hD') _
  | string v =>
      have hlen : v.length + 1 < 2 ^ 32 := by
        have : v.length < 2 ^ 32 - 1 := hv
        omega
      have hat : At D (roundUp 4 o + 4) v := by
        have hbody := (laid_append.1 h).2
        rw [Cdr.extent_ulong, laid_raw] at hbody
        exact (at_append.1 hbody.1).1
      rw [Value.items, Cdr.extent_string]
      rcases (by simpa [Value.readers] using hr : r = .string ∨ r = .stringView) with rfl | rfl
      · exact map_ok (readString_run h hlen hD') _
      · rw [Reader.read, bind_ok (readStringView_run h hlen hD'),
          bind_ok (octets_run (d := ⟨D, _, _⟩) hat), pure_run]
  | blob v =>
      have hlen : v.length < 2 ^ 32 := by
        have : v.length < 2 ^ 32 - 1 := hv
        omega
      have hat : At D (roundUp 4 o + 4) v := by
        have hbody := (laid_append.1 h).2
        rw [Cdr.extent_ulong, laid_raw] at hbody
        exact hbody.1
      rw [Value.items, Cdr.extent_blob]
      rcases (by simpa [Value.readers] using hr : r = .blob ∨ r = .blobView) with rfl | rfl
      · exact map_ok (readBlob_run h hlen hD') _
      · rw [Reader.read, bind_ok (readBlobView_run h hlen hD'),
          bind_ok (octets_run (d := ⟨D, _, _⟩) hat), pure_run]
  | float v => cases hplain
  | double v => cases hplain
  | sequenceFloat v => cases hplain
  | sequenceDouble v => cases hplain

/-- The vector is read off the span, so both readers run alike. -/
theorem Reader.read_floats {bits bits' : List UInt32}
    (hr : r ∈ (Value.sequenceFloat bits).readers) (hbits : bits.length < 2 ^ 32)
    (h : Laid D o (Cdr.floats e bits)) (hD : D.length < 2 ^ 63)
    (hread : ∀ d : CDRDecoder, d.data = D →
      floats ⟨roundUp 4 o + 4, bits.length * 4⟩ d = .ok bits' d) :
    r.read ⟨D, o, some e⟩ =
      .ok (.sequenceFloat bits') ⟨D, extent o (Cdr.floats e bits), some e⟩ := by
  have hspan := readSequenceSpanFloat_run h hbits hD
  rw [Cdr.extent_floats, Nat.mul_comm]
  rcases (by simpa [Value.readers] using hr :
    r = .sequenceVectorFloat ∨ r = .sequenceSpanFloat) with rfl | rfl
  · rw [Reader.read, readSequenceVectorFloat, bind_ok ((bind_ok hspan _).trans (hread _ rfl)),
      pure_run]
  · rw [Reader.read, bind_ok hspan, bind_ok (hread _ rfl), pure_run]

theorem Reader.read_doubles {bits bits' : List UInt64}
    (hr : r ∈ (Value.sequenceDouble bits).readers) (hbits : bits.length < 2 ^ 32)
    (h : Laid D o (Cdr.doubles e bits)) (hD : D.length < 2 ^ 63)
    (hread : ∀ d : CDRDecoder, d.data = D →
      doubles ⟨roundUp 8 (roundUp 4 o + 4), bits.length * 8⟩ d = .ok bits' d) :
    r.read ⟨D, o, some e⟩ =
      .ok (.sequenceDouble bits') ⟨D, extent o (Cdr.doubles e bits), some e⟩ := by
  have hspan := readSequenceSpanDouble_run h hbits hD
  rw [Cdr.extent_doubles, Nat.mul_comm]
  rcases (by simpa [Value.readers] using hr :
    r = .sequenceVectorDouble ∨ r = .sequenceSpanDouble) with rfl | rfl
  · rw [Reader.read, readSequenceVectorDouble, bind_ok ((bind_ok hspan _).trans (hread _ rfl)),
      pure_run]
  · rw [Reader.read, bind_ok hspan, bind_ok (hread _ rfl), pure_run]

/-- **A matching reader returns the value that is laid out and moves the offset behind it.** -/
theorem Reader.read_run (hr : r ∈ v.readers) (hv : v.Fits) (h : Laid D o (v.items native))
    (hD : D.length < 2 ^ 63) :
    r.read ⟨D, o, some native⟩ = .ok v ⟨D, extent o (v.items native), some native⟩ := by
  have hD' : D.length < 2 ^ 64 := by omega
  cases v with
  | float v =>
      obtain rfl : r = .float := by simpa [Value.readers] using hr
      rw [Value.items, Cdr.extent_ulong]
      exact map_ok (readFloat_run h hD') _
  | double v =>
      obtain rfl : r = .double := by simpa [Value.readers] using hr
      rw [Value.items, Cdr.extent_ulonglong]
      exact map_ok (readDouble_run h hD') _
  | sequenceFloat v =>
      refine Reader.read_floats hr hv h hD fun d hd => ?_
      exact floats_run (hd ▸ h)
  | sequenceDouble v =>
      refine Reader.read_doubles hr hv h hD fun d hd => ?_
      exact doubles_run (hd ▸ h)
  | boolean _ | octet _ | ushort _ | ulong _ | ulonglong _ | short _ | long _ | longlong _
  | string _ | blob _ => exact Reader.read_plain trivial hr hv h hD

end Laid

/-! ### Sequences of reads and writes -/

/-- What each reader yields and where it leaves the offset.  A fault ends the sequence. -/
def readTrace : List Reader → CDRDecoder → List (Except Fault Value × ℕ)
  | [], _ => []
  | r :: rs, d =>
      match r.read d with
      | .ok v d' => (.ok v, d'.m_offset) :: readTrace rs d'
      | .error f d' => [(.error f, d'.m_offset)]

/-- Where each write leaves the offset. -/
def writeTrace : List Value → CDREncoder → List ℕ
  | [], _ => []
  | v :: vs, e => (e.writeValue v).offset :: writeTrace vs (e.writeValue v)

/-- Reading values that are laid out: the offsets are those of the layout. -/
theorem readTrace_of_laid {D : Octets} (hD : D.length < 2 ^ 63) (ps : List (Value × Reader)) :
    ∀ (o : ℕ) (e : CDREncoder), e.offset = o →
      (∀ p ∈ ps, p.1.Fits ∧ p.2 ∈ p.1.readers) →
      Laid D o (Value.itemsAll native (ps.map Prod.fst)) →
      readTrace (ps.map Prod.snd) ⟨D, o, some native⟩ =
        List.zipWith (fun v k => (.ok v, k)) (ps.map Prod.fst) (writeTrace (ps.map Prod.fst) e) := by
  induction ps with
  | nil => intro o e _ _ _; rfl
  | cons p ps ih =>
      intro o e he hp h
      obtain ⟨hv, hr⟩ := hp p (by simp)
      obtain ⟨hhead, htail⟩ := laid_append.1 h
      have hoff : (e.writeValue p.1).offset = extent o (p.1.items native) := by
        rw [CDREncoder.writeValue_eq, CDREncoder.put_offset, he]
      have hrest := ih _ (e.writeValue p.1) hoff (fun q hq => hp q (by simp [hq])) htail
      simp only [List.map_cons, readTrace, writeTrace, List.zipWith_cons_cons,
        Reader.read_run hr hv hhead hD, hoff, hrest]

/-- **Round trip.**  Whatever the encoder held and wherever it stood, the values it writes are
read back by matching readers from the same offset on, without a throw, and after each of them the
two offsets agree.  The vector is as large as a C++ object can be. -/
theorem cdr_round_trip (ps : List (Value × Reader)) (e : CDREncoder)
    (hp : ∀ p ∈ ps, p.1.Fits ∧ p.2 ∈ p.1.readers)
    (hsize : (e.writeValues (ps.map Prod.fst)).data.length < 2 ^ 63) :
    readTrace (ps.map Prod.snd)
        { data := (e.writeValues (ps.map Prod.fst)).data
          m_offset := e.offset
          endian := some native } =
      List.zipWith (fun v k => (.ok v, k)) (ps.map Prod.fst)
        (writeTrace (ps.map Prod.fst) e) := by
  refine readTrace_of_laid hsize ps e.offset e rfl hp ?_
  rw [CDREncoder.writeValues_eq]
  exact CDREncoder.laid_put _ e

omit [Platform] in
/-- From offset one on, on a little endian host: the offsets are 2, 8, 15 and 24. -/
theorem cdr_round_trip_mixed :
    letI : Platform := ⟨.little⟩
    readTrace [.octet, .ulong, .stringView, .sequenceVectorDouble]
        { data := [0, 7, 0, 0, 2, 1, 0, 0, 3, 0, 0, 0, 72, 105, 0, 0, 0, 0, 0, 0, 0, 0,
            0, 0]
          m_offset := 1
          endian := some .little } =
      [(.ok (.octet 7), 2), (.ok (.ulong 258), 8), (.ok (.string (ascii "Hi")), 15),
        (.ok (.sequenceDouble []), 24)] := by
  have h := @cdr_round_trip ⟨.little⟩
    [(.octet 7, .octet), (.ulong 258, .ulong), (.string (ascii "Hi"), .stringView),
      (.sequenceDouble [], .sequenceVectorDouble)] { offset := 1 } (by decide) (by decide)
  exact h

end Corba
