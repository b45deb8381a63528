/-
Values of any type.

A skeleton or a stub writes the values of a type with the functions of the encoder and reads them with
those of the decoder: the values these have functions for, the members of a structure one after the
other, and sequences with `writeSequence` and `readSequence` of `src/corba/giop.hh`, which are handed the
functions for an element.  The elements may be structures and sequences again.

Main definitions:

* `Corba.IdlType`, `Corba.IdlType.Val` — the types and their values;
* `Corba.IdlType.write`, `Corba.IdlType.read` — the functions for a type;
* `Corba.Stable` — a reader to which the end of the buffer makes no difference.

Main results:

* `Corba.idl_round_trip` — **a value of any type is read at another host, wherever it stands**;
* `Corba.idl_never_misread` — **a message that has been cut off is not read as something else**.
-/

import Corba.RemoteCall
import Corba.SequencePaths

set_option relaxedAutoImplicit false
set_option autoImplicit false

namespace Corba

open Layout ByteOrder Placed Exec

/-- What can be written and read.  A structure is built from its members. -/
inductive IdlType where
  | basic (reader : Reader)
  | empty
  | struct (member : IdlType) (rest : IdlType)
  | sequence (item : IdlType)

namespace IdlType

/-- The values of a type. -/
@[reducible] def Val : IdlType → Type
  | basic _ => Value
  | empty => Unit
  | struct t u => t.Val × u.Val
  | sequence t => List t.Val

/-- A value that is read as itself in this byte order. -/
def Readable [Platform] (e : Endian) : (t : IdlType) → t.Val → Prop
  | basic r, v => r ∈ v.readers ∧ v.Fits ∧ (e = native ∨ v.Symmetric)
  | empty, _ => True
  | struct t u, (x, y) => t.Readable e x ∧ u.Readable e y
  | sequence t, xs => xs.length < 2 ^ 32 ∧ ∀ x ∈ xs, t.Readable e x

/-- The layout of a value. -/
def items (e : Endian) : (t : IdlType) → t.Val → Cdr.Items
  | basic _, v => v.items e
  | empty, _ => []
  | struct t u, (x, y) => t.items e x ++ u.items e y
  | sequence t, xs => Cdr.ulong e (UInt32.ofNat xs.length) ++ xs.flatMap (t.items e)

variable [Platform]

def write : (t : IdlType) → t.Val → CDREncoder → CDREncoder
  | basic _, v => fun e => e.writeValue v
  | empty, _ => id
  | struct t u, (x, y) => fun e => u.write y (t.write x e)
  | sequence t, xs => CDREncoder.writeSequence t.write xs

def read : (t : IdlType) → DecodeM t.Val
  | basic r => r.read
  | empty => return ()
  | struct t u => do
      let x ← t.read
      let y ← u.read
      return (x, y)
  | sequence t => CDRDecoder.readSequence t.read

/-! ### Writing -/

omit [Platform] in
theorem foldl_write {α : Type} {write : α → CDREncoder → CDREncoder} {items : α → Cdr.Items}
    (hwrite : ∀ x e, write x e = e.put (items x)) (xs : List α) (e : CDREncoder) :
    xs.foldl (fun e x => write x e) e = e.put (xs.flatMap items) := by
  induction xs generalizing e with
  | nil => rfl
  | cons x xs ih =>
      rw [List.foldl_cons, ih, hwrite, List.flatMap_cons, CDREncoder.put_append]

/-- **A value is laid out where it is written.** -/
theorem write_eq (t : IdlType) : ∀ (v : t.Val) (e : CDREncoder),
    t.write v e = e.put (t.items native v) := by
  induction t with
  | basic r =>
      intro v e
      exact CDREncoder.writeValue_eq e v
  | empty =>
      intro v e
      rfl
  | struct t u iht ihu =>
      rintro ⟨x, y⟩ e
      show u.write y (t.write x e) = e.put (t.items native x ++ u.items native y)
      rw [iht, ihu, CDREncoder.put_append]
  | sequence t ih =>
      intro xs e
      show xs.foldl (fun e x => t.write x e) (e.writeUlong (UInt32.ofNat xs.length)) =
        e.put (Cdr.ulong native _ ++ xs.flatMap (t.items native))
      rw [foldl_write ih, CDREncoder.writeUlong_eq,
        CDREncoder.put_append]

/-! ### Reading -/

section Reading

variable {D : Octets} {e : Endian}

omit [Platform] in
/-- Elements that are laid out one after the other are read. -/
theorem readElements_of_laid {α : Type} {read : DecodeM α} {items : α → Cdr.Items} {xs : List α}
    (hread : ∀ x ∈ xs, ∀ o, Laid D o (items x) →
      read ⟨D, o, some e⟩ = .ok x ⟨D, extent o (items x), some e⟩) :
    ∀ {o : ℕ}, Laid D o (xs.flatMap items) → CDRDecoder.readElements read xs.length ⟨D, o, some e⟩ =
      .ok xs ⟨D, extent o (xs.flatMap items), some e⟩ := by
  induction xs with
  | nil =>
      intro o _
      rfl
  | cons x xs ih =>
      intro o h
      rw [List.flatMap_cons] at h ⊢
      obtain ⟨hx, hxs⟩ := laid_append.1 h
      have hhead := hread x (by simp) o hx
      have htail := ih (fun y hy => hread y (by simp [hy])) hxs
      rw [List.length_cons, CDRDecoder.readElements, bind_ok hhead, bind_ok htail, pure_run,
        extent_append]

/-- **A value is read where it is laid out.** -/
theorem read_of_laid (hD : D.length < 2 ^ 63) (t : IdlType) : ∀ (v : t.Val) (o : ℕ),
    t.Readable e v → Laid D o (t.items e v) →
      t.read ⟨D, o, some e⟩ = .ok v ⟨D, extent o (t.items e v), some e⟩ := by
  induction t with
  | basic r =>
      intro v o hv h
      exact Reader.read_readable hv.1 hv.2.2 hv.2.1 h hD
  | empty =>
      intro v o _ _
      rfl
  | struct t u iht ihu =>
      rintro ⟨x, y⟩ o ⟨hx, hy⟩ h
      have h : Laid D o (t.items e x ++ u.items e y) := h
      obtain ⟨hhead, htail⟩ := laid_append.1 h
      show (do let x ← t.read; let y ← u.read; return (x, y) : DecodeM (t.Val × u.Val)) _ =
        .ok _ ⟨D, extent o (t.items e x ++ u.items e y), _⟩
      rw [bind_ok (iht x o hx hhead), bind_ok (ihu y _ hy htail), pure_run, extent_append]
  | sequence t ih =>
      rintro xs o ⟨hlength, hxs⟩ h
      have h : Laid D o (Cdr.ulong e _ ++ xs.flatMap (t.items e)) := h
      obtain ⟨hcount, hitems⟩ := laid_append.1 h
      rw [Cdr.extent_ulong] at hitems
      have hall := readElements_of_laid (fun x hx o hlaid => ih x o (hxs x hx) hlaid) hitems
      show CDRDecoder.readSequence t.read _ =
        .ok _ ⟨D, extent o (Cdr.ulong e _ ++ xs.flatMap (t.items e)), _⟩
      rw [CDRDecoder.readSequence, bind_ok (CDRDecoder.readUlong_run hcount (by omega)),
        UInt32.toNat_ofNat_of_lt' hlength, hall, extent_append, Cdr.extent_ulong]

end Reading

end IdlType

/-! ### Buffers that have been cut off -/

/-- What has been read in the front of a buffer is read in the whole buffer, too. -/
def Stable {α : Type} (m : DecodeM α) : Prop :=
  ∀ ⦃D : Octets⦄ ⦃k o : ℕ⦄ ⦃e : Option Endian⦄ ⦃a : α⦄ ⦃d : CDRDecoder⦄,
    m ⟨D.take k, o, e⟩ = .ok a d →
      ∃ o' e', d = ⟨D.take k, o', e'⟩ ∧ m ⟨D, o, e⟩ = .ok a ⟨D, o', e'⟩

namespace Stable

variable {α β : Type}

protected theorem pure (a : α) : Stable (pure a : DecodeM α) := by
  rintro D k o e b d ⟨⟩
  exact ⟨o, e, rfl, rfl⟩

protected theorem throw (f : Fault) : Stable (throw f : DecodeM α) := by
  rintro D k o e b d ⟨⟩

protected theorem bind {m : DecodeM α} {f : α → DecodeM β} (hm : Stable m) (hf : ∀ a, Stable (f a)) :
    Stable (m >>= f) := by
  intro D k o e b d h
  obtain ⟨a, d₁, ha, hb⟩ := bind_eq_ok.1 h
  obtain ⟨o₁, e₁, rfl, hm'⟩ := hm ha
  obtain ⟨o₂, e₂, rfl, hf'⟩ := hf a hb
  exact ⟨o₂, e₂, rfl, (bind_ok hm' f).trans hf'⟩

protected theorem map {m : DecodeM α} (hm : Stable m) (f : α → β) : Stable (f <$> m) :=
  hm.bind fun a => Stable.pure (f a)

/-- The offset moves, wherever the buffer ends. -/
theorem modify {f : CDRDecoder → CDRDecoder}
    (h : ∀ D D' o e, ∃ o' e', f ⟨D, o, e⟩ = ⟨D, o', e'⟩ ∧ f ⟨D', o, e⟩ = ⟨D', o', e'⟩) :
    Stable (modify f) := by
  intro D k o e a d hrun
  obtain ⟨o', e', hcut, hwhole⟩ := h (D.take k) D o e
  rw [modify_run, hcut] at hrun
  cases hrun
  exact ⟨o', e', rfl, by rw [modify_run, hwhole]⟩

/-- The rest does not look at the buffer. -/
theorem get_bind {f : CDRDecoder → DecodeM β} (hf : ∀ d, Stable (f d))
    (hsame : ∀ D D' o e, f ⟨D, o, e⟩ = f ⟨D', o, e⟩) : Stable (get >>= f) := by
  intro D k o e b d h
  rw [Exec.get_bind] at h
  obtain ⟨o', e', rfl, hwhole⟩ := hf _ h
  refine ⟨o', e', rfl, ?_⟩
  rw [Exec.get_bind, ← hsame (D.take k) D o e, hwhole]

/-- Octets that are in the front are in the whole. -/
theorem fetch (pos n : ℕ) : Stable (CDRDecoder.fetch pos n) := by
  intro D k o e a d h
  rw [CDRDecoder.fetch] at h
  by_cases hin : n = 0 ∨ pos + n ≤ (D.take k).length
  · rw [if_pos hin] at h
    cases h
    refine ⟨o, e, rfl, ?_⟩
    have hwhole : n = 0 ∨ pos + n ≤ D.length :=
      hin.imp_right fun hle => hle.trans (List.length_take_le' k D)
    rw [CDRDecoder.fetch, if_pos hwhole]
    obtain rfl | hle := hin
    · rfl
    · rw [List.length_take] at hle
      have hsame : ((D.take k).drop pos).take n = (D.drop pos).take n := by
        rw [List.drop_take, List.take_take, min_eq_left (by omega)]
      rw [hsame]
  · rw [if_neg hin] at h
    cases h

theorem ptr (n : ℕ) (what : ℕ → ℕ → String) : Stable (CDRDecoder.ptr n what) := by
  intro D k o e a d h
  have heq : ∀ E : Octets, CDRDecoder.ptr n what ⟨E, o, e⟩ = if E.length < sizeT (o + n) then
      .error (.thrown (.outOfRange (what (sizeT (o + n)) E.length))) ⟨E, sizeT (o + n), e⟩
      else .ok o ⟨E, sizeT (o + n), e⟩ := fun _ => rfl
  rw [heq] at h
  by_cases hout : (D.take k).length < sizeT (o + n)
  · rw [if_pos hout] at h
    cases h
  · rw [if_neg hout] at h
    cases h
    have hlength := List.length_take_le' k D
    refine ⟨sizeT (o + n), e, rfl, ?_⟩
    rw [heq, if_neg (by omega)]

theorem ptr2 : Stable CDRDecoder.ptr2 :=
  (modify fun _ _ _ _ => ⟨_, _, rfl, rfl⟩).bind fun _ => ptr 2 _

theorem ptr4 : Stable CDRDecoder.ptr4 :=
  (modify fun _ _ _ _ => ⟨_, _, rfl, rfl⟩).bind fun _ => ptr 4 _

theorem ptr8 : Stable CDRDecoder.ptr8 :=
  (modify fun _ _ _ _ => ⟨_, _, rfl, rfl⟩).bind fun _ => ptr 8 _

theorem next : Stable CDRDecoder.next := by
  intro D k o e a d h
  rw [CDRDecoder.next, Exec.get_bind] at h
  obtain ⟨bs, d₁, hfetch, hrest⟩ := bind_eq_ok.1 h
  obtain ⟨o', e', rfl, hwhole⟩ := fetch _ _ hfetch
  cases hrest
  refine ⟨_, _, rfl, ?_⟩
  rw [CDRDecoder.next, Exec.get_bind, bind_ok hwhole]
  rfl

/-- The view that is returned is that of the whole buffer. -/
theorem span (n : ℕ) : Stable (do
    let d ← get
    set (d.skip n)
    return ⟨d.m_offset, n⟩ : DecodeM View) := by
  rintro D k o e a d ⟨⟩
  exact ⟨_, _, rfl, rfl⟩

section Readers

variable [Platform]

theorem word {p : DecodeM ℕ} (hp : Stable p) (w : ℕ) : Stable (CDRDecoder.word p w) := by
  refine hp.bind fun pos => (fetch pos w).bind fun bs => ?_
  exact get_bind (fun _ => Stable.pure _) fun _ _ _ _ => rfl

theorem floating (f : Ieee.Format) {p : DecodeM ℕ} (hp : Stable p) (w : ℕ) :
    Stable (CDRDecoder.floating f p w) := by
  refine hp.bind fun pos => (fetch pos w).bind fun bs => ?_
  refine get_bind (fun d => ?_) fun _ _ _ _ => rfl
  split
  · exact Stable.pure _
  · split
    · exact Stable.pure _
    · exact Stable.throw _

theorem readUlong : Stable CDRDecoder.readUlong := (word ptr4 4).map _

theorem readBlob : Stable CDRDecoder.readBlob :=
  readUlong.bind fun _ => (ptr _ _).bind fun _ => fetch _ _

theorem readString : Stable CDRDecoder.readString := by
  refine readUlong.bind fun len => (ptr _ _).bind fun buffer => ?_
  dsimp only
  split
  · exact Stable.throw _
  · exact fetch _ _

theorem readStringView : Stable CDRDecoder.readStringView :=
  readUlong.bind fun _ => (ptr _ _).bind fun _ => Stable.pure _

theorem readBlobView : Stable CDRDecoder.readBlobView :=
  readUlong.bind fun _ => (ptr _ _).bind fun _ => Stable.pure _

theorem elements (w : ℕ) (view : View) : Stable (CDRDecoder.elements w view) :=
  (fetch _ _).map _

theorem readSequenceSpanFloat : Stable CDRDecoder.readSequenceSpanFloat :=
  readUlong.bind fun _ => span _

theorem readSequenceSpanDouble : Stable CDRDecoder.readSequenceSpanDouble :=
  readUlong.bind fun _ => (modify fun _ _ _ _ => ⟨_, _, rfl, rfl⟩).bind fun _ => span _

theorem floats (view : View) : Stable (CDRDecoder.floats view) := (elements 4 view).map _

theorem doubles (view : View) : Stable (CDRDecoder.doubles view) := (elements 8 view).map _

/-- **No reader takes the end of the buffer for something else than an end.** -/
theorem reader (r : Reader) : Stable r.read := by
  cases r with
  | boolean => exact (next.map _).map _
  | octet | char => exact next.map _
  | ushort => exact ((word ptr2 2).map _).map _
  | ulong => exact readUlong.map _
  | ulonglong => exact ((word ptr8 8).map _).map _
  | short => exact ((word ptr2 2).map _).map _
  | long => exact ((word ptr4 4).map _).map _
  | longlong => exact ((word ptr8 8).map _).map _
  | float => exact ((floating .single ptr4 4).map _).map _
  | double => exact ((floating .double ptr8 8).map _).map _
  | string => exact readString.map _
  | stringView => exact readStringView.bind fun _ => (fetch _ _).map _
  | blob => exact readBlob.map _
  | blobView => exact readBlobView.bind fun _ => (fetch _ _).map _
  | sequenceVectorFloat => exact (readSequenceSpanFloat.bind fun _ => floats _).map _
  | sequenceSpanFloat => exact readSequenceSpanFloat.bind fun _ => (floats _).map _
  | sequenceVectorDouble => exact (readSequenceSpanDouble.bind fun _ => doubles _).map _
  | sequenceSpanDouble => exact readSequenceSpanDouble.bind fun _ => (doubles _).map _

end Readers

theorem readElements {m : DecodeM α} (hm : Stable m) (n : ℕ) :
    Stable (CDRDecoder.readElements m n) := by
  induction n with
  | zero => exact Stable.pure []
  | succ n ih => exact hm.bind fun _ => ih.bind fun _ => Stable.pure _

/-- **Nor does the reader of any type.** -/
theorem read [Platform] (t : IdlType) : Stable t.read := by
  induction t with
  | basic r => exact reader r
  | empty => exact Stable.pure ()
  | struct t u iht ihu => exact iht.bind fun _ => ihu.bind fun _ => Stable.pure _
  | sequence t ih => exact readUlong.bind fun _ => readElements ih _

end Stable

/-! ### From one host to the other -/

theorem IdlType.laid_write [Platform] (t : IdlType) (v : t.Val) (e : CDREncoder) :
    Laid (t.write v e).data e.offset (t.items native v) := by
  rw [t.write_eq]
  exact CDREncoder.laid_put _ e

section Hosts

variable (near far : Platform) (t : IdlType) (v : t.Val) (e : CDREncoder)

/-- **A value of any type is read at another host**, wherever it stands. -/
theorem idl_round_trip (hv : @IdlType.Readable far near.native t v)
    (hsize : (@IdlType.write near t v e).data.length < 2 ^ 63) :
    @IdlType.read far t ⟨(@IdlType.write near t v e).data, e.offset, some near.native⟩ =
      .ok v ⟨(@IdlType.write near t v e).data, (@IdlType.write near t v e).offset,
        some near.native⟩ := by
  rw [@IdlType.read_of_laid far _ _ hsize t v e.offset hv (@IdlType.laid_write near t v e),
    @IdlType.write_eq near]
  rfl

/-- Structures of a string and numbers, of which one has no numbers. -/
theorem idl_round_trip_nested :
    let t : IdlType := .sequence (.struct (.basic .string) (.sequence (.basic .ushort)))
    let v : t.Val := [(.string (ascii "a"), [.ushort 258]), (.string (ascii "bc"), [])]
    let e : CDREncoder := { data := [7], offset := 1 }
    @IdlType.read ⟨.big⟩ t ⟨(@IdlType.write ⟨.little⟩ t v e).data, 1, some .little⟩ =
      .ok v ⟨(@IdlType.write ⟨.little⟩ t v e).data, 36, some .little⟩ := by
  intro t v e
  refine (idl_round_trip ⟨.little⟩ ⟨.big⟩ t v e ?_ (by decide +kernel)).trans ?_
  · simp [t, v, IdlType.Readable, Value.readers, Value.Fits, Value.Symmetric, ascii]
  · decide +kernel

end Hosts

end Corba
