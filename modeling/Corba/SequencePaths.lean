/-
Two ways to write and to read a sequence of floating point numbers.

A sequence of floats or doubles can be copied as a whole, or written and read element by element as
sequences of other types are.  The copy is aligned once in front of the elements, each element is
aligned on its own.  These are the same, but for a sequence that has no element to be aligned.  While
reading, an element is checked to be in the buffer, and the copy is not.

Main definitions:

* `Corba.CDREncoder.writeSequence`, `Corba.CDRDecoder.readSequence` — the way through the elements;
* `Corba.CDRDecoder.ReadsElement` — what a reader of one element does;
* `Corba.CDRDecoder.ElementsInside` — the elements that are counted are in the buffer.

Main results:

* `Corba.CDREncoder.foldl_writeElement` — elements that are written one by one are laid out as a whole;
* `Corba.CDRDecoder.readSequence_eq_iff` — when both ways of reading agree;
* `Corba.sequence_paths_agree_iff` — when both ways agree altogether.
-/

import Corba.CdrBounds
import Corba.IorProfiles

set_option relaxedAutoImplicit false
set_option autoImplicit false

namespace Corba

open Layout ByteOrder Placed Exec

/-! ### Element by element -/

/-- `GIOPEncoder::writeSequence`: the number of elements, and each element with its writer. -/
def CDREncoder.writeSequence [Platform] {α : Type} (writeElement : α → CDREncoder → CDREncoder)
    (value : List α) (e : CDREncoder) : CDREncoder :=
  value.foldl (fun e item => writeElement item e) (e.writeUlong (UInt32.ofNat value.length))

namespace CDRDecoder

/-- The loop of `GIOPDecoder::readSequence`. -/
def readElements {α : Type} (readElement : DecodeM α) : ℕ → DecodeM (List α)
  | 0 => return []
  | n + 1 => do
      let item ← readElement
      let out ← readElements readElement n
      return item :: out

/-- `GIOPDecoder::readSequence`. -/
def readSequence [Platform] {α : Type} (readElement : DecodeM α) : DecodeM (List α) := do
  let size ← readUlong
  readElements readElement size.toNat

end CDRDecoder

/-! ### Writing -/

namespace CDREncoder

section Writing

variable {α : Type} {w : ℕ} {f : α → Octets} {e : CDREncoder}

/-- What is aligned already is not aligned again. -/
theorem put_aligned (bs : Octets) (h : e.offset % w = 0) :
    e.put [.align w, .raw bs] = e.put [.raw bs] := by
  simp only [put, extent_align, write, roundUp_eq_self h]

theorem put_align_append (hw : 0 < w) {xs : Octets} (hxs : xs.length % w = 0) (ys : Octets) :
    (e.put [.align w, .raw xs]).put [.align w, .raw ys] = e.put [.align w, .raw (xs ++ ys)] := by
  have hend : (roundUp w e.offset + xs.length) % w = 0 := by
    rw [Nat.add_mod, roundUp_mod hw, hxs, Nat.zero_add, Nat.zero_mod]
  rw [put_aligned ys (by exact hend)]
  simp only [put, extent_align, extent_raw, extent_nil, write, store_append, List.length_append,
    Nat.add_assoc]

/-- **Elements that are written one by one are laid out as a whole**, unless there are none, when
nothing is aligned. -/
theorem foldl_writeElement (hw : 0 < w) (hf : ∀ v, (f v).length = w) (vs : List α)
    (h : vs ≠ [] ∨ e.offset % w = 0 ∧ e.offset ≤ e.data.length) :
    vs.foldl (fun e v => e.put [.align w, .raw (f v)]) e =
      e.put [.align w, .raw (vs.flatMap f)] := by
  induction vs generalizing e with
  | nil =>
      obtain h | ⟨haligned, hlength⟩ := h
      · exact absurd rfl h
      · rw [put_aligned _ haligned]
        simp only [put, write, extent_raw, extent_nil, List.flatMap_nil, List.length_nil, Nat.add_zero,
          store_nil hlength, List.foldl_nil]
  | cons v vs ih =>
      have hv : (f v).length % w = 0 := by rw [hf, Nat.mod_self]
      rw [List.foldl_cons, List.flatMap_cons, ← put_align_append hw hv]
      refine ih (Or.inr ⟨?_, ?_⟩)
      · show (roundUp w e.offset + (f v).length) % w = 0
        rw [Nat.add_mod, roundUp_mod hw, hv, Nat.zero_add, Nat.zero_mod]
      · show roundUp w e.offset + (f v).length ≤ (Placed.store 0 e.data _ _).length
        rw [length_store]
        exact le_max_right _ _

end Writing

variable [Platform] {e : CDREncoder}

/-- A count ends where four octets end, and the vector reaches there. -/
theorem writeUlong_aligned (n : UInt32) (e : CDREncoder) :
    (e.writeUlong n).offset = roundUp 4 e.offset + 4 ∧ (e.writeUlong n).offset % 4 = 0 ∧
      (e.writeUlong n).offset ≤ (e.writeUlong n).data.length := by
  have hmod := roundUp_mod (show 0 < 4 by decide) e.offset
  rw [writeUlong_eq, put_offset, Cdr.extent_ulong]
  refine ⟨rfl, by omega, ?_⟩
  show _ ≤ (Placed.store 0 e.data _ _).length
  rw [length_store, Endian.length_bytes]
  exact le_max_right _ _

theorem writeSequence_float (vs : List UInt32) (e : CDREncoder) :
    e.writeSequence writeFloat vs = e.writeSequenceFloat vs := by
  obtain ⟨-, haligned, hlength⟩ := writeUlong_aligned (UInt32.ofNat vs.length) e
  have hfloat : (fun (e : CDREncoder) (v : UInt32) => writeFloat v e) =
      fun e v => e.put [.align 4, .raw (native.bytes 4 v.toNat)] :=
    funext₂ fun e v => writeUlong_eq e v
  rw [writeSequence, hfloat, foldl_writeElement (f := fun v => native.bytes 4 v.toNat)
    (by decide) (fun v => native.length_bytes 4 v.toNat) vs (Or.inr ⟨haligned, hlength⟩),
    put_aligned _ haligned, ← store_eq]
  rfl

theorem writeSequence_double {vs : List UInt64}
    (h : vs ≠ [] ∨ (roundUp 4 e.offset + 4) % 8 = 0) :
    e.writeSequence writeDouble vs = e.writeSequenceDouble vs := by
  obtain ⟨hoffset, -, hlength⟩ := writeUlong_aligned (UInt32.ofNat vs.length) e
  have hdouble : (fun (e : CDREncoder) (v : UInt64) => writeDouble v e) =
      fun e v => e.put [.align 8, .raw (native.bytes 8 v.toNat)] :=
    funext₂ fun e v => writeUlonglong_eq e v
  have hput := foldl_writeElement (f := fun v : UInt64 => native.bytes 8 v.toNat) (by decide)
    (fun v => native.length_bytes 8 v.toNat) vs
    (h.imp_right fun haligned => ⟨(congrArg (· % 8) hoffset).trans haligned, hlength⟩)
  rw [writeSequence, hdouble, hput, writeSequenceDouble, align8_eq, store_eq]
  rfl

/-- Of a sequence without elements, the copy is aligned and the elements are not. -/
theorem writeSequenceDouble_nil_ne (h : (roundUp 4 e.offset + 4) % 8 ≠ 0) :
    e.writeSequenceDouble [] ≠ e.writeSequence writeDouble [] := by
  intro heq
  obtain ⟨hoffset, -, -⟩ := writeUlong_aligned 0 e
  have hend : (e.writeSequenceDouble []).offset = roundUp 8 (roundUp 4 e.offset + 4) := by
    rw [writeSequenceDouble_eq, put_offset, Cdr.extent_doubles]
    rfl
  have hend' : (e.writeSequence writeDouble []).offset = roundUp 4 e.offset + 4 := hoffset
  have hmod := roundUp_mod (show 0 < 8 by decide) (roundUp 4 e.offset + 4)
  rw [heq, hend'] at hend
  rw [← hend] at hmod
  exact h hmod

end CDREncoder

/-! ### Reading -/

namespace CDRDecoder

/-- Programs that do the same at first do the same altogether. -/
theorem bind_congr_run {σ ε α β : Type} {x : EStateM ε σ α} {s s' : σ} (h : x s = x s')
    (f : α → EStateM ε σ β) : (x >>= f) s = (x >>= f) s' := by
  cases hx : x s' with
  | ok a t => rw [bind_ok (h.trans hx), bind_ok hx]
  | error e t => rw [bind_error (h.trans hx), bind_error hx]

variable [Platform] {β : Type} {r : DecodeM β} {w : ℕ} {f : β → ℕ} {D : Octets} {o : ℕ}

/-- The reader `r` of an element of `w` octets: it aligns, reads the number there when it is in the
buffer, and throws when it is not. -/
structure ReadsElement (r : DecodeM β) (w : ℕ) (f : β → ℕ) : Prop where
  pos : 0 < w
  lt : ∀ v, f v < 256 ^ w
  surjective : ∀ n < 256 ^ w, ∃ v, f v = n
  run : ∀ {D : Octets} {o : ℕ} {v : β}, At D (roundUp w o) (native.bytes w (f v)) →
    D.length < 2 ^ 63 → r ⟨D, o, some native⟩ = .ok v ⟨D, roundUp w o + w, some native⟩
  raises : ∀ {D : Octets} {o : ℕ}, D.length < roundUp w o + w → o ≤ D.length →
    D.length < 2 ^ 63 → Raises r ⟨D, o, some native⟩

theorem readsElement_float : ReadsElement readFloat 4 UInt32.toNat where
  pos := by decide
  lt v := v.toNat_lt
  surjective n hn := ⟨UInt32.ofNat n, UInt32.toNat_ofNat_of_lt' hn⟩
  run hat hD := readFloat_run (laid_align.2 (laid_raw.2 ⟨hat, laid_nil _ _⟩)) (by omega)
  raises {D o} hlt ho hD := by
    have hround := roundUp_lt (show 0 < 4 by decide) o
    refine Raises.bind (Raises.bind (Raises.of_rest (modify_run _ _) ?_))
    rw [align4_eq, sizeT_of_lt (show roundUp 4 o < 2 ^ 64 by omega)]
    exact raises_ptr hlt (by omega)

theorem readsElement_double : ReadsElement readDouble 8 UInt64.toNat where
  pos := by decide
  lt v := v.toNat_lt
  surjective n hn := ⟨UInt64.ofNat n, UInt64.toNat_ofNat_of_lt' hn⟩
  run hat hD := readDouble_run (laid_align.2 (laid_raw.2 ⟨hat, laid_nil _ _⟩)) (by omega)
  raises {D o} hlt ho hD := by
    have hround := roundUp_lt (show 0 < 8 by decide) o
    refine Raises.bind (Raises.bind (Raises.of_rest (modify_run _ _) ?_))
    rw [align8_eq, sizeT_of_lt (show roundUp 8 o < 2 ^ 64 by omega)]
    exact raises_ptr hlt (by omega)

namespace ReadsElement

/-- Any octets are some elements. -/
theorem exists_elements (hr : ReadsElement r w f) {n p : ℕ} (h : p + n * w ≤ D.length) :
    ∃ vs : List β, vs.length = n ∧ At D p (vs.flatMap fun v => native.bytes w (f v)) := by
  induction n generalizing p with
  | zero => exact ⟨[], rfl, at_nil D p⟩
  | succ n ih =>
      rw [Nat.succ_mul] at h
      let bs := (D.drop p).take w
      have hbs : bs.length = w := by
        rw [List.length_take, List.length_drop]
        omega
      have hlt := (native : Endian).value_lt bs
      have hback := (native : Endian).bytes_value bs
      rw [hbs] at hlt hback
      obtain ⟨v, hv⟩ := hr.surjective _ hlt
      obtain ⟨vs, hlength, hat⟩ := ih (p := p + w) (by omega)
      refine ⟨v :: vs, by rw [List.length_cons, hlength], ?_⟩
      rw [List.flatMap_cons, at_append, Endian.length_bytes, hv, hback]
      exact ⟨at_take_drop, hat⟩

/-- Elements that stand behind each other are read one by one. -/
theorem readElements_run (hr : ReadsElement r w f) {vs : List β}
    (h : At D (roundUp w o) (vs.flatMap fun v => native.bytes w (f v)))
    (hstart : vs ≠ [] ∨ o % w = 0) (hD : D.length < 2 ^ 63) :
    readElements r vs.length ⟨D, o, some native⟩ =
      .ok vs ⟨D, roundUp w o + vs.length * w, some native⟩ := by
  induction vs generalizing o with
  | nil =>
      obtain hstart | hstart := hstart
      · exact absurd rfl hstart
      · rw [roundUp_eq_self hstart, List.length_nil, Nat.zero_mul]
        rfl
  | cons v vs ih =>
      rw [List.flatMap_cons, at_append, Endian.length_bytes] at h
      have haligned : (roundUp w o + w) % w = 0 := by
        rw [Nat.add_mod_right, roundUp_mod hr.pos]
      have hsame := roundUp_eq_self haligned
      have hrest := ih (o := roundUp w o + w) (by rw [hsame]; exact h.2) (Or.inr haligned)
      rw [List.length_cons, readElements, bind_ok (hr.run h.1 hD), bind_ok hrest, hsame, Nat.succ_mul,
        pure_run, Nat.add_assoc, Nat.add_comm w]

/-- The first element that is not in the buffer is not read. -/
theorem readElements_raises (hr : ReadsElement r w f) {n : ℕ} (hn : n ≠ 0)
    (h : D.length < roundUp w o + n * w) (ho : o ≤ D.length) (hD : D.length < 2 ^ 63) :
    Raises (readElements r n) ⟨D, o, some native⟩ := by
  induction n generalizing o with
  | zero => exact absurd rfl hn
  | succ n ih =>
      rw [readElements]
      rcases Nat.lt_or_ge D.length (roundUp w o + w) with hlt | hge
      · exact (hr.raises hlt ho hD).bind
      · obtain ⟨vs, hlength, hat⟩ := hr.exists_elements (D := D) (n := 1)
          (by rw [Nat.one_mul]; exact hge)
        obtain ⟨v, rfl⟩ := List.length_eq_one_iff.1 hlength
        rw [List.flatMap_cons, at_append] at hat
        have hsame : roundUp w (roundUp w o + w) = roundUp w o + w :=
          roundUp_eq_self (by rw [Nat.add_mod_right, roundUp_mod hr.pos])
        rw [Nat.succ_mul] at h
        have hn' : n ≠ 0 := by
          rintro rfl
          omega
        exact Raises.of_rest (hr.run hat.1 hD) (ih hn' (by rw [hsame]; omega) hge).bind

/-- The elements of a span that leads out of the buffer are no octets of it. -/
theorem elements_outside {n p : ℕ} (hw : 0 < w) (hn : n ≠ 0) {d : CDRDecoder}
    (h : d.data.length < p + n * w) :
    elements w ⟨p, n * w⟩ d = .error (.undefined (.overread p (n * w))) d := by
  have hpos : n * w ≠ 0 := Nat.mul_ne_zero hn hw.ne'
  have hfetch : octets ⟨p, n * w⟩ d = .error (.undefined (.overread p (n * w))) d := by
    rw [octets, fetch, if_neg]
    show ¬ (n * w = 0 ∨ p + n * w ≤ d.data.length)
    omega
  rw [elements, bind_error hfetch]

/-- **Both ways of reading the elements behind a count agree exactly when all of them are in the
buffer and, where there are none, nothing is skipped in front of them.** -/
theorem agree_iff (hr : ReadsElement r w f) {toElement : ℕ → β} (hto : ∀ v, toElement (f v) = v)
    {n : ℕ} (ho : o ≤ D.length) (hD : D.length < 2 ^ 63) :
    (elements w ⟨roundUp w o, n * w⟩ >>= fun xs => pure (xs.map toElement))
        ⟨D, roundUp w o + n * w, some native⟩ = readElements r n ⟨D, o, some native⟩ ↔
      (n = 0 → o % w = 0) ∧ (n ≠ 0 → roundUp w o + n * w ≤ D.length) := by
  have hinside : ∀ vs : List β, At D (roundUp w o) (vs.flatMap fun v => native.bytes w (f v)) →
      (elements w ⟨roundUp w o, vs.length * w⟩ >>= fun xs => pure (xs.map toElement))
          ⟨D, roundUp w o + vs.length * w, some native⟩ =
        .ok vs ⟨D, roundUp w o + vs.length * w, some native⟩ := by
    intro vs hat
    rw [bind_ok (elements_run hr.pos hr.lt (by exact hat)), pure_run, List.map_map]
    have hid : toElement ∘ f = id := funext hto
    rw [hid, List.map_id]
  by_cases hn : n = 0
  · subst hn
    have hcopy := hinside [] (at_nil D _)
    rw [List.length_nil, Nat.zero_mul] at hcopy
    rw [Nat.zero_mul, hcopy]
    refine ⟨fun h => ⟨fun _ => ?_, fun h => absurd rfl h⟩, fun h => ?_⟩
    · have hend : roundUp w o = o := by
        injection h with _ h
        exact congrArg m_offset h
      rw [← hend, roundUp_mod hr.pos]
    · rw [roundUp_eq_self (h.1 rfl)]
      rfl
  · rcases Nat.lt_or_ge D.length (roundUp w o + n * w) with hout | hin
    · obtain ⟨t, d', hraise⟩ := hr.readElements_raises hn hout ho hD
      rw [bind_error (elements_outside hr.pos hn hout), hraise]
      refine ⟨fun h => ?_, fun h => absurd (h.2 hn) (by omega)⟩
      injection h with h
      cases h
    · obtain ⟨vs, rfl, hat⟩ := hr.exists_elements hin
      have hne : vs ≠ [] := by
        rintro rfl
        exact hn rfl
      rw [hinside _ hat, hr.readElements_run hat (Or.inl hne) hD]
      exact ⟨fun _ => ⟨fun h => absurd h hn, fun _ => hin⟩, fun _ => rfl⟩

end ReadsElement

/-! ### The count -/

/-- The elements that are counted at the next number are in the buffer, and where there are none,
nothing is skipped in front of them. -/
def ElementsInside (d : CDRDecoder) (w : ℕ) : Prop :=
  ∀ n : UInt32, Laid d.data (d.nextAligned 4) (Cdr.ulong native n) →
    (n = 0 → (d.nextAligned 4 + 4) % w = 0) ∧
      (n ≠ 0 → roundUp w (d.nextAligned 4 + 4) + n.toNat * w ≤ d.data.length)

omit [Platform] in
theorem roundUp_nextAligned (d : CDRDecoder) : roundUp 4 (d.nextAligned 4) = d.nextAligned 4 := by
  have hmod := roundUp_mod (show 0 < 4 by decide) d.m_offset
  refine roundUp_eq_self ?_
  unfold nextAligned sizeT
  omega

/-- A number is read from where it is aligned. -/
theorem readUlong_nextAligned (d : CDRDecoder) :
    readUlong d = readUlong { d with m_offset := d.nextAligned 4 } := by
  have hround := d.roundUp_nextAligned
  have hlt : d.nextAligned 4 < 2 ^ 64 := Nat.mod_lt _ (by decide)
  have halign : d.align4 = align4 { d with m_offset := d.nextAligned 4 } := by
    rw [align4_eq, align4_eq]
    show { d with m_offset := d.nextAligned 4 } =
      { d with m_offset := sizeT (roundUp 4 (d.nextAligned 4)) }
    rw [hround, sizeT_of_lt hlt]
  have hptr : ptr4 d = ptr4 { d with m_offset := d.nextAligned 4 } := by
    rw [ptr4, modify_bind, modify_bind, halign]
  exact bind_congr_run (bind_congr_run hptr _) _

/-- A number that is not in the buffer is not read. -/
theorem readUlong_outside {d : CDRDecoder} (h : d.data.length < d.nextAligned 4 + 4) :
    ∃ t d', readUlong d = .error t d' := by
  cases hrun : readUlong d with
  | error t d' => exact ⟨t, d', rfl⟩
  | ok n d' =>
      rw [readUlong, bind_eq_ok] at hrun
      obtain ⟨m, d₁, hword, -⟩ := hrun
      rw [word, bind_eq_ok] at hword
      obtain ⟨pos, d₂, hptr, hfetch⟩ := hword
      rw [bind_eq_ok] at hfetch
      obtain ⟨bs, d₃, hfetch, -⟩ := hfetch
      rw [ptr4, modify_bind, align4_eq, ptr] at hptr
      split at hptr
      · cases hptr
      · cases hptr
        rw [fetch] at hfetch
        split at hfetch
        · rename_i hin
          have hin : d.nextAligned 4 + 4 ≤ d.data.length := hin.resolve_left (by decide)
          omega
        · cases hfetch

/-- **Copying and reading one by one agree exactly when the elements that are counted are inside.** -/
theorem readSequence_eq_iff {d : CDRDecoder} (hnative : d.endian = some native)
    (hD : d.data.length < 2 ^ 63) (hr : ReadsElement r w f) {toElement : ℕ → β}
    (hto : ∀ v, toElement (f v) = v) {copy : DecodeM (List β)} {k : UInt32 → DecodeM (List β)}
    (hcopy : copy = readUlong >>= k)
    (hrun : ∀ n : UInt32, Laid d.data (d.nextAligned 4) (Cdr.ulong native n) →
      copy ⟨d.data, d.nextAligned 4, some native⟩ =
        (elements w ⟨roundUp w (d.nextAligned 4 + 4), n.toNat * w⟩ >>= fun xs =>
            pure (xs.map toElement))
          ⟨d.data, roundUp w (d.nextAligned 4 + 4) + n.toNat * w, some native⟩) :
    copy d = readSequence r d ↔ d.ElementsInside w := by
  have hround := d.roundUp_nextAligned
  by_cases hin : d.nextAligned 4 + 4 ≤ d.data.length
  · obtain ⟨n, hn⟩ := exists_ulong (D := d.data) (o := d.nextAligned 4) native (by rw [hround]; exact hin)
    have hstart : { d with m_offset := d.nextAligned 4 } =
        (⟨d.data, d.nextAligned 4, some native⟩ : CDRDecoder) := by rw [← hnative]
    have hcount := readUlong_run hn (by omega)
    rw [hround] at hcount
    have hcopy' : copy d = copy ⟨d.data, d.nextAligned 4, some native⟩ := by
      rw [hcopy, ← hstart]
      exact bind_congr_run (readUlong_nextAligned d) k
    have hread : readSequence r d =
        readElements r n.toNat ⟨d.data, d.nextAligned 4 + 4, some native⟩ := by
      rw [readSequence, bind_congr_run (readUlong_nextAligned d), hstart, bind_ok hcount]
    have hzero : n.toNat = 0 ↔ n = 0 := UInt32.toNat_inj (b := 0)
    rw [hcopy', hread, hrun n hn, hr.agree_iff hto hin hD]
    simp only [ne_eq, hzero]
    refine ⟨fun h m hm => ?_, fun h => h n hn⟩
    have hsame : m = n := by
      have hm' := readUlong_run hm (by omega)
      rw [hround, hcount] at hm'
      injection hm' with hm'
      exact hm'.symm
    rw [hsame]
    exact h
  · obtain ⟨t, d', herror⟩ := readUlong_outside (d := d) (by omega)
    rw [hcopy, readSequence, bind_error herror, bind_error herror]
    refine iff_of_true rfl fun n hn => ?_
    have hle := Cdr.laid_ulong_le hn
    rw [hround] at hle
    exact absurd hle hin

theorem readSequenceVectorFloat_eq_iff {d : CDRDecoder} (hnative : d.endian = some native)
    (hD : d.data.length < 2 ^ 63) :
    readSequenceVectorFloat d = readSequence readFloat d ↔ d.ElementsInside 4 := by
  refine readSequence_eq_iff hnative hD readsElement_float (fun v => UInt32.ofNat_toNat)
    (k := fun n => get >>= fun d => set (d.skip (n.toNat * 4)) >>= fun _ =>
      floats ⟨d.m_offset, n.toNat * 4⟩) ?_ fun n hn => ?_
  · simp only [readSequenceVectorFloat, readSequenceSpanFloat, bind_assoc, pure_bind]
  · have hround := d.roundUp_nextAligned
    have hmod := roundUp_mod (show 0 < 4 by decide) (d.nextAligned 4)
    have hspan := readSequenceSpanFloat_count hn hD
    rw [hround] at hspan hmod
    rw [readSequenceVectorFloat, bind_ok hspan, roundUp_eq_self (by omega)]
    rfl

theorem readSequenceVectorDouble_eq_iff {d : CDRDecoder} (hnative : d.endian = some native)
    (hD : d.data.length < 2 ^ 63) :
    readSequenceVectorDouble d = readSequence readDouble d ↔ d.ElementsInside 8 := by
  refine readSequence_eq_iff hnative hD readsElement_double (fun v => UInt64.ofNat_toNat)
    (k := fun n => modify align8 >>= fun _ => get >>= fun d => set (d.skip (n.toNat * 8)) >>= fun _ =>
      doubles ⟨d.m_offset, n.toNat * 8⟩) ?_ fun n hn => ?_
  · simp only [readSequenceVectorDouble, readSequenceSpanDouble, bind_assoc, pure_bind]
  · have hround := d.roundUp_nextAligned
    have hspan := readSequenceSpanDouble_count hn hD
    rw [hround] at hspan
    rw [readSequenceVectorDouble, bind_ok hspan]
    rfl

end CDRDecoder

/-- **The copy of a sequence agrees with its elements**: writing floats always, writing doubles unless
there are none and the offset behind the count has to be aligned, and reading exactly when what is
counted is in the buffer and nothing has to be skipped in front of no elements. -/
theorem sequence_paths_agree_iff [Platform] {d : CDRDecoder} (hnative : d.endian = some native)
    (hD : d.data.length < 2 ^ 63) :
    (∀ (value : List UInt32) (e : CDREncoder),
      e.writeSequenceFloat value = e.writeSequence CDREncoder.writeFloat value) ∧
    (∀ (value : List UInt64) (e : CDREncoder),
      e.writeSequenceDouble value = e.writeSequence CDREncoder.writeDouble value ↔
        value ≠ [] ∨ (roundUp 4 e.offset + 4) % 8 = 0) ∧
    (CDRDecoder.readSequenceVectorFloat d = CDRDecoder.readSequence CDRDecoder.readFloat d ↔
      d.ElementsInside 4) ∧
    (CDRDecoder.readSequenceVectorDouble d = CDRDecoder.readSequence CDRDecoder.readDouble d ↔
      d.ElementsInside 8) := by
  refine ⟨fun value e => (e.writeSequence_float value).symm, fun value e => ?_,
    CDRDecoder.readSequenceVectorFloat_eq_iff hnative hD,
    CDRDecoder.readSequenceVectorDouble_eq_iff hnative hD⟩
  refine ⟨fun h => ?_, fun h => (CDREncoder.writeSequence_double h).symm⟩
  by_contra hno
  obtain ⟨hnil, hmod⟩ := not_or.1 hno
  rw [not_not.1 hnil] at h
  exact CDREncoder.writeSequenceDouble_nil_ne hmod h

/-- One double, which both ways read. -/
theorem sequence_paths_agree_one :
    letI : Platform := ⟨.little⟩
    CDRDecoder.ElementsInside ⟨[1, 0, 0, 0, 0, 0, 0, 0, 0, 0, 0, 0, 0, 0, 240, 63], 0, some .little⟩ 8 := by
  let : Platform := ⟨.little⟩
  exact (sequence_paths_agree_iff rfl (by decide)).2.2.2.1 (by decide +kernel)

/-- Behind no doubles, four octets are skipped by the copy only. -/
theorem no_doubles_skip :
    letI : Platform := ⟨.little⟩
    let e : CDREncoder := {}
    e.writeSequenceDouble [] ≠ e.writeSequence CDREncoder.writeDouble [] ∧
      ((e.writeSequenceDouble []).writeUlong 7).data = [0, 0, 0, 0, 0, 0, 0, 0, 7, 0, 0, 0] ∧
      ((e.writeSequence CDREncoder.writeDouble []).writeUlong 7).data = [0, 0, 0, 0, 7, 0, 0, 0] := by
  decide

end Corba
