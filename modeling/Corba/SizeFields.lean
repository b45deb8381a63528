/-
Nested size fields.

An encapsulation begins with the number of its octets, which is known only when it is complete:
`reserveSize` leaves room for the number and remembers where the room ends, and `fillInSize` comes back
to the room that was reserved last.  Encapsulations stand in encapsulations, so that the remembered
places are a stack.

What is stored is an unsigned long: of a stretch of `2 ^ 32` octets or more, the number of octets is
stored modulo `2 ^ 32`.

Main definitions:

* `Corba.SizeOp`, `Corba.SizeOp.runAll` — reserving, filling in and writing;
* `Corba.Nested` — every size that is reserved is filled in, the last one first;
* `Corba.Arranged` — the items of a nested sequence, with the sizes in their places;
* `Corba.Filled` — a size has been filled in.

Main results:

* `Corba.Nested.wrote` — **a nested sequence lays out its items**, and leaves the stack as it was;
* `Corba.Nested.matching` — where something is filled in, it has been reserved before;
* `Corba.nested_sizes` — every size is the number of octets behind it, and nothing else is changed.
-/

import Corba.CdrEncoder

set_option relaxedAutoImplicit false
set_option autoImplicit false

namespace Corba

open Exec Layout ByteOrder Placed

/-! ### Sequences of writers -/

/-- A call of the encoder. -/
inductive SizeOp
  | reserveSize
  | fillInSize
  | write (value : Value)

namespace SizeOp

variable [Platform]

def run : SizeOp → EStateM Fault CDREncoder Unit
  | .reserveSize => modify CDREncoder.reserveSize
  | .fillInSize => CDREncoder.fillInSize
  | .write value => modify (CDREncoder.writeValue value)

/-- The calls one after the other. -/
def runAll : List SizeOp → EStateM Fault CDREncoder Unit
  | [] => pure ()
  | op :: ops => do
      op.run
      runAll ops

@[simp] theorem runAll_nil (e : CDREncoder) : runAll [] e = .ok () e := rfl

theorem runAll_append (xs ys : List SizeOp) :
    runAll (xs ++ ys) = (do runAll xs; runAll ys) := by
  induction xs with
  | nil => rfl
  | cons op xs ih => rw [List.cons_append, runAll, runAll, ih, bind_assoc]

theorem runAll_append_ok {xs : List SizeOp} {e e' : CDREncoder} (h : runAll xs e = .ok () e')
    (ys : List SizeOp) : runAll (xs ++ ys) e = runAll ys e' := by
  rw [runAll_append]
  exact bind_ok h _

/-- A sequence that returns has returned from its first part before. -/
theorem runAll_split {xs ys : List SizeOp} {e e' : CDREncoder} (h : runAll (xs ++ ys) e = .ok () e') :
    ∃ e₁, runAll xs e = .ok () e₁ ∧ runAll ys e₁ = .ok () e' := by
  rw [runAll_append] at h
  obtain ⟨_, e₁, hxs, hys⟩ := bind_eq_ok.1 h
  exact ⟨e₁, hxs, hys⟩

theorem runAll_reserveSize (ops : List SizeOp) (e : CDREncoder) :
    runAll (.reserveSize :: ops) e = runAll ops e.reserveSize := rfl

end SizeOp

/-! ### Proper nesting -/

open SizeOp (runAll runAll_append_ok runAll_split)

/-- Every size that is reserved is filled in, and those that are reserved later before it. -/
inductive Nested : List SizeOp → Prop
  | nil : Nested []
  | write (v : Value) {ops : List SizeOp} (h : Nested ops) : Nested (.write v :: ops)
  | sized {inner rest : List SizeOp} (hinner : Nested inner) (hrest : Nested rest) :
      Nested (.reserveSize :: (inner ++ .fillInSize :: rest))

/-- **Where something is filled in, it has been reserved before**, and what is between them is nested
as well. -/
theorem Nested.matching {ops : List SizeOp} (h : Nested ops) {front post : List SizeOp}
    (hops : ops = front ++ .fillInSize :: post) :
    ∃ pre inner, front = pre ++ .reserveSize :: inner ∧ Nested inner := by
  induction h generalizing front post with
  | nil => exact absurd hops (by simp)
  | write v _ ih =>
      cases front with
      | nil => cases hops
      | cons op front =>
          obtain ⟨rfl, htail⟩ := List.cons.inj hops
          obtain ⟨pre, inner, rfl, hinner⟩ := ih htail
          exact ⟨.write v :: pre, inner, rfl, hinner⟩
  | @sized inner rest hinner _ ihinner ihrest =>
      cases front with
      | nil => cases hops
      | cons op front =>
          obtain ⟨rfl, htail⟩ := List.cons.inj hops
          rcases List.append_eq_append_iff.1 htail with ⟨back, rfl, hback⟩ | ⟨back, rfl, hback⟩
          · cases back with
            | nil => exact ⟨[], inner, by rw [List.append_nil]; rfl, hinner⟩
            | cons op back =>
                -- it stands behind the size that is reserved first
                obtain ⟨rfl, hrest⟩ := List.cons.inj hback
                obtain ⟨pre, inner', rfl, hinner'⟩ := ihrest hrest
                exact ⟨.reserveSize :: (inner ++ .fillInSize :: pre), inner', by simp, hinner'⟩
          · cases back with
            | nil => exact ⟨[], front, rfl, by rwa [List.append_nil] at hinner⟩
            | cons op back =>
                obtain ⟨rfl, -⟩ := List.cons.inj hback
                obtain ⟨pre, inner', rfl, hinner'⟩ := ihinner rfl
                exact ⟨.reserveSize :: pre, inner', rfl, hinner'⟩

/-! ### What a nested sequence lays out -/

section Runs

variable [Platform]

/-- The items of a nested sequence at an offset. -/
inductive Arranged : ℕ → List SizeOp → Cdr.Items → Prop
  | nil (o : ℕ) : Arranged o [] []
  | write {o : ℕ} {v : Value} {ops : List SizeOp} {xs : Cdr.Items}
      (h : Arranged (extent o (v.items native)) ops xs) :
      Arranged o (.write v :: ops) (v.items native ++ xs)
  | sized {o : ℕ} {inner rest : List SizeOp} {body xs : Cdr.Items}
      (hinner : Arranged (roundUp 4 o + 4) inner body)
      (hrest : Arranged (extent o (Cdr.sized native o body)) rest xs) :
      Arranged o (.reserveSize :: (inner ++ .fillInSize :: rest)) (Cdr.sized native o body ++ xs)

/-- **A nested sequence lays out its items**, with every size in its place. -/
theorem Nested.wrote {ops : List SizeOp} (h : Nested ops) (e : CDREncoder) :
    ∃ e' xs, runAll ops e = .ok () e' ∧ Arranged e.offset ops xs ∧ e.Wrote xs e' := by
  induction h generalizing e with
  | nil => exact ⟨e, [], rfl, .nil _, CDREncoder.Wrote.put [] e⟩
  | write v _ ih =>
      have hv : e.Wrote (v.items native) (e.writeValue v) := by
        rw [CDREncoder.writeValue_eq]
        exact CDREncoder.Wrote.put _ e
      obtain ⟨e', xs, hrun, harranged, hwrote⟩ := ih (e.writeValue v)
      rw [hv.offset] at harranged
      exact ⟨e', _, hrun, .write harranged, hv.trans hwrote⟩
  | @sized inner rest _ _ ihinner ihrest =>
      obtain ⟨e₂, body, hinner, hbody, hwrote⟩ := ihinner e.reserveSize
      obtain ⟨e₃, hfill, hsized⟩ := hwrote.sized
      obtain ⟨e', xs, hrest, harranged, hwrote'⟩ := ihrest e₃
      have hstart : e.reserveSize.offset = roundUp 4 e.offset + 4 := by
        rw [CDREncoder.reserveSize_eq]
        rfl
      rw [hstart] at hbody
      rw [hsized.offset] at harranged
      refine ⟨e', _, ?_, .sized hbody harranged, hsized.trans hwrote'⟩
      rw [SizeOp.runAll_reserveSize, runAll_append_ok hinner, SizeOp.runAll]
      exact (bind_ok hfill _).trans hrest

/-! ### Filling in -/

/-- The number in the four octets from `slot` on. -/
def CDREncoder.sizeAt (slot : ℕ) (e : CDREncoder) : ℕ := native.value ((e.data.drop slot).take 4)

/-- The size of what begins at `start` has been filled in: the four octets in front of it hold the
number of the octets up to the offset, as an unsigned long can.  All else is as before. -/
structure Filled (start : ℕ) (e e' : CDREncoder) : Prop where
  four_le : 4 ≤ start
  le_offset : start ≤ e.offset
  room : start ≤ e'.data.length
  size : e'.sizeAt (start - 4) = (e.offset - start) % 2 ^ 32
  keep : ∀ i, i < start - 4 ∨ start ≤ i → ∀ b, e.data[i]? = some b → e'.data[i]? = some b
  offset : e'.offset = e.offset

/-- What is reserved and then written can be filled in. -/
theorem filled_of_wrote {e₁ e₂ : CDREncoder} {xs : Cdr.Items} (h : e₁.reserveSize.Wrote xs e₂) :
    ∃ e₃, CDREncoder.fillInSize e₂ = .ok () e₃ ∧ Filled e₁.reserveSize.offset e₂ e₃ ∧
      e₃.sizeStack = e₁.sizeStack := by
  have hmod : roundUp 4 e₁.offset % 4 = 0 := roundUp_mod (by decide) _
  have hstart : e₁.reserveSize.offset = roundUp 4 e₁.offset + 4 := by
    rw [CDREncoder.reserveSize_eq]
    rfl
  have hstack : e₂.sizeStack = (roundUp 4 e₁.offset + 4) :: e₁.sizeStack := by
    rw [h.sizeStack, CDREncoder.reserveSize_eq]
  have hle : roundUp 4 e₁.offset + 4 ≤ e₂.offset := hstart ▸ h.le_offset
  have hfill := CDREncoder.fillInSize_run hstack (by rw [Nat.add_sub_cancel, hmod])
  rw [hstart]
  refine ⟨_, hfill, ?_, rfl⟩
  rw [Nat.add_sub_cancel, ← UInt32.ofNat_sub hle]
  generalize roundUp 4 e₁.offset = slot at hle
  have hlength : (native.bytes 4 (UInt32.ofNat (e₂.offset - (slot + 4))).toNat).length = 4 :=
    Endian.length_bytes _ _ _
  refine ⟨Nat.le_add_left 4 slot, hle, ?_, ?_, ?_, rfl⟩
  · show slot + 4 ≤ (Placed.store 0 e₂.data slot _).length
    rw [length_store, hlength]
    exact le_max_right _ _
  · have hbytes := (at_store 0 e₂.data slot
      (native.bytes 4 (UInt32.ofNat (e₂.offset - (slot + 4))).toNat)).take_drop
    rw [hlength] at hbytes
    rw [Nat.add_sub_cancel, CDREncoder.sizeAt]
    show native.value (((Placed.store 0 e₂.data slot _).drop slot).take 4) = _
    rw [hbytes, Endian.value_bytes _ (UInt32.toNat_lt _), UInt32.toNat_ofNat']
  · rw [Nat.add_sub_cancel]
    rintro i (hbelow | habove) b hb
    · exact keep_store_below 0 e₂.data slot 0 _ i (Nat.zero_le i) hbelow b hb
    · refine keep_store_above 0 e₂.data slot (i + 1) _ i ?_ (Nat.lt_succ_self i) b hb
      rwa [hlength]

/-- Without anything that has been reserved, nothing is done. -/
theorem fillInSize_unmatched {e : CDREncoder} (h : e.sizeStack = []) :
    CDREncoder.fillInSize e =
      .error (.thrown (.runtimeError "internal error: fillinSize() misses reserveSize()")) e := by
  rw [CDREncoder.fillInSize, h]

/-! ### Whole sequences -/

/-- **Nested size fields.**  A properly nested sequence returns with the stack it began with.  Each
`fillInSize` in it has a `reserveSize` to itself, whose four octets it sets to the number of the octets
from there to the offset, modulo `2 ^ 32`, and does nothing else.  One more `fillInSize` than there is
something reserved throws and changes nothing. -/
theorem nested_sizes {ops : List SizeOp} (h : Nested ops) (e : CDREncoder) :
    (∃ e', runAll ops e = .ok () e' ∧ e'.sizeStack = e.sizeStack ∧
      (∀ front post, ops = front ++ .fillInSize :: post →
        ∃ pre inner, front = pre ++ .reserveSize :: inner ∧ Nested inner) ∧
      ∀ pre inner post, ops = pre ++ .reserveSize :: (inner ++ .fillInSize :: post) → Nested inner →
        ∃ e₁ e₂ e₃, runAll pre e = .ok () e₁ ∧ runAll inner e₁.reserveSize = .ok () e₂ ∧
          CDREncoder.fillInSize e₂ = .ok () e₃ ∧ runAll post e₃ = .ok () e' ∧
          Filled e₁.reserveSize.offset e₂ e₃) ∧
    (e.sizeStack = [] → ∀ post, ∃ e', runAll ops e = .ok () e' ∧
      runAll (ops ++ .fillInSize :: post) e =
        .error (.thrown (.runtimeError "internal error: fillinSize() misses reserveSize()")) e') := by
  obtain ⟨e', xs, hrun, -, hwrote⟩ := h.wrote e
  refine ⟨⟨e', hrun, hwrote.sizeStack, fun front post hops => h.matching hops, ?_⟩, ?_⟩
  · rintro pre inner post rfl hinner
    obtain ⟨e₁, hpre, hback⟩ := runAll_split hrun
    rw [SizeOp.runAll_reserveSize] at hback
    obtain ⟨e₂, ys, hinner, -, hwrote₂⟩ := hinner.wrote e₁.reserveSize
    obtain ⟨e₃, hfill, hfilled, -⟩ := filled_of_wrote hwrote₂
    refine ⟨e₁, e₂, e₃, hpre, hinner, hfill, ?_, hfilled⟩
    rw [runAll_append_ok hinner, SizeOp.runAll] at hback
    exact (bind_ok hfill _).symm.trans hback
  · intro hempty post
    refine ⟨e', hrun, ?_⟩
    rw [runAll_append_ok hrun, SizeOp.runAll]
    exact bind_error (fillInSize_unmatched (hwrote.sizeStack.trans hempty)) _

omit [Platform] in
theorem nested_sizes_two :
    letI : Platform := ⟨.little⟩
    ∃ e₁ e₂ e₃ e' : CDREncoder,
      runAll [.reserveSize, .write (.octet 7)] {} = .ok () e₁ ∧
      runAll [.write (.ulong 9)] e₁.reserveSize = .ok () e₂ ∧
      CDREncoder.fillInSize e₂ = .ok () e₃ ∧ runAll [.fillInSize] e₃ = .ok () e' ∧
      Filled e₁.reserveSize.offset e₂ e₃ ∧ e'.sizeStack = [] := by
  have hinner : Nested [.write (.ulong 9)] := .write _ .nil
  have hops : Nested (.reserveSize :: ((.write (.octet 7) ::
      .reserveSize :: ([.write (.ulong 9)] ++ .fillInSize :: [])) ++ .fillInSize :: [])) :=
    .sized (.write _ (.sized hinner .nil)) .nil
  obtain ⟨⟨e', -, hstack, -, hsizes⟩, -⟩ := @nested_sizes ⟨.little⟩ _ hops {}
  obtain ⟨e₁, e₂, e₃, hpre, hwrite, hfill, hpost, hfilled⟩ :=
    hsizes [.reserveSize, .write (.octet 7)] [.write (.ulong 9)] [.fillInSize] rfl hinner
  exact ⟨e₁, e₂, e₃, e', hpre, hwrite, hfill, hpost, hfilled, hstack⟩

omit [Platform] in
/-- A stretch whose number of octets an unsigned long cannot hold. -/
theorem long_size_reduced :
    letI : Platform := ⟨.little⟩
    ∃ e₂ e₃ : CDREncoder,
      Nested [.reserveSize, .write (.blob (List.replicate (2 ^ 32) 0)), .fillInSize] ∧
      runAll [.write (.blob (List.replicate (2 ^ 32) 0))] (CDREncoder.reserveSize {}) =
        .ok () e₂ ∧
      CDREncoder.fillInSize e₂ = .ok () e₃ ∧ (CDREncoder.reserveSize {}).offset = 4 ∧
      e₂.offset - 4 = 2 ^ 32 + 4 ∧ e₃.sizeAt 0 = 4 := by
  let : Platform := ⟨.little⟩
  generalize hv : List.replicate (2 ^ 32) (0 : UInt8) = v
  have hlength : v.length = 2 ^ 32 := by rw [← hv, List.length_replicate]
  have hnested : Nested [.reserveSize, .write (.blob v), .fillInSize] :=
    .sized (.write (.blob v) .nil) .nil
  have hwrote : (CDREncoder.reserveSize {}).Wrote (Cdr.blob native v)
      ((CDREncoder.reserveSize {}).writeBlob v) := by
    rw [CDREncoder.writeBlob_eq]
    exact CDREncoder.Wrote.put _ _
  obtain ⟨e₃, hfill, hfilled, -⟩ := filled_of_wrote hwrote
  have hoffset : ((CDREncoder.reserveSize {}).writeBlob v).offset = 8 + 2 ^ 32 := by
    rw [hwrote.offset, Cdr.extent_blob, hlength]
    rfl
  refine ⟨(CDREncoder.reserveSize {}).writeBlob v, e₃, hnested, rfl, hfill, rfl, by omega, ?_⟩
  have hsize := hfilled.size
  rw [hoffset] at hsize
  exact hsize

end Runs

end Corba
