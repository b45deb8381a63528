/-
Aligned layouts: sequences of items written at a cursor.

Many wire formats are sequences of aligned fields: the cursor is moved to a multiple of the
alignment of the next field, the field is put there, and the cursor is moved behind it.  A format
may also leave room and come back later to fill it in.  This module states what it means for a
buffer to hold such a sequence, without saying who wrote it or what stands in the gaps, and proves
that the obvious writer produces a buffer that does.

Main definitions:

* `Layout.roundUp`, `Layout.maskUp` — the next multiple of an alignment, and how it is computed
  with bit operations;
* `Layout.Item` — moving to an alignment, contents, and room that is left open;
* `Layout.extent`, `Layout.Laid` — where a sequence of items ends, and that a buffer holds it;
* `Layout.write` — the writer, on a buffer that grows on demand.

Main results:

* `Layout.maskUp_eq` — the bit operations round up;
* `Layout.laid_append`, `Layout.extent_append` — layouts compose;
* `Layout.Laid.keep` — a layout only depends on the stretch it covers;
* `Layout.laid_write`, `Layout.keep_write` — the writer lays out the items and keeps what stood
  before the cursor;
* `Layout.Laid.patch` — filling in an item later is as good as writing it in the first place.
-/

import Corba.Placed
import Mathlib.Data.Nat.Bitwise

set_option relaxedAutoImplicit false
set_option autoImplicit false

namespace Layout

open Placed

/-! ### Rounding up -/

/-- The least multiple of `a` that is at least `o`. -/
def roundUp (a o : ℕ) : ℕ := o + (a - o % a) % a

theorem le_roundUp (a o : ℕ) : o ≤ roundUp a o := Nat.le_add_right ..

theorem roundUp_lt {a : ℕ} (ha : 0 < a) (o : ℕ) : roundUp a o < o + a :=
  Nat.add_lt_add_left (Nat.mod_lt _ ha) o

theorem roundUp_mod {a : ℕ} (ha : 0 < a) (o : ℕ) : roundUp a o % a = 0 := by
  have hr : o % a < a := Nat.mod_lt o ha
  rcases Nat.eq_zero_or_pos (o % a) with h0 | hpos
  · simp [roundUp, h0]
  · have hlt : (a - o % a) % a = a - o % a := Nat.mod_eq_of_lt (by omega)
    have hdiv := Nat.div_add_mod o a
    have : roundUp a o = a * (o / a + 1) := by
      rw [roundUp, hlt, Nat.mul_add]
      omega
    rw [this, Nat.mul_mod_right]

theorem roundUp_eq_self {a o : ℕ} (h : o % a = 0) : roundUp a o = o := by
  simp [roundUp, h]

theorem roundUp_mono (a : ℕ) {m n : ℕ} (h : m ≤ n) : roundUp a m ≤ roundUp a n := by
  rcases Nat.eq_zero_or_pos a with rfl | ha
  · simpa [roundUp] using h
  · by_contra hlt
    -- two different multiples are further apart than rounding can reach
    have hdvd : a ∣ roundUp a m - roundUp a n :=
      Nat.dvd_sub (Nat.dvd_of_mod_eq_zero (roundUp_mod ha m))
        (Nat.dvd_of_mod_eq_zero (roundUp_mod ha n))
    have hle := Nat.le_of_dvd (by omega) hdvd
    have hm := roundUp_lt ha m
    have hn := le_roundUp a n
    omega

/-- Nothing changes when a multiple is put in front. -/
theorem roundUp_add {a p : ℕ} (h : p % a = 0) (o : ℕ) : roundUp a (p + o) = p + roundUp a o := by
  rw [roundUp, roundUp, Nat.add_mod, h, Nat.zero_add, Nat.mod_mod, Nat.add_assoc]

/-- Nothing changes when a multiple is put behind what has been rounded up. -/
theorem roundUp_roundUp_add {a k : ℕ} (ha : 0 < a) (hk : k % a = 0) (o : ℕ) :
    roundUp a (roundUp a o + k) = roundUp a o + k := by
  refine roundUp_eq_self ?_
  rw [Nat.add_mod, roundUp_mod ha, hk, Nat.zero_mod]

@[simp] theorem roundUp_one (o : ℕ) : roundUp 1 o = o := roundUp_eq_self (Nat.mod_one o)

/-- Rounding up with bit operations: setting the low `k` bits and adding one. -/
theorem or_mask_add_one {k o : ℕ} (h : o % 2 ^ k ≠ 0) :
    (o ||| (2 ^ k - 1)) + 1 = roundUp (2 ^ k) o := by
  have hlt : o % 2 ^ k < 2 ^ k := Nat.mod_lt _ (Nat.two_pow_pos k)
  have hlow : o % 2 ^ k ||| (2 ^ k - 1) = 2 ^ k - 1 := by
    refine Nat.eq_of_testBit_eq fun i => ?_
    rw [Nat.testBit_or, Nat.testBit_two_pow_sub_one]
    rcases Nat.lt_or_ge i k with hi | hi
    · simp [hi]
    · simp [Nat.testBit_lt_two_pow (Nat.lt_of_lt_of_le hlt (Nat.pow_le_pow_right (by decide) hi)),
        Nat.not_lt.2 hi]
  have hor : o ||| (2 ^ k - 1) = 2 ^ k * (o / 2 ^ k) + (2 ^ k - 1) := by
    have ho : o = 2 ^ k * (o / 2 ^ k) ||| o % 2 ^ k := by
      rw [← Nat.two_pow_add_eq_or_of_lt hlt, Nat.div_add_mod]
    calc o ||| (2 ^ k - 1)
        = 2 ^ k * (o / 2 ^ k) ||| (o % 2 ^ k ||| (2 ^ k - 1)) := by rw [← Nat.or_assoc, ← ho]
      _ = 2 ^ k * (o / 2 ^ k) ||| (2 ^ k - 1) := by rw [hlow]
      _ = 2 ^ k * (o / 2 ^ k) + (2 ^ k - 1) := by
          rw [← Nat.two_pow_add_eq_or_of_lt (by omega)]
  have hdiv := Nat.div_add_mod o (2 ^ k)
  have hsub : (2 ^ k - o % 2 ^ k) % 2 ^ k = 2 ^ k - o % 2 ^ k := Nat.mod_eq_of_lt (by omega)
  rw [hor, roundUp, hsub]
  omega

/-- Moving to an alignment as it is done with a mask of the low bits: `if (o & mask) { o |= mask;
++o; }`. -/
def maskUp (mask o : ℕ) : ℕ := if o &&& mask ≠ 0 then (o ||| mask) + 1 else o

/-- **The bit operations round up.** -/
theorem maskUp_eq (k o : ℕ) : maskUp (2 ^ k - 1) o = roundUp (2 ^ k) o := by
  unfold maskUp
  rw [Nat.and_two_pow_sub_one_eq_mod]
  by_cases h : o % 2 ^ k = 0
  · rw [if_neg (by omega), roundUp_eq_self h]
  · rw [if_pos h, or_mask_add_one h]

@[simp] theorem maskUp_one (o : ℕ) : maskUp 1 o = roundUp 2 o := maskUp_eq 1 o

@[simp] theorem maskUp_three (o : ℕ) : maskUp 3 o = roundUp 4 o := maskUp_eq 2 o

@[simp] theorem maskUp_seven (o : ℕ) : maskUp 7 o = roundUp 8 o := maskUp_eq 3 o

/-! ### Items and where they end -/

/-- An item of a layout: moving on to a multiple of `a`, contents, or room for `n` elements. -/
inductive Item (α : Type*) where
  | align (a : ℕ)
  | raw (bs : List α)
  | skip (n : ℕ)
  deriving Repr

variable {α : Type*}

/-- Where an item that begins at `o` ends. -/
def Item.next : Item α → ℕ → ℕ
  | .align a, o => roundUp a o
  | .raw bs, o => o + bs.length
  | .skip n, o => o + n

/-- Where a sequence of items that begins at `o` ends. -/
def extent : ℕ → List (Item α) → ℕ
  | o, [] => o
  | o, x :: xs => extent (x.next o) xs

@[simp] theorem extent_nil (o : ℕ) : extent o ([] : List (Item α)) = o := rfl

@[simp] theorem extent_align (o a : ℕ) (xs : List (Item α)) :
    extent o (.align a :: xs) = extent (roundUp a o) xs := rfl

@[simp] theorem extent_raw (o : ℕ) (bs : List α) (xs : List (Item α)) :
    extent o (.raw bs :: xs) = extent (o + bs.length) xs := rfl

@[simp] theorem extent_skip (o n : ℕ) (xs : List (Item α)) :
    extent o (.skip n :: xs) = extent (o + n) xs := rfl

theorem extent_append (o : ℕ) (xs ys : List (Item α)) :
    extent o (xs ++ ys) = extent (extent o xs) ys := by
  induction xs generalizing o with
  | nil => rfl
  | cons x xs ih => exact ih (x.next o)

theorem Item.le_next (x : Item α) (o : ℕ) : o ≤ x.next o := by
  cases x with
  | align a => exact le_roundUp a o
  | raw bs => exact Nat.le_add_right ..
  | skip n => exact Nat.le_add_right ..

theorem le_extent (o : ℕ) (xs : List (Item α)) : o ≤ extent o xs := by
  induction xs generalizing o with
  | nil => exact le_rfl
  | cons x xs ih => exact (x.le_next o).trans (ih (x.next o))

theorem extent_mono (xs : List (Item α)) {m n : ℕ} (h : m ≤ n) : extent m xs ≤ extent n xs := by
  induction xs generalizing m n with
  | nil => exact h
  | cons x xs ih =>
      cases x with
      | align a => exact ih (roundUp_mono a h)
      | raw bs => exact ih (Nat.add_le_add_right h _)
      | skip k => exact ih (Nat.add_le_add_right h _)

/-! ### Layouts -/

/-- The buffer `D` holds the item at `o`.  Only contents say anything about the buffer. -/
def Item.HeldAt (D : List α) (o : ℕ) : Item α → Prop
  | .raw bs => At D o bs
  | .align _ => True
  | .skip _ => True

/-- The buffer `D` holds the items from `o` on. -/
def Laid (D : List α) : ℕ → List (Item α) → Prop
  | _, [] => True
  | o, x :: xs => x.HeldAt D o ∧ Laid D (x.next o) xs

@[simp] theorem laid_nil (D : List α) (o : ℕ) : Laid D o [] := trivial

@[simp] theorem laid_align {D : List α} {o a : ℕ} {xs : List (Item α)} :
    Laid D o (.align a :: xs) ↔ Laid D (roundUp a o) xs := by
  simp [Laid, Item.HeldAt, Item.next]

@[simp] theorem laid_raw {D : List α} {o : ℕ} {bs : List α} {xs : List (Item α)} :
    Laid D o (.raw bs :: xs) ↔ At D o bs ∧ Laid D (o + bs.length) xs := Iff.rfl

@[simp] theorem laid_skip {D : List α} {o n : ℕ} {xs : List (Item α)} :
    Laid D o (.skip n :: xs) ↔ Laid D (o + n) xs := by
  simp [Laid, Item.HeldAt, Item.next]

theorem laid_append {D : List α} {o : ℕ} {xs ys : List (Item α)} :
    Laid D o (xs ++ ys) ↔ Laid D o xs ∧ Laid D (extent o xs) ys := by
  induction xs generalizing o with
  | nil => simp
  | cons x xs ih =>
      rw [List.cons_append, Laid, Laid, ih, and_assoc]
      rfl

/-- A layout that ends with octets ends in the buffer. -/
theorem Laid.extent_le {D : List α} {o : ℕ} {xs : List (Item α)} {bs : List α}
    (h : Laid D o (xs ++ [.raw bs])) (hbs : bs ≠ []) :
    extent o (xs ++ [.raw bs]) ≤ D.length := by
  rw [extent_append, extent_raw, extent_nil]
  exact (laid_raw.1 (laid_append.1 h).2).1.le_length hbs

/-- A layout only depends on the stretch it covers. -/
theorem Laid.keep {D E : List α} {o a b : ℕ} {xs : List (Item α)} (h : Laid D o xs)
    (hk : Keep a b D E) (ha : a ≤ o) (hb : extent o xs ≤ b) : Laid E o xs := by
  induction xs generalizing o with
  | nil => trivial
  | cons x xs ih =>
      have hle : x.next o ≤ extent o (x :: xs) := le_extent _ xs
      refine ⟨?_, ih h.2 (ha.trans (x.le_next o)) hb⟩
      cases x with
      | align a => trivial
      | skip n => trivial
      | raw bs => exact At.keep h.1 hk ha (hle.trans hb)

theorem Laid.mono {D E : List α} {o : ℕ} {xs : List (Item α)} (h : Laid D o xs)
    (hp : D <+: E) : Laid E o xs := by
  have hk : Keep o (extent o xs) D E := by
    intro i _ _ x hx
    obtain ⟨t, rfl⟩ := hp
    rw [List.getElem?_append_left (List.getElem?_eq_some_iff.1 hx).1, hx]
  exact h.keep hk le_rfl le_rfl

/-! ### The writer -/

/-- Write the items at the cursor `o`, growing the buffer as far as their contents need. -/
def write (z : α) : List α → ℕ → List (Item α) → List α
  | D, _, [] => D
  | D, o, .align a :: xs => write z D (roundUp a o) xs
  | D, o, .raw bs :: xs => write z (store z D o bs) (o + bs.length) xs
  | D, o, .skip n :: xs => write z D (o + n) xs

theorem write_append (z : α) (D : List α) (o : ℕ) (xs ys : List (Item α)) :
    write z D o (xs ++ ys) = write z (write z D o xs) (extent o xs) ys := by
  induction xs generalizing D o with
  | nil => rfl
  | cons x xs ih => cases x with
    | align a => exact ih D (roundUp a o)
    | raw bs => exact ih (store z D o bs) (o + bs.length)
    | skip n => exact ih D (o + n)

/-- What stood before the cursor is kept. -/
theorem keep_write (z : α) (D : List α) (o a : ℕ) (xs : List (Item α)) :
    Keep a o D (write z D o xs) := by
  induction xs generalizing D o with
  | nil => exact Keep.refl a o D
  | cons x xs ih => cases x with
    | align n => exact (ih D (roundUp n o)).mono le_rfl (le_roundUp n o)
    | skip n => exact (ih D (o + n)).mono le_rfl (Nat.le_add_right ..)
    | raw bs =>
        exact (keep_store_below z D o a bs).trans
          ((ih (store z D o bs) (o + bs.length)).mono le_rfl (Nat.le_add_right ..))

/-- What stands behind the items is kept as well. -/
theorem keep_write_above (z : α) (D : List α) (o b : ℕ) (xs : List (Item α)) :
    Keep (extent o xs) b D (write z D o xs) := by
  induction xs generalizing D o with
  | nil => exact Keep.refl o b D
  | cons x xs ih => cases x with
    | align n => exact ih D (roundUp n o)
    | skip n => exact ih D (o + n)
    | raw bs =>
        have hstore := keep_store_above z D o b bs
        exact (hstore.mono (le_extent _ xs) le_rfl).trans (ih (store z D o bs) (o + bs.length))

/-- The writer lays out the items. -/
theorem laid_write (z : α) (D : List α) (o : ℕ) (xs : List (Item α)) :
    Laid (write z D o xs) o xs := by
  induction xs generalizing D o with
  | nil => trivial
  | cons x xs ih => cases x with
    | align n => exact laid_align.2 (ih D (roundUp n o))
    | skip n => exact laid_skip.2 (ih D (o + n))
    | raw bs =>
        refine laid_raw.2 ⟨?_, ih (store z D o bs) (o + bs.length)⟩
        exact (at_store z D o bs).keep (keep_write z _ _ o xs) le_rfl le_rfl

/-- The writer never shrinks the buffer, and never grows it beyond the end of the items. -/
theorem length_write_le (z : α) (D : List α) (o : ℕ) (xs : List (Item α)) :
    (write z D o xs).length ≤ max D.length (extent o xs) := by
  induction xs generalizing D o with
  | nil => exact Nat.le_max_left ..
  | cons x xs ih => cases x with
    | align n => exact ih D (roundUp n o)
    | skip n => exact ih D (o + n)
    | raw bs =>
        have hle := le_extent (o + bs.length) xs
        have := ih (store z D o bs) (o + bs.length)
        rw [length_store] at this
        rw [write, extent_raw]
        omega

theorem length_le_write (z : α) (D : List α) (o : ℕ) (xs : List (Item α)) :
    D.length ≤ (write z D o xs).length := by
  induction xs generalizing D o with
  | nil => exact le_rfl
  | cons x xs ih => cases x with
    | align n => exact ih D (roundUp n o)
    | skip n => exact ih D (o + n)
    | raw bs =>
        have := ih (store z D o bs) (o + bs.length)
        rw [length_store] at this
        exact (Nat.le_max_left ..).trans this

/-- **Filling in later.**  Storing contents of the right size over an item of a layout gives the
layout with those contents in its place. -/
theorem Laid.patch {D : List α} {o : ℕ} {xs ys : List (Item α)} {y : Item α} {bs : List α}
    (z : α) (h : Laid D o (xs ++ y :: ys))
    (hlen : y.next (extent o xs) = extent o xs + bs.length) :
    Laid (store z D (extent o xs) bs) o (xs ++ .raw bs :: ys) := by
  obtain ⟨hx, _, hy⟩ := laid_append.1 h
  rw [hlen] at hy
  refine laid_append.2 ⟨?_, laid_raw.2 ⟨at_store z D _ bs, ?_⟩⟩
  · exact hx.keep (keep_store_below z D _ o bs) le_rfl le_rfl
  · exact hy.keep (keep_store_above z D _ _ bs) le_rfl le_rfl

/-- The extent does not change when an item is filled in. -/
theorem extent_patch {o : ℕ} {xs ys : List (Item α)} {y : Item α} {bs : List α}
    (hlen : y.next (extent o xs) = extent o xs + bs.length) :
    extent o (xs ++ .raw bs :: ys) = extent o (xs ++ y :: ys) := by
  rw [extent_append, extent_append, extent_raw, extent, hlen]

end Layout
