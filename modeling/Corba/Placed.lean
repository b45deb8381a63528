/-
Contents at a position of a list, and stores into a list that grows on demand.

A growing byte vector is written at a cursor, is sometimes written again further back, and is read
at positions computed by somebody else.  What all of these arguments need is the statement that a
given list stands at a given position, how a store establishes it, and which stores leave it alone.
Nothing here depends on what the elements are.

Main definitions:

* `Placed.At` — a list stands in another one from a given position on;
* `Placed.Keep` — a stretch of positions is the same in two lists, wherever the first has it;
* `Placed.padTo`, `Placed.store` — growing a list, and storing into it.

Main results:

* `Placed.at_append` — contents split at any point;
* `Placed.at_store` — what was stored stands where it was stored;
* `Placed.keep_store_below`, `Placed.keep_store_above` — a store leaves the rest alone.
-/

import Mathlib.Data.List.Basic
import Mathlib.Data.Nat.Notation

set_option relaxedAutoImplicit false
set_option autoImplicit false

namespace Placed

variable {α : Type*}

/-! ### Contents at a position -/

/-- The list `bs` stands in `D` from index `o` on. -/
def At (D : List α) (o : ℕ) (bs : List α) : Prop :=
  ∀ i, i < bs.length → D[o + i]? = bs[i]?

@[simp] theorem at_nil (D : List α) (o : ℕ) : At D o [] := by
  intro i hi
  simp at hi

theorem at_singleton {D : List α} {o : ℕ} {b : α} : At D o [b] ↔ D[o]? = some b := by
  constructor
  · intro h
    simpa using h 0 (by simp)
  · intro h i hi
    obtain rfl : i = 0 := by simpa using hi
    simpa using h

/-- Contents can be split at any point. -/
theorem at_append {D : List α} {o : ℕ} {xs ys : List α} :
    At D o (xs ++ ys) ↔ At D o xs ∧ At D (o + xs.length) ys := by
  constructor
  · intro h
    refine ⟨?_, ?_⟩
    · intro i hi
      rw [h i (by simp; omega), List.getElem?_append_left hi]
    · intro i hi
      have hs := h (xs.length + i) (by simp; omega)
      rw [← Nat.add_assoc] at hs
      rw [hs, List.getElem?_append_right (by omega)]
      congr 1
      omega
  · rintro ⟨hx, hy⟩ i hi
    rcases Nat.lt_or_ge i xs.length with hlt | hge
    · rw [hx i hlt, List.getElem?_append_left hlt]
    · have hs := hy (i - xs.length) (by simp at hi; omega)
      rw [List.getElem?_append_right hge, ← hs]
      congr 1
      omega

theorem at_cons {D : List α} {o : ℕ} {b : α} {bs : List α} :
    At D o (b :: bs) ↔ D[o]? = some b ∧ At D (o + 1) bs := by
  have h : At D o ([b] ++ bs) ↔ At D o [b] ∧ At D (o + 1) bs := at_append
  simpa [at_singleton] using h

/-- Contents that are there fit. -/
theorem At.le_length {D : List α} {o : ℕ} {bs : List α} (h : At D o bs) (hne : bs ≠ []) :
    o + bs.length ≤ D.length := by
  have hpos : 0 < bs.length := List.length_pos_iff.2 hne
  have hlast := h (bs.length - 1) (by omega)
  rw [List.getElem?_eq_getElem (l := bs) (by omega)] at hlast
  have := (List.getElem?_eq_some_iff.1 hlast).1
  omega

/-- What stands at a position is what cutting the list there yields. -/
theorem At.take_drop {D : List α} {o : ℕ} {bs : List α} (h : At D o bs) :
    (D.drop o).take bs.length = bs := by
  refine List.ext_getElem? fun i => ?_
  rcases Nat.lt_or_ge i bs.length with hlt | hge
  · rw [List.getElem?_take_of_lt hlt, List.getElem?_drop, h i hlt]
  · rw [List.getElem?_eq_none (by rw [List.length_take]; omega), List.getElem?_eq_none hge]

theorem at_take_drop {D : List α} {o n : ℕ} : At D o ((D.drop o).take n) := by
  intro i hi
  rw [List.length_take] at hi
  rw [List.getElem?_take_of_lt (by omega), List.getElem?_drop]

theorem at_of_take_drop {D : List α} {o : ℕ} {bs : List α} (h : (D.drop o).take bs.length = bs) :
    At D o bs := by
  rw [← h]
  exact at_take_drop

/-- The contents of a stretch are unique. -/
theorem At.unique {D : List α} {o : ℕ} {xs ys : List α} (hx : At D o xs) (hy : At D o ys)
    (hlen : xs.length = ys.length) : xs = ys := by
  rw [← hx.take_drop, ← hy.take_drop, hlen]

/-- Contents that end in front of the end of a prefix stand in it. -/
theorem At.of_isPrefix {D E : List α} {o : ℕ} {bs : List α} (h : At E o bs) (hp : D <+: E)
    (hle : o + bs.length ≤ D.length) : At D o bs := by
  obtain ⟨t, rfl⟩ := hp
  intro i hi
  rw [← h i hi, List.getElem?_append_left (by omega)]

/-- Where two contents overlap, they are the same. -/
theorem At.overlap {D : List α} {a b i j : ℕ} {xs ys : List α} (hx : At D a xs) (hy : At D b ys)
    (hpos : a + i = b + j) (hi : i < xs.length) (hj : j < ys.length) : xs[i]? = ys[j]? := by
  rw [← hx i hi, ← hy j hj, hpos]

/-! ### Stretches that are kept -/

/-- Every element `D` has at a position from `a` up to `b` is in `E` at the same position. -/
def Keep (a b : ℕ) (D E : List α) : Prop :=
  ∀ i, a ≤ i → i < b → ∀ x, D[i]? = some x → E[i]? = some x

theorem Keep.refl (a b : ℕ) (D : List α) : Keep a b D D := fun _ _ _ _ h => h

theorem Keep.trans {a b : ℕ} {D E F : List α} (h : Keep a b D E) (h' : Keep a b E F) :
    Keep a b D F :=
  fun i ha hb x hx => h' i ha hb x (h i ha hb x hx)

theorem Keep.mono {a b a' b' : ℕ} {D E : List α} (h : Keep a b D E) (ha : a ≤ a') (hb : b' ≤ b) :
    Keep a' b' D E :=
  fun i hi hi' => h i (by omega) (by omega)

/-- A stretch the first list has altogether is the same in both. -/
theorem Keep.symm {a b : ℕ} {D E : List α} (h : Keep a b D E) (hb : b ≤ D.length) :
    Keep a b E D := by
  intro i hai hib x hx
  have hD : D[i]? = some D[i] := List.getElem?_eq_getElem (by omega)
  have hE := h i hai hib _ hD
  rw [hx] at hE
  rw [hD, ← hE]

/-- A list that is kept altogether is a prefix. -/
theorem Keep.isPrefix {D E : List α} (h : Keep 0 D.length D E) : D <+: E := by
  refine List.prefix_iff_getElem?.2 fun i hi => ?_
  exact h i (Nat.zero_le i) hi _ (List.getElem?_eq_getElem hi)

/-- Contents of a stretch that is kept stay where they are. -/
theorem At.keep {D E : List α} {o a b : ℕ} {bs : List α} (h : At D o bs) (hk : Keep a b D E)
    (ha : a ≤ o) (hb : o + bs.length ≤ b) : At E o bs := by
  intro i hi
  have hx : bs[i]? = some bs[i] := List.getElem?_eq_getElem hi
  rw [hx]
  exact hk (o + i) (by omega) (by omega) _ (by rw [h i hi, hx])

/-! ### Growing and storing -/

/-- Grow `D` to at least `n` elements, filling with `z`. -/
def padTo (z : α) (n : ℕ) (D : List α) : List α := D ++ List.replicate (n - D.length) z

@[simp] theorem length_padTo (z : α) (n : ℕ) (D : List α) :
    (padTo z n D).length = max D.length n := by
  simp only [padTo, List.length_append, List.length_replicate]
  omega

theorem keep_padTo (z : α) (a b n : ℕ) (D : List α) : Keep a b D (padTo z n D) := by
  intro i _ _ x hx
  have hi : i < D.length := (List.getElem?_eq_some_iff.1 hx).1
  rw [padTo, List.getElem?_append_left hi, hx]

theorem padTo_padTo (z : α) (D : List α) {m n : ℕ} (h : m ≤ n) :
    padTo z n (padTo z m D) = padTo z n D := by
  rw [padTo, padTo, padTo, List.append_assoc, List.replicate_append_replicate, List.length_append,
    List.length_replicate]
  congr 2
  omega

/-- Store `bs` into `D` from index `o` on, growing `D` as far as needed. -/
def store (z : α) (D : List α) (o : ℕ) (bs : List α) : List α :=
  (padTo z (o + bs.length) D).take o ++ bs ++ (padTo z (o + bs.length) D).drop (o + bs.length)

@[simp] theorem length_store (z : α) (D : List α) (o : ℕ) (bs : List α) :
    (store z D o bs).length = max D.length (o + bs.length) := by
  simp only [store, List.length_append, List.length_take, List.length_drop, length_padTo]
  omega

private theorem length_take_padTo (z : α) (D : List α) (o : ℕ) (bs : List α) :
    ((padTo z (o + bs.length) D).take o).length = o := by
  simp only [List.length_take, length_padTo]
  omega

/-- What was stored stands where it was stored. -/
theorem at_store (z : α) (D : List α) (o : ℕ) (bs : List α) : At (store z D o bs) o bs := by
  intro i hi
  have hlen := length_take_padTo z D o bs
  rw [store, List.append_assoc, List.getElem?_append_right (by omega), hlen,
    List.getElem?_append_left (by omega)]
  congr 1
  omega

/-- Below the position of a store, the list is as before, grown. -/
theorem getElem?_store_of_lt {z : α} {D : List α} {o i : ℕ} {bs : List α} (hi : i < o) :
    (store z D o bs)[i]? = (padTo z (o + bs.length) D)[i]? := by
  have hlen := length_take_padTo z D o bs
  rw [store, List.append_assoc, List.getElem?_append_left (by omega), List.getElem?_take_of_lt hi]

/-- Above the stretch of a store, the list is as before. -/
theorem getElem?_store_of_ge {z : α} {D : List α} {o i : ℕ} {bs : List α}
    (hi : o + bs.length ≤ i) : (store z D o bs)[i]? = D[i]? := by
  have hlen := length_take_padTo z D o bs
  rw [store, List.getElem?_append_right (by simp [hlen]; omega), List.getElem?_drop]
  have hidx : o + bs.length + (i - ((padTo z (o + bs.length) D).take o ++ bs).length) = i := by
    simp only [List.length_append, hlen]
    omega
  rw [hidx]
  rcases Nat.lt_or_ge i D.length with hlt | hge
  · rw [padTo, List.getElem?_append_left hlt]
  · rw [List.getElem?_eq_none hge, List.getElem?_eq_none (by rw [length_padTo]; omega)]

theorem keep_store_below (z : α) (D : List α) (o a : ℕ) (bs : List α) :
    Keep a o D (store z D o bs) := by
  intro i ha hi x hx
  rw [getElem?_store_of_lt hi]
  exact keep_padTo z a o _ D i ha hi x hx

/-- What is stored far enough behind does not depend on the list having been grown before. -/
theorem store_padTo (z : α) (D : List α) {n o : ℕ} (bs : List α) (h : n ≤ o) :
    store z (padTo z n D) o bs = store z D o bs := by
  rw [store, store, padTo_padTo z D (Nat.le_add_right_of_le h)]

/-- Storing nothing into a list that reaches as far changes nothing. -/
theorem store_nil {z : α} {D : List α} {o : ℕ} (h : o ≤ D.length) : store z D o [] = D := by
  have hpad : padTo z (o + 0) D = D := by
    rw [padTo, Nat.sub_eq_zero_of_le (by omega), List.replicate_zero, List.append_nil]
  rw [store, List.length_nil, hpad, List.append_nil, Nat.add_zero, List.take_append_drop]

/-- Two stores, the second behind the first, are one. -/
theorem store_append (z : α) (D : List α) (o : ℕ) (xs ys : List α) :
    store z (store z D o xs) (o + xs.length) ys = store z D o (xs ++ ys) := by
  refine List.ext_getElem? fun i => ?_
  rcases Nat.lt_or_ge i (o + xs.length) with hlow | hhigh
  · have hfirst : (store z (store z D o xs) (o + xs.length) ys)[i]? = (store z D o xs)[i]? := by
      rw [getElem?_store_of_lt hlow, padTo, List.getElem?_append_left (by rw [length_store]; omega)]
    rw [hfirst]
    rcases Nat.lt_or_ge i o with hbelow | hfrom
    · rw [getElem?_store_of_lt hbelow, getElem?_store_of_lt hbelow, List.length_append, padTo, padTo]
      rcases Nat.lt_or_ge i D.length with hin | hout
      · rw [List.getElem?_append_left hin, List.getElem?_append_left hin]
      · rw [List.getElem?_append_right hout, List.getElem?_append_right hout,
          List.getElem?_replicate, List.getElem?_replicate, if_pos (by omega), if_pos (by omega)]
    · have hx := at_store z D o xs (i - o) (by omega)
      have hxy := (at_append.1 (at_store z D o (xs ++ ys))).1 (i - o) (by omega)
      rw [show o + (i - o) = i by omega] at hx hxy
      rw [hx, hxy]
  · rcases Nat.lt_or_ge i (o + xs.length + ys.length) with hin | hout
    · have hy := at_store z (store z D o xs) (o + xs.length) ys (i - (o + xs.length)) (by omega)
      have hxy := (at_append.1 (at_store z D o (xs ++ ys))).2 (i - (o + xs.length)) (by omega)
      rw [show o + xs.length + (i - (o + xs.length)) = i by omega] at hy hxy
      rw [hy, hxy]
    · rw [getElem?_store_of_ge hout, getElem?_store_of_ge (by omega),
        getElem?_store_of_ge (by rw [List.length_append]; omega)]

theorem keep_store_above (z : α) (D : List α) (o b : ℕ) (bs : List α) :
    Keep (o + bs.length) b D (store z D o bs) := by
  intro i hi _ x hx
  rw [getElem?_store_of_ge hi, hx]

end Placed
