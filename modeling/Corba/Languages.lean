/-
Languages that grammars are written with.

Besides sums, products and stars, a grammar needs single letters out of a class and words with a
separator between them.

Main definitions:

* `Language.letter` — the words of one letter;
* `Language.separated` — words with separators between them.

Main results:

* `Language.mem_kstar_letter` — a star over letters puts a condition on every letter;
* `Language.separated_induction` — what holds of single words and is kept by a separator holds of all.
-/

import Mathlib.Computability.Language

set_option relaxedAutoImplicit false
set_option autoImplicit false

namespace Language

open Computability

variable {α : Type*} {p : α → Bool} {l m : Language α} {w x y : List α}

/-- The words of one letter that `p` holds of. -/
def letter (p : α → Bool) : Language α := {x | ∃ c, p c = true ∧ x = [c]}

/-- Words of `l` with separators between them. -/
def separated (sep : List α) (l : Language α) : Language α := l * ({sep} * l)∗

theorem mem_one_add : x ∈ 1 + l ↔ x = [] ∨ x ∈ l := by
  rw [mem_add, mem_one]

theorem mem_singleton_mul : x ∈ ({w} : Language α) * l ↔ ∃ y ∈ l, x = w ++ y := by
  rw [mem_mul]
  constructor
  · rintro ⟨_, rfl, y, hy, rfl⟩
    exact ⟨y, hy, rfl⟩
  · rintro ⟨y, hy, rfl⟩
    exact ⟨w, rfl, y, hy, rfl⟩

theorem mem_letter_mul : x ∈ letter p * l ↔ ∃ c y, p c = true ∧ y ∈ l ∧ x = c :: y := by
  rw [mem_mul]
  constructor
  · rintro ⟨_, ⟨c, hc, rfl⟩, y, hy, rfl⟩
    exact ⟨c, y, hc, hy, rfl⟩
  · rintro ⟨c, y, hc, hy, rfl⟩
    exact ⟨[c], ⟨c, hc, rfl⟩, y, hy, rfl⟩

theorem append_mem_kstar (hx : x ∈ l) (hy : y ∈ l∗) : x ++ y ∈ l∗ := by
  rw [← one_add_self_mul_kstar_eq_kstar, mem_one_add]
  exact Or.inr (append_mem_mul hx hy)

/-- What holds of no word and is kept by one more word holds of all words of a star. -/
theorem kstar_induction {P : List α → Prop} (hx : x ∈ l∗) (nil : P [])
    (append : ∀ y z, y ∈ l → z ∈ l∗ → P z → P (y ++ z)) : P x := by
  obtain ⟨ys, rfl, hys⟩ := mem_kstar.1 hx
  clear hx
  induction ys with
  | nil => exact nil
  | cons y ys ih =>
      have hrest : ∀ z ∈ ys, z ∈ l := fun z hz => hys z (List.mem_cons_of_mem _ hz)
      rw [List.flatten_cons]
      exact append _ _ (hys y List.mem_cons_self) (join_mem_kstar hrest)
        (ih hrest)

theorem mem_kstar_letter : x ∈ (letter p)∗ ↔ ∀ c ∈ x, p c = true := by
  constructor
  · intro hx
    refine kstar_induction (P := fun x => ∀ c ∈ x, p c = true) hx (by simp) ?_
    rintro _ z ⟨c, hc, rfl⟩ - hz
    exact List.forall_mem_cons.2 ⟨hc, hz⟩
  · intro hx
    induction x with
    | nil => exact nil_mem_kstar _
    | cons c x ih =>
        rw [List.forall_mem_cons] at hx
        have hc : [c] ∈ letter p := ⟨c, hx.1, rfl⟩
        exact append_mem_kstar hc (ih hx.2)

/-! ### Separators -/

section Separated

variable {sep : List α}

theorem mem_separated (hx : x ∈ l) : x ∈ separated sep l := by
  rw [← List.append_nil x]
  exact append_mem_mul hx (nil_mem_kstar _)

theorem append_mem_separated (hx : x ∈ l) (hy : y ∈ separated sep l) :
    x ++ (sep ++ y) ∈ separated sep l := by
  obtain ⟨z, hz, ys, hys, rfl⟩ := mem_mul.1 hy
  rw [← List.append_assoc sep]
  exact append_mem_mul hx (append_mem_kstar (mem_singleton_mul.2 ⟨z, hz, rfl⟩) hys)

/-- What holds of single words and is kept by a word and a separator in front holds of all words with
separators between them. -/
theorem separated_induction {P : List α → Prop} (hx : x ∈ separated sep l) (single : ∀ y ∈ l, P y)
    (append : ∀ y z, y ∈ l → P z → P (y ++ (sep ++ z))) : P x := by
  obtain ⟨y, hy, ys, hys, rfl⟩ := mem_mul.1 hx
  have hall : ∀ y ∈ l, P (y ++ ys) := by
    refine kstar_induction (P := fun ys => ∀ y ∈ l, P (y ++ ys)) hys (fun y hy => ?_) ?_
    · rw [List.append_nil]
      exact single y hy
    · rintro a zs ha - hzs y hy
      obtain ⟨z, hz, rfl⟩ := mem_singleton_mul.1 ha
      rw [List.append_assoc]
      exact append _ _ hy (hzs z hz)
  exact hall y hy

end Separated

end Language
