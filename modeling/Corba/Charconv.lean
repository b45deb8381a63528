/-
Numbers as text.

`std::from_chars` takes the longest run of digits at the beginning of a range.  It neither skips
blanks nor knows a sign or a prefix, and it leaves its result alone when there is no digit or the
number does not fit: what the caller then finds in the variable is what was there before.

Main definitions:

* `Corba.digit`, `Corba.ofDigits` — digits of a base, and the number they stand for;
* `Corba.fromChars` — `std::from_chars` for unsigned integers;
* `Corba.decimal` — the decimal number `std::format` writes.

Main results:

* `Corba.fromChars_digits` — a run of digits is taken up to where it ends;
* `Corba.ofDigits_decimal` — what is written is what is read.
-/

import Corba.Exception
import Mathlib.Data.List.Induction
import Mathlib.Tactic.IntervalCases

set_option relaxedAutoImplicit false
set_option autoImplicit false

namespace Corba

/-! ### Digits -/

/-- The number an octet stands for as a digit.  Behind nine come the letters, in either case. -/
def digitValue (c : UInt8) : Option ℕ :=
  if 48 ≤ c ∧ c ≤ 57 then some (c.toNat - 48)
  else if 97 ≤ c ∧ c ≤ 122 then some (c.toNat - 87)
  else if 65 ≤ c ∧ c ≤ 90 then some (c.toNat - 55)
  else none

/-- The digits of a base. -/
def digit (base : ℕ) (c : UInt8) : Option ℕ := (digitValue c).filter (· < base)

def isDigit (base : ℕ) (c : UInt8) : Bool := (digit base c).isSome

/-- The number some digits stand for, the most significant one first. -/
def ofDigits (base : ℕ) (cs : Octets) : ℕ :=
  cs.foldl (fun n c => n * base + (digit base c).getD 0) 0

/-- `std::from_chars` for an unsigned integer below `limit`: the value it stores, if it stores
one. -/
def fromChars (base limit : ℕ) (cs : Octets) : Option ℕ :=
  let ds := cs.takeWhile (isDigit base)
  if ds = [] ∨ limit ≤ ofDigits base ds then none else some (ofDigits base ds)

theorem isDigit_iff {base : ℕ} {c : UInt8} :
    isDigit base c = true ↔ ∃ v, digit base c = some v := Option.isSome_iff_exists

theorem digit_lt {base v : ℕ} {c : UInt8} (h : digit base c = some v) : v < base := by
  have hfilter := (Option.filter_eq_some_iff.1 h).2
  simpa using hfilter

/-! ### Reading -/

/-- Taking while a condition holds ends at the first element that fails it. -/
theorem takeWhile_append {α : Type*} {p : α → Bool} {xs ys : List α} (h : ∀ x ∈ xs, p x = true)
    (hy : ∀ y ∈ ys.head?, p y = false) : (xs ++ ys).takeWhile p = xs := by
  rw [List.takeWhile_append_of_pos h]
  cases ys with
  | nil => simp
  | cons y ys =>
      have hy' : p y = false := hy y rfl
      simp [hy']

/-- Dropping while a condition holds ends at an element that fails it. -/
theorem dropWhile_head {α : Type*} (p : α → Bool) (xs : List α) :
    ∀ x ∈ (xs.dropWhile p).head?, p x = false := by
  intro x hx
  have hnot := List.head?_dropWhile_not p xs
  rw [Option.mem_def.1 hx] at hnot
  exact hnot

/-- **A run of digits.**  What stands behind it does not matter. -/
theorem fromChars_digits {base limit : ℕ} {ds rest : Octets} (hne : ds ≠ [])
    (hds : ∀ c ∈ ds, isDigit base c = true) (hrest : ∀ c ∈ rest.head?, isDigit base c = false)
    (hlt : ofDigits base ds < limit) :
    fromChars base limit (ds ++ rest) = some (ofDigits base ds) := by
  have hfits : ¬ (ds = [] ∨ limit ≤ ofDigits base ds) := by
    rintro (h | h)
    · exact hne h
    · omega
  rw [fromChars, takeWhile_append hds hrest, if_neg hfits]

/-- What fits is stored in a wider integer as well. -/
theorem fromChars_mono {base limit limit' v : ℕ} {cs : Octets} (h : fromChars base limit cs = some v)
    (hle : limit ≤ limit') : fromChars base limit' cs = some v := by
  rw [fromChars] at h ⊢
  split at h
  · cases h
  · next hfits =>
      rw [if_neg fun hbad => hfits (hbad.imp_right hle.trans)]
      exact h

/-- Nothing is stored where no digit stands, or where the number does not fit. -/
theorem fromChars_eq_none {base limit : ℕ} {cs : Octets} :
    fromChars base limit cs = none ↔
      cs.takeWhile (isDigit base) = [] ∨ limit ≤ ofDigits base (cs.takeWhile (isDigit base)) := by
  rw [fromChars]
  by_cases h : cs.takeWhile (isDigit base) = [] ∨
    limit ≤ ofDigits base (cs.takeWhile (isDigit base))
  · rw [if_pos h]
    exact iff_of_true rfl h
  · rw [if_neg h]
    exact iff_of_false (Option.some_ne_none _) h

/-! ### Writing -/

/-- `std::format("{}", n)`. -/
def decimal (n : ℕ) : Octets := (Nat.toDigits 10 n).map fun c => UInt8.ofNat c.toNat

theorem decimal_ne_nil (n : ℕ) : decimal n ≠ [] := by
  rw [decimal, Ne, List.map_eq_nil_iff]
  exact Nat.toDigits_ne_nil

/-- A decimal digit, as the octet of its character. -/
theorem digit_ofNat {c : Char} (h : c.isDigit = true) :
    digit 10 (UInt8.ofNat c.toNat) = some (c.toNat - '0'.toNat) := by
  have hrange : 48 ≤ c.toNat ∧ c.toNat ≤ 57 := by
    simpa [Char.isDigit, UInt32.le_iff_toNat_le] using h
  obtain ⟨hlo, hhi⟩ := hrange
  generalize c.toNat = n at hlo hhi ⊢
  interval_cases n <;> rfl

theorem isDigit_decimal (n : ℕ) : ∀ c ∈ decimal n, isDigit 10 c = true := by
  intro c hc
  obtain ⟨d, hd, rfl⟩ := List.mem_map.1 hc
  rw [isDigit, digit_ofNat (Nat.isDigit_of_mem_toDigits (by decide) (by decide) hd)]
  rfl

/-- **What is written is what is read.** -/
theorem ofDigits_decimal (n : ℕ) : ofDigits 10 (decimal n) = n := by
  have hfold : ∀ (cs : List Char) (m : ℕ), (∀ c ∈ cs, c.isDigit = true) →
      (cs.map fun c => UInt8.ofNat c.toNat).foldl (fun n c => n * 10 + (digit 10 c).getD 0) m =
        Nat.ofDigitChars 10 cs m := by
    intro cs
    induction cs with
    | nil =>
        intro m _
        rfl
    | cons c cs ih =>
        intro m h
        rw [List.map_cons, List.foldl_cons, digit_ofNat (h c List.mem_cons_self),
          ih _ fun d hd => h d (List.mem_cons_of_mem _ hd), Nat.ofDigitChars_cons, Nat.mul_comm]
        rfl
  rw [ofDigits, decimal, hfold _ 0 fun c hc => Nat.isDigit_of_mem_toDigits (by decide) (by decide) hc]
  exact Nat.ofDigitChars_ten_toDigits

end Corba
