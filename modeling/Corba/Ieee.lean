/-
Binary floating point formats as bit patterns.

A conversion between a floating point type and an unsigned integer type is a function on bit
patterns: truncation towards zero in one direction, rounding to nearest with ties to even in the
other.  Both are given here for every binary format.

Main definitions:

* `Ieee.Format` — the widths of the exponent and of the fraction;
* `Ieee.Format.truncate` — the integer of a floating point number, where it is in range;
* `Ieee.Format.round` — the floating point number nearest to an integer;
* `Ieee.Format.significand`, `Ieee.Format.kept` — the bits in front of a conversion and behind it.

Main results:

* `Ieee.Format.truncate_bits`, `Ieee.Format.round_fields` — what the two conversions do with the
  bits.
-/

import Mathlib.Data.Nat.Notation
import Mathlib.Algebra.Order.Ring.Nat

set_option relaxedAutoImplicit false
set_option autoImplicit false

namespace Ieee

/-- A binary interchange format: one sign bit, the exponent, the fraction. -/
structure Format where
  expBits : ℕ
  fracBits : ℕ
  deriving DecidableEq, Repr

/-- The format of `float`. -/
def Format.single : Format := ⟨8, 23⟩

/-- The format of `double`. -/
def Format.double : Format := ⟨11, 52⟩

/-- The exponent that stands for one. -/
def Format.bias (f : Format) : ℕ := 2 ^ (f.expBits - 1) - 1

/-- Conversion to an unsigned integer of `w` bits: truncation towards zero.  Infinities, numbers
that are not a number and numbers out of range have no conversion. -/
def Format.truncate (f : Format) (w bits : ℕ) : Option ℕ :=
  let sign := bits / 2 ^ (f.expBits + f.fracBits) % 2
  let exponent := bits / 2 ^ f.fracBits % 2 ^ f.expBits
  let fraction := bits % 2 ^ f.fracBits
  if exponent = 2 ^ f.expBits - 1 then none
  else
    -- without the hidden bit a number is subnormal and has the exponent one
    let mantissa := if exponent = 0 then fraction else 2 ^ f.fracBits + fraction
    let scale := max exponent 1
    let magnitude :=
      if f.bias + f.fracBits ≤ scale then mantissa * 2 ^ (scale - (f.bias + f.fracBits))
      else mantissa / 2 ^ (f.bias + f.fracBits - scale)
    if sign = 1 ∧ magnitude ≠ 0 then none
    else if magnitude < 2 ^ w then some magnitude
    else none

/-- Conversion from an unsigned integer in the range of the format: rounding to nearest, ties to
even.  A carry out of the fraction runs into the exponent. -/
def Format.round (f : Format) (n : ℕ) : ℕ :=
  if n = 0 then 0
  else
    let k := Nat.log2 n
    if k ≤ f.fracBits then (k + f.bias) * 2 ^ f.fracBits + (n * 2 ^ (f.fracBits - k) - 2 ^ f.fracBits)
    else
      let s := k - f.fracBits
      let q := n / 2 ^ s
      let r := n % 2 ^ s
      let up := 2 ^ (s - 1) < r ∨ (r = 2 ^ (s - 1) ∧ q % 2 = 1)
      (k + f.bias) * 2 ^ f.fracBits + ((if up then q + 1 else q) - 2 ^ f.fracBits)

-- 16777217 lies between two `float`s and goes to the even one
example : Format.single.round 16777217 = 0x4b800000 := by decide +kernel

-- 3.75 is truncated to 3
example : Format.single.truncate 32 0x40700000 = some 3 := by decide +kernel

/-! ### Bits -/

/-- The bits of a number that has been shifted so that its bit at `F` is the one at `k`. -/
theorem testBit_shifted (M F k i : ℕ) :
    (if F ≤ k then M * 2 ^ (k - F) else M / 2 ^ (F - k)).testBit i =
      if i + F < k then false else M.testBit (i + F - k) := by
  split
  · rw [Nat.testBit_mul_two_pow]
    split
    · rw [decide_eq_false (by omega), Bool.false_and]
    · rw [decide_eq_true (by omega), Bool.true_and, show i - (k - F) = i + F - k by omega]
  · rw [Nat.testBit_div_two_pow, if_neg (by omega), show i + (F - k) = i + F - k by omega]

/-- A number and its successor differ in a bit only if the carry gets there. -/
theorem testBit_succ_of_mod {q i : ℕ} (h : (q + 1) % 2 ^ i ≠ 0) :
    (q + 1).testBit i = q.testBit i := by
  rw [Nat.testBit_eq_decide_div_mod_eq, Nat.testBit_eq_decide_div_mod_eq,
    Nat.succ_div_of_not_dvd fun hdvd => h (Nat.mod_eq_zero_of_dvd hdvd)]

/-- A bit that is not set stops the carry. -/
theorem succ_mod_ne_zero {q i t : ℕ} (ht : t < i) (hbit : q.testBit t = false) :
    (q + 1) % 2 ^ i ≠ 0 := by
  intro hzero
  have hpos := Nat.two_pow_pos i
  have hones : q % 2 ^ i = 2 ^ i - 1 := by
    have hlt := Nat.mod_lt q hpos
    have hadd := Nat.add_mod q 1 (2 ^ i)
    by_contra hne
    have hone : 1 % 2 ^ i = 1 := Nat.mod_eq_of_lt (Nat.one_lt_two_pow (by omega))
    rw [hzero, hone, Nat.mod_eq_of_lt (by omega)] at hadd
    omega
  have htrue : (q % 2 ^ i).testBit t = true := by
    rw [hones, Nat.testBit_two_pow_sub_one, decide_eq_true ht]
  rw [Nat.testBit_mod_two_pow, hbit, Bool.and_false] at htrue
  cases htrue

namespace Format

/-! ### The bits of a conversion -/

variable {f : Format}

/-- The significand of a number that is not subnormal. -/
def significand (f : Format) (bits : ℕ) : ℕ := 2 ^ f.fracBits + bits % 2 ^ f.fracBits

theorem testBit_significand (bits i : ℕ) :
    (f.significand bits).testBit i =
      if f.fracBits < i then false else if i = f.fracBits then true else bits.testBit i := by
  have hlt : bits % 2 ^ f.fracBits < 2 ^ f.fracBits := Nat.mod_lt _ (Nat.two_pow_pos _)
  have hone := Nat.testBit_two_pow_mul_add 1 hlt i
  rw [Nat.mul_one] at hone
  rw [significand, hone]
  split
  · rename_i hi
    rw [if_neg (by omega), if_neg (by omega), Nat.testBit_mod_two_pow, decide_eq_true hi,
      Bool.true_and]
  · rename_i hi
    by_cases heq : i = f.fracBits
    · subst heq
      simp
    · rw [if_pos (by omega)]
      exact Nat.testBit_lt_two_pow (Nat.one_lt_two_pow (by omega))

/-- Above the fraction of a number that is not negative is its exponent. -/
theorem exponent_eq {bits : ℕ} (hbits : bits < 2 ^ (1 + f.expBits + f.fracBits))
    (hsign : bits / 2 ^ (f.expBits + f.fracBits) % 2 ≠ 1) :
    bits / 2 ^ f.fracBits % 2 ^ f.expBits = bits / 2 ^ f.fracBits := by
  have htop : bits / 2 ^ (f.expBits + f.fracBits) < 2 := by
    refine Nat.div_lt_of_lt_mul ?_
    rwa [← Nat.pow_succ, Nat.succ_eq_one_add, ← Nat.add_assoc]
  have hzero : bits / 2 ^ f.fracBits / 2 ^ f.expBits = 0 := by
    rw [Nat.div_div_eq_div_mul, ← Nat.pow_add, Nat.add_comm f.fracBits]
    generalize bits / 2 ^ (f.expBits + f.fracBits) = sign at htop hsign ⊢
    omega
  exact Nat.mod_eq_of_lt ((Nat.div_eq_zero_iff_lt (Nat.two_pow_pos _)).1 hzero)

/-- A number that is less than one is truncated to zero. -/
theorem magnitude_eq_zero {exponent fraction : ℕ} (hfraction : fraction < 2 ^ f.fracBits)
    (hless : exponent < f.bias) :
    (if exponent = 0 then fraction else 2 ^ f.fracBits + fraction) /
      2 ^ (f.bias + f.fracBits - max exponent 1) = 0 := by
  refine Nat.div_eq_of_lt ?_
  split
  · exact hfraction.trans_le (Nat.pow_le_pow_right (by decide) (by omega))
  · have hle : 2 ^ (f.fracBits + 1) ≤ 2 ^ (f.bias + f.fracBits - max exponent 1) :=
      Nat.pow_le_pow_right (by decide) (by omega)
    rw [Nat.pow_succ] at hle
    omega

/-- What a number is converted to, if it is not zero, is its significand shifted. -/
theorem truncate_fields {w bits n : ℕ} (h : f.truncate w bits = some n) (hn : n ≠ 0)
    (hbits : bits < 2 ^ (1 + f.expBits + f.fracBits)) (hbias : 0 < f.bias) (hfrac : 0 < f.fracBits) :
    n < 2 ^ w ∧ ∃ k, bits / 2 ^ f.fracBits = f.bias + k ∧
      n = if f.fracBits ≤ k then f.significand bits * 2 ^ (k - f.fracBits)
        else f.significand bits / 2 ^ (f.fracBits - k) := by
  rw [truncate] at h
  dsimp only at h
  split at h
  · cases h
  generalize hmagnitude : (if f.bias + f.fracBits ≤ max (bits / 2 ^ f.fracBits % 2 ^ f.expBits) 1 then
      _ else _) = magnitude at h
  split at h
  · cases h
  rename_i hpositive
  split at h
  · rename_i hrange
    cases h
    rw [exponent_eq hbits fun hone => hpositive ⟨hone, hn⟩] at hmagnitude
    generalize bits / 2 ^ f.fracBits = exponent at hmagnitude ⊢
    have hone : f.bias ≤ exponent := by
      by_contra hless
      have hfraction : bits % 2 ^ f.fracBits < 2 ^ f.fracBits := Nat.mod_lt _ (Nat.two_pow_pos _)
      rw [if_neg (by omega), magnitude_eq_zero hfraction (by omega)] at hmagnitude
      exact hn hmagnitude.symm
    obtain ⟨k, rfl⟩ := Nat.exists_eq_add_of_le hone
    refine ⟨hrange, k, rfl, ?_⟩
    rw [← hmagnitude, if_neg (show ¬ f.bias + k = 0 by omega), max_eq_left (by omega),
      Nat.add_sub_add_left, Nat.add_sub_add_left, significand]
    exact if_congr (by omega) rfl rfl
  · cases h

/-- **The bits of a number that is converted to an integer.**  The integer is not zero, so the number
is not less than one. -/
theorem truncate_bits {w bits n : ℕ} (h : f.truncate w bits = some n) (hn : n ≠ 0)
    (hbits : bits < 2 ^ (1 + f.expBits + f.fracBits)) (hbias : 0 < f.bias) (hfrac : 0 < f.fracBits) :
    ∃ k < w, bits / 2 ^ f.fracBits = f.bias + k ∧
      ∀ i, n.testBit i =
        if i + f.fracBits < k then false else (f.significand bits).testBit (i + f.fracBits - k) := by
  obtain ⟨hrange, k, hfield, hshift⟩ := truncate_fields h hn hbits hbias hfrac
  have hbit : ∀ i, n.testBit i =
      if i + f.fracBits < k then false
      else (f.significand bits).testBit (i + f.fracBits - k) := by
    intro i
    rw [hshift, testBit_shifted]
  have htop : n.testBit k = true := by
    rw [hbit, if_neg (by omega), Nat.add_sub_cancel_left, testBit_significand, if_neg (by omega),
      if_pos rfl]
  have hle : 2 ^ k ≤ n := Nat.ge_two_pow_of_testBit htop
  exact ⟨k, (Nat.pow_lt_pow_iff_right (by decide)).1 (hle.trans_lt hrange), hfield, hbit⟩

/-- What is kept of an integer that is converted to a number, before it is rounded up. -/
def kept (f : Format) (n : ℕ) : ℕ :=
  if n.log2 ≤ f.fracBits then n * 2 ^ (f.fracBits - n.log2) else n / 2 ^ (n.log2 - f.fracBits)

theorem testBit_kept (n i : ℕ) :
    (f.kept n).testBit i =
      if i + n.log2 < f.fracBits then false else n.testBit (i + n.log2 - f.fracBits) := by
  have h := testBit_shifted n n.log2 f.fracBits i
  rwa [kept]

theorem kept_lt (n : ℕ) : f.kept n < 2 ^ (f.fracBits + 1) := by
  have hlt := Nat.lt_log2_self (n := n)
  refine Nat.lt_pow_two_of_testBit _ fun i hi => ?_
  rw [testBit_kept, if_neg (by omega)]
  exact Nat.testBit_lt_two_pow (hlt.trans_le (Nat.pow_le_pow_right (by decide) (by omega)))

theorem le_kept {n : ℕ} (hn : n ≠ 0) : 2 ^ f.fracBits ≤ f.kept n := by
  refine Nat.ge_two_pow_of_testBit ?_
  rw [testBit_kept, if_neg (by omega), Nat.add_sub_cancel_left]
  exact Nat.testBit_log2 hn

/-- What is rounded up has the bit behind the last one that is kept. -/
theorem round_kept {n : ℕ} (hn : n ≠ 0) :
    ∃ q, f.round n = (n.log2 + f.bias) * 2 ^ f.fracBits + (q - 2 ^ f.fracBits) ∧
      (q = f.kept n ∨
        q = f.kept n + 1 ∧ f.fracBits < n.log2 ∧ n.testBit (n.log2 - f.fracBits - 1) = true) := by
  rw [round, if_neg hn]
  dsimp only
  split
  · rename_i hle
    exact ⟨_, rfl, .inl (by rw [kept, if_pos hle])⟩
  · rename_i hlt
    refine ⟨_, rfl, ?_⟩
    rw [kept, if_neg hlt]
    split
    · rename_i hup
      refine .inr ⟨rfl, by omega, ?_⟩
      obtain ⟨s, hs⟩ : ∃ s, n.log2 - f.fracBits = s + 1 := ⟨n.log2 - f.fracBits - 1, by omega⟩
      rw [hs, Nat.add_sub_cancel] at hup ⊢
      have hmod : n % 2 ^ (s + 1) < 2 ^ (s + 1) := Nat.mod_lt _ (Nat.two_pow_pos _)
      have hge : 2 ^ s ≤ n % 2 ^ (s + 1) := by omega
      rw [Nat.pow_succ] at hmod
      have hbit : (n % 2 ^ (s + 1)).testBit s = true := by
        have hdiv : n % 2 ^ (s + 1) / 2 ^ s = 1 := Nat.div_eq_of_lt_le (by omega) (by omega)
        rw [Nat.testBit_eq_decide_div_mod_eq, hdiv]
        rfl
      rw [Nat.testBit_mod_two_pow] at hbit
      exact (Bool.and_eq_true_iff.1 hbit).2
    · exact .inl rfl

/-- The exponent has room for the integers that are converted. -/
theorem round_lt {n w : ℕ} (hn : n < 2 ^ w) (hroom : w + f.bias < 2 ^ (1 + f.expBits)) :
    f.round n < 2 ^ (1 + f.expBits + f.fracBits) := by
  by_cases hzero : n = 0
  · rw [round, if_pos hzero]
    exact Nat.two_pow_pos _
  · obtain ⟨q, hround, hq⟩ := round_kept (f := f) hzero
    have hlog : n.log2 < w := (Nat.log2_lt hzero).2 hn
    have hlt := kept_lt (f := f) n
    rw [Nat.pow_succ] at hlt
    calc f.round n ≤ (n.log2 + f.bias + 1) * 2 ^ f.fracBits := by
          rw [hround, Nat.succ_mul]
          omega
      _ ≤ (w + f.bias) * 2 ^ f.fracBits := Nat.mul_le_mul_right _ (by omega)
      _ < 2 ^ (1 + f.expBits) * 2 ^ f.fracBits :=
          Nat.mul_lt_mul_of_pos_right hroom (Nat.two_pow_pos _)
      _ = 2 ^ (1 + f.expBits + f.fracBits) := (Nat.pow_add _ _ _).symm

/-- **The fields of a number that has been converted from an integer**, unless its fraction is
zero. -/
theorem round_fields {n x : ℕ} (hn : n ≠ 0) (hx : f.round n = x) (hlow : x % 2 ^ f.fracBits ≠ 0) :
    x / 2 ^ f.fracBits = f.bias + n.log2 ∧
      (f.significand x = f.kept n ∨ f.significand x = f.kept n + 1 ∧
        f.fracBits < n.log2 ∧ n.testBit (n.log2 - f.fracBits - 1) = true) := by
  obtain ⟨q, hround, hq⟩ := round_kept (f := f) hn
  have hle := le_kept (f := f) hn
  have hlt := kept_lt (f := f) n
  have hpos := Nat.two_pow_pos f.fracBits
  rw [Nat.pow_succ] at hlt
  -- if all bits that are kept were ones, rounding up would leave a fraction of zero
  have hfit : q - 2 ^ f.fracBits < 2 ^ f.fracBits := by
    by_contra hover
    have hq' : q - 2 ^ f.fracBits = 2 ^ f.fracBits := by omega
    rw [hx, hq', ← Nat.succ_mul] at hround
    exact hlow (by rw [hround, Nat.mul_mod_left])
  have hfraction : x % 2 ^ f.fracBits = q - 2 ^ f.fracBits := by
    rw [← hx, hround, Nat.mul_comm, Nat.mul_add_mod, Nat.mod_eq_of_lt hfit]
  refine ⟨?_, ?_⟩
  · rw [← hx, hround, Nat.mul_comm, Nat.mul_add_div hpos, Nat.div_eq_of_lt hfit]
    omega
  · have hsame : f.significand x = q := by
      rw [significand, hfraction]
      omega
    rwa [hsame]

end Format

end Ieee
