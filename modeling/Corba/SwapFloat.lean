/-
Swapping the octets of a floating point number by way of an integer.

When a number is converted to an unsigned integer, the octets of the integer are swapped and the
result is converted back, this is not the same as swapping the octets of the number: of the patterns
of one width, only zero is read back from its own swap.

The argument follows single bits.  The exponents of a pattern and of its swap say where a conversion
takes a bit, the swap says where it goes then, and so on, until it arrives at a bit that one of the
exponents tells.  For all exponents, some bit that is known already is led to one that is known to be
different.  A carry does not get in the way, since it stops at the first bit that is not set.

Main definitions:

* `Ieee.Format.Fills` — the patterns of a format are octets;
* `Ieee.Format.reread` — the number that is read when its swap is converted, swapped and converted;
* `Ieee.Chase.bit` — where a bit comes from;
* `Ieee.Chase.search` — whether all exponents lead to a contradiction.

Main results:

* `Ieee.Chase.Reread.bit_sound` — the bits are what they have been led to;
* `Ieee.Format.reread_single_iff`, `Ieee.Format.reread_double_iff` — only zero is read back.
-/

import Corba.ByteOrder
import Corba.Ieee

set_option relaxedAutoImplicit false
set_option autoImplicit false

namespace Ieee

open ByteOrder

namespace Format

/-- The patterns of the format have `w` octets.  The exponent takes the first of them and a part of
the second, and stands for one if nothing but its first bit is not set. -/
structure Fills (f : Format) (w : ℕ) : Prop where
  width : 1 + f.expBits + f.fracBits = 8 * w
  byte : 8 ≤ f.fracBits
  room : f.fracBits ≤ 8 * (w - 1)
  bias : 2 ^ (8 * (w - 1) - f.fracBits) ≤ f.bias

theorem fills_single : Format.single.Fills 4 := ⟨rfl, by decide, by decide, by decide⟩

theorem fills_double : Format.double.Fills 8 := ⟨rfl, by decide, by decide, by decide⟩

/-- A number is converted to an integer, which is swapped and converted back. -/
def reread (f : Format) (w bits : ℕ) : Option ℕ :=
  (f.truncate (8 * w) bits).map fun n => f.round (swap w n)

/-- The number that is read back is a pattern of the format. -/
theorem reread_lt {f : Format} {w bits n : ℕ} (hf : f.Fills w)
    (hroom : 8 * w + f.bias < 2 ^ (1 + f.expBits)) (h : f.reread w bits = some n) :
    n < 256 ^ w := by
  obtain ⟨m, -, rfl⟩ := Option.map_eq_some_iff.1 h
  have hpow : 256 ^ w = 2 ^ (8 * w) := by rw [Nat.pow_mul]
  have hswap := swap_lt w m
  rw [hpow] at hswap ⊢
  rw [← hf.width]
  exact round_lt hswap hroom

end Format

namespace Chase

variable (f : Format) (w k l : ℕ)

/-! ### Following a bit -/

/-- A bit of a pattern that its exponent `k` or the exponent `l` of its swap tells. -/
def known (j : ℕ) : Option Bool :=
  if f.fracBits ≤ j then some ((f.bias + k).testBit (j - f.fracBits))
  else if f.fracBits ≤ mirror w j then some ((f.bias + l).testBit (mirror w j - f.fracBits))
  else none

/-- A bit of the integer that is converted back, as far as it can be followed in some steps. -/
def bit : ℕ → ℕ → Option Bool
  | 0, _ => none
  | steps + 1, t =>
      if 8 * w ≤ t then some false
      else if mirror w t + f.fracBits < l then some false
      else
        -- the bit of the significand of the swap that is taken there
        let p := mirror w t + f.fracBits - l
        if f.fracBits < p then some false
        else if p = f.fracBits then some true
        else
          match known f w k l (mirror w p) with
          | some b => some b
          | none =>
              if mirror w p + k < f.fracBits then some false
              else bit steps (mirror w p + k - f.fracBits)

/-- A bit that is kept of the integer when it is converted back. -/
def keptBit (steps i : ℕ) : Option Bool :=
  if i + k < f.fracBits then some false else bit f w k l steps (i + k - f.fracBits)

/-- A bit of the significand of the pattern that is known. -/
def significandBit (i : ℕ) : Option Bool :=
  if f.fracBits < i then some false
  else if i = f.fracBits then some true
  else known f w k l i

/-- No carry gets to the bit: the first octet is not zero, nothing is rounded up, or the first bit
is not set. -/
def settled (steps i : ℕ) : Bool :=
  decide (8 ≤ i) || decide (k ≤ f.fracBits) ||
    bit f w k l steps (k - f.fracBits - 1) == some false ||
    (decide (0 < i) && keptBit f w k l steps 0 == some false)

/-- A bit is known, and is led to one that is different. -/
def contradicts (steps i : ℕ) : Bool :=
  settled f w k l steps i &&
    match significandBit f w k l i, keptBit f w k l steps i with
    | some b, some b' => b != b'
    | _, _ => false

/-- All exponents lead to a contradiction. -/
def search (steps : ℕ) : Bool :=
  (List.range (8 * w)).all fun k => (List.range (8 * w)).all fun l =>
    (List.range (8 * w + f.fracBits)).any (contradicts f w k l steps)

/-! ### Where the bits have been led to -/

/-- The first octet of a pattern is the last one of its swap, where the exponent stands. -/
theorem first_octet {f : Format} {w l x : ℕ} (hf : f.Fills w) (hx : x < 256 ^ w)
    (hswap : swap w x / 2 ^ f.fracBits = f.bias + l) : x % 2 ^ 8 ≠ 0 := by
  intro hzero
  have hbits : ∀ i < 8, x.testBit i = false := by
    intro i hi
    have hbit := Nat.testBit_mod_two_pow x 8 i
    rw [hzero, Nat.zero_testBit, decide_eq_true hi, Bool.true_and] at hbit
    exact hbit.symm
  have hsmall : swap w x < 2 ^ (8 * (w - 1)) := by
    refine Nat.lt_pow_two_of_testBit _ fun i hi => ?_
    by_cases hlt : i < 8 * w
    · rw [testBit_swap hx hlt]
      refine hbits _ ?_
      unfold mirror
      omega
    · exact testBit_swap_of_le x (by omega)
  have hfield : swap w x / 2 ^ f.fracBits < 2 ^ (8 * (w - 1) - f.fracBits) := by
    refine Nat.div_lt_of_lt_mul ?_
    rwa [← Nat.pow_add, Nat.add_sub_cancel' hf.room]
  rw [hswap] at hfield
  have hbias := hf.bias
  omega

/-- A pattern other than zero that is read back from its swap, the exponents of both, and the integer
that is converted back. -/
structure Reread (f : Format) (w k l x m : ℕ) : Prop where
  lt : x < 256 ^ w
  exponent : x / 2 ^ f.fracBits = f.bias + k
  swapExponent : swap w x / 2 ^ f.fracBits = f.bias + l
  integer : ∀ t < 8 * w, m.testBit t =
    if mirror w t + f.fracBits < l then false
    else (f.significand (swap w x)).testBit (mirror w t + f.fracBits - l)
  ends : ∀ t, 8 * w ≤ t → m.testBit t = false
  log2 : m.log2 = k
  rounded : f.significand x = f.kept m ∨
    f.significand x = f.kept m + 1 ∧ f.fracBits < k ∧ m.testBit (k - f.fracBits - 1) = true

namespace Reread

variable {f : Format} {w k l x m : ℕ} (hf : f.Fills w) (h : Reread f w k l x m)

include hf h

omit hf in
theorem known_sound {j : ℕ} {b : Bool} (hj : j < 8 * w) (hb : known f w k l j = some b) :
    x.testBit j = b := by
  rw [known] at hb
  split at hb
  · rename_i hle
    have hbit : (x / 2 ^ f.fracBits).testBit (j - f.fracBits) = _ := Nat.testBit_div_two_pow x _
    rw [Nat.sub_add_cancel hle, h.exponent] at hbit
    rw [← hbit]
    exact Option.some.inj hb
  · split at hb
    · rename_i hle
      have hbit : (swap w x / 2 ^ f.fracBits).testBit (mirror w j - f.fracBits) = _ :=
        Nat.testBit_div_two_pow (swap w x) _
      rw [Nat.sub_add_cancel hle, h.swapExponent, testBit_swap h.lt (mirror_lt hj),
        mirror_mirror hj] at hbit
      rw [← hbit]
      exact Option.some.inj hb
    · cases hb

/-- No carry gets to a bit behind one that is set afterwards, or behind one that was not set. -/
theorem testBit_kept_of {i : ℕ}
    (hi : 8 ≤ i ∨ k ≤ f.fracBits ∨ m.testBit (k - f.fracBits - 1) = false ∨
      0 < i ∧ (f.kept m).testBit 0 = false) :
    (f.significand x).testBit i = (f.kept m).testBit i := by
  rcases h.rounded with hsame | ⟨hup, hlt, hhalf⟩
  · rw [hsame]
  rw [hup]
  rcases hi with hi | hle | hnone | ⟨hpositive, hstop⟩
  · refine testBit_succ_of_mod fun hzero => first_octet hf h.lt h.swapExponent ?_
    -- the first octet of the significand is the first octet of the pattern
    have hdvd : 2 ^ 8 ∣ f.significand x := by
      rw [hup]
      exact (Nat.pow_dvd_pow 2 hi).trans (Nat.dvd_of_mod_eq_zero hzero)
    have hbyte : 2 ^ 8 ∣ 2 ^ f.fracBits := Nat.pow_dvd_pow 2 hf.byte
    have hrest : 2 ^ 8 ∣ x % 2 ^ f.fracBits := (Nat.dvd_add_right hbyte).1 hdvd
    exact Nat.mod_eq_zero_of_dvd ((Nat.dvd_mod_iff hbyte).1 hrest)
  · omega
  · rw [hnone] at hhalf
    cases hhalf
  · exact testBit_succ_of_mod (succ_mod_ne_zero hpositive hstop)

/-- A bit that neither exponent tells is not in the first octet, so no carry gets to it. -/
theorem testBit_unknown {p : ℕ} (hp : p < f.fracBits)
    (hunknown : known f w k l (mirror w p) = none) :
    x.testBit (mirror w p) =
      if mirror w p + k < f.fracBits then false else m.testBit (mirror w p + k - f.fracBits) := by
  have hwidth := hf.width
  have hroom := hf.room
  have hj : mirror w p < f.fracBits ∧ 8 ≤ mirror w p := by
    rw [known] at hunknown
    split at hunknown
    · cases hunknown
    · rename_i hfrac
      refine ⟨by omega, ?_⟩
      unfold mirror
      omega
  have hsame := h.testBit_kept_of hf (.inl hj.2)
  rwa [Format.testBit_significand, if_neg (by omega), if_neg (by omega), Format.testBit_kept,
    h.log2] at hsame

/-- **What a bit is led to is what it is.** -/
theorem bit_sound {steps t : ℕ} {b : Bool} (hb : bit f w k l steps t = some b) :
    m.testBit t = b := by
  induction steps generalizing t with
  | zero => cases hb
  | succ steps ih =>
      rw [bit] at hb
      split at hb
      · rename_i hend
        rw [h.ends t hend]
        exact Option.some.inj hb
      rename_i ht
      rw [h.integer t (by omega)]
      split at hb
      · rename_i hsmall
        rw [if_pos hsmall]
        exact Option.some.inj hb
      rename_i hsmall
      rw [if_neg hsmall, Format.testBit_significand]
      dsimp only at hb
      generalize mirror w t + f.fracBits - l = p at hb
      split at hb
      · rename_i hlarge
        rw [if_pos hlarge]
        exact Option.some.inj hb
      rename_i hlarge
      rw [if_neg hlarge]
      split at hb
      · rename_i htop
        rw [if_pos htop]
        exact Option.some.inj hb
      rename_i htop
      have hp : p < 8 * w := by
        have hwidth := hf.width
        omega
      rw [if_neg htop, testBit_swap h.lt hp]
      split at hb
      · rename_i b' hknown
        rw [h.known_sound (mirror_lt hp) hknown]
        exact Option.some.inj hb
      · rename_i hunknown
        rw [h.testBit_unknown hf (by omega) hunknown]
        split at hb
        · rename_i hless
          rw [if_pos hless]
          exact Option.some.inj hb
        · rename_i hless
          rw [if_neg hless]
          exact ih hb

theorem keptBit_sound {steps i : ℕ} {b : Bool} (hb : keptBit f w k l steps i = some b) :
    (f.kept m).testBit i = b := by
  rw [Format.testBit_kept, h.log2]
  rw [keptBit] at hb
  split at hb
  · rename_i hless
    rw [if_pos hless]
    exact Option.some.inj hb
  · rename_i hless
    rw [if_neg hless]
    exact h.bit_sound hf hb

theorem significandBit_sound {i : ℕ} {b : Bool} (hb : significandBit f w k l i = some b) :
    (f.significand x).testBit i = b := by
  have hwidth := hf.width
  rw [Format.testBit_significand]
  rw [significandBit] at hb
  split at hb
  · rename_i hlarge
    rw [if_pos hlarge]
    exact Option.some.inj hb
  · rename_i hlarge
    rw [if_neg hlarge]
    split at hb
    · rename_i htop
      rw [if_pos htop]
      exact Option.some.inj hb
    · rename_i htop
      rw [if_neg htop]
      exact h.known_sound (by omega) hb

theorem not_contradicts (steps i : ℕ) : contradicts f w k l steps i = false := by
  by_contra hcontradicts
  rw [Bool.not_eq_false, contradicts, Bool.and_eq_true] at hcontradicts
  obtain ⟨hsettled, hdifferent⟩ := hcontradicts
  have hsame : (f.significand x).testBit i = (f.kept m).testBit i := by
    refine h.testBit_kept_of hf ?_
    simp only [settled, Bool.or_eq_true, Bool.and_eq_true, decide_eq_true_eq, beq_iff_eq] at hsettled
    rcases hsettled with ((hi | hle) | hhalf) | ⟨hpositive, hstop⟩
    · exact .inl hi
    · exact .inr (.inl hle)
    · exact .inr (.inr (.inl (h.bit_sound hf hhalf)))
    · exact .inr (.inr (.inr ⟨hpositive, h.keptBit_sound hf hstop⟩))
  split at hdifferent
  · rename_i b b' hb hb'
    rw [h.significandBit_sound hf hb, h.keptBit_sound hf hb'] at hsame
    simp [hsame] at hdifferent
  · cases hdifferent

end Reread

/-- No pattern other than zero is read back if all exponents lead to a contradiction. -/
theorem eq_zero_of_search {f : Format} {w steps : ℕ} (hf : f.Fills w)
    (hsearch : search f w steps = true) {x : ℕ} (hx : x < 256 ^ w)
    (hread : f.reread w (swap w x) = some x) : x = 0 := by
  obtain ⟨n, htruncate, hround⟩ := Option.map_eq_some_iff.1 hread
  by_cases hn : n = 0
  · rw [hn, swap_zero, Format.round, if_pos rfl] at hround
    exact hround.symm
  exfalso
  have hwidth := hf.width
  have hpow : 256 ^ w = 2 ^ (8 * w) := by
    rw [show 256 = 2 ^ 8 from rfl, ← Nat.pow_mul]
  have hswap : swap w x < 2 ^ (1 + f.expBits + f.fracBits) := by
    rw [hwidth, ← hpow]
    exact swap_lt w x
  have hfrac := hf.byte
  have hbias : 0 < f.bias := (Nat.two_pow_pos _).trans_le hf.bias
  obtain ⟨l, hl, hswapExponent, hinteger⟩ :=
    Format.truncate_bits htruncate hn hswap hbias (by omega)
  have hnlt : n < 256 ^ w := by
    rw [hpow]
    refine Nat.lt_pow_two_of_testBit _ fun i hi => ?_
    rw [hinteger, if_neg (by omega), Format.testBit_significand, if_pos (by omega)]
  have hm : swap w n ≠ 0 := by
    intro hzero
    rw [← swap_swap hnlt, hzero, swap_zero] at hn
    exact hn rfl
  have hlow : x % 2 ^ f.fracBits ≠ 0 := by
    intro hzero
    refine first_octet hf hx hswapExponent (Nat.mod_eq_zero_of_dvd ?_)
    exact (Nat.pow_dvd_pow 2 hf.byte).trans (Nat.dvd_of_mod_eq_zero hzero)
  obtain ⟨hexponent, hrounded⟩ := Format.round_fields hm hround hlow
  have hk : (swap w n).log2 < 8 * w := by
    rw [Nat.log2_lt hm, ← hpow]
    exact swap_lt w n
  have h : Reread f w (swap w n).log2 l x (swap w n) :=
    { lt := hx
      exponent := hexponent
      swapExponent := hswapExponent
      integer := fun t ht => by rw [testBit_swap hnlt ht, hinteger]
      ends := fun t ht => testBit_swap_of_le n ht
      log2 := rfl
      rounded := hrounded }
  simp only [search, List.all_eq_true, List.any_eq_true, List.mem_range] at hsearch
  obtain ⟨i, -, hcontradicts⟩ := hsearch _ hk l hl
  rw [h.not_contradicts hf] at hcontradicts
  cases hcontradicts

theorem search_single : search .single 4 4 = true := by decide +kernel

theorem search_double : search .double 8 8 = true := by decide +kernel

end Chase

namespace Format

/-- **Of all `float`s, only zero is read back from its swap.** -/
theorem reread_single_iff {x : ℕ} (hx : x < 256 ^ 4) :
    single.reread 4 (swap 4 x) = some x ↔ x = 0 := by
  constructor
  · exact Chase.eq_zero_of_search fills_single Chase.search_single hx
  · rintro rfl
    decide +kernel

/-- **Of all `double`s, only zero is read back from its swap.** -/
theorem reread_double_iff {x : ℕ} (hx : x < 256 ^ 8) :
    double.reread 8 (swap 8 x) = some x ↔ x = 0 := by
  constructor
  · exact Chase.eq_zero_of_search fills_double Chase.search_double hx
  · rintro rfl
    decide +kernel

end Format

end Ieee
