/-
Percent decoding inverts every escaping.

RFC 2396 lets whoever writes a URL decide which octets are escaped, and with digits of which case, so
that a string of `n` octets has more than `2 ^ n` spellings.  `_decodeURI` takes them all back: a percent
sign always has two digits behind it, which are all that `sscanf` is shown, and neither of them can be
taken for a blank, a sign or the letter of a prefix.

Main definitions:

* `Corba.Escapes` — a text spells a string.

Main results:

* `Corba.decodeEscapes_of_escapes` — **every escaping is taken back**, whatever has been decoded before;
* `Corba.Escapes.unique` — a text spells one string at most;
* `Corba.escapes_percentText` — every string can be spelled without any of its octets.
-/

import Corba.UrlSafe

set_option relaxedAutoImplicit false
set_option autoImplicit false

namespace Corba

open Exec

/-! ### Spellings of a string -/

/-- The text is the string with some of its octets escaped, and a percent sign always. -/
inductive Escapes : Octets → Octets → Prop
  | nil : Escapes [] []
  | literal {c : UInt8} {s e : Octets} (hc : c ≠ 37) (h : Escapes s e) : Escapes (c :: s) (c :: e)
  | escape {c a b : UInt8} {s e : Octets} (hc : Hex [a, b] [c]) (h : Escapes s e) :
      Escapes (c :: s) (37 :: a :: b :: e)

/-- The digits of an octet. -/
theorem hex_pair {a b c : UInt8} (h : Hex [a, b] [c]) :
    ∃ hi lo, digit 16 a = some hi ∧ digit 16 b = some lo ∧ c = UInt8.ofNat (hi * 16 + lo) := by
  cases h with
  | cons ha hb _ => exact ⟨_, _, ha, hb, rfl⟩

/-- A string with all of its octets escaped. -/
def percentText (s : Octets) : Octets := s.flatMap fun c => 37 :: hexText [c]

theorem escapes_percentText (s : Octets) : Escapes s (percentText s) := by
  induction s with
  | nil => exact .nil
  | cons c s ih => exact .escape (hex_hexText [c]) ih

/-! ### What `sscanf` makes of two digits -/

section TwoDigits

variable {a b : UInt8} {hi lo : ℕ}

/-- Digits stand behind the blanks and the signs. -/
theorem digit_ge {base v : ℕ} (ha : digit base a = some v) : 48 ≤ a.toNat := by
  by_contra hlow
  have hle : ∀ n : UInt8, 48 ≤ n.toNat → ¬ n ≤ a := by
    intro n hn h
    have htoNat := UInt8.le_iff_toNat_le.1 h
    omega
  have hnone : digitValue a = none := by
    rw [digitValue, if_neg fun h => hle 48 (by decide) h.1, if_neg fun h => hle 97 (by decide) h.1,
      if_neg fun h => hle 65 (by decide) h.1]
  rw [digit, hnone] at ha
  cases ha

theorem not_isspace (ha : digit 16 a = some hi) : isspace a = false := by
  have hge := digit_ge ha
  rw [Bool.eq_false_iff]
  intro hspace
  simp only [isspace, Bool.or_eq_true, beq_iff_eq, Bool.and_eq_true, decide_eq_true_eq] at hspace
  rcases hspace with rfl | ⟨-, hle⟩
  · exact absurd hge (by decide)
  · have htoNat : a.toNat ≤ 13 := UInt8.le_iff_toNat_le.1 hle
    omega

/-- The letter of a prefix is no digit. -/
theorem scanDigits_pair (ha : digit 16 a = some hi) (hb : digit 16 b = some lo) :
    scanDigits [a, b] = some (hi * 16 + lo) := by
  have hpair : fromChars 16 (2 ^ 32) [a, b] = some (hi * 16 + lo) :=
    fromChars_mono (fromChars_pair ha hb) (by norm_num)
  have hletter : ¬ (b = 120 ∨ b = 88) := by
    rintro (rfl | rfl) <;> cases hb
  unfold scanDigits
  split
  · next x cs heq =>
      obtain ⟨rfl, hcs⟩ := List.cons.inj heq
      obtain ⟨rfl, rfl⟩ := List.cons.inj hcs
      rw [if_neg hletter, hpair]
  · exact hpair

/-- Both digits are taken: the first one is neither skipped nor taken for a sign. -/
theorem scanHex_pair (ha : digit 16 a = some hi) (hb : digit 16 b = some lo) :
    scanHex [a, b] = some (Int.ofNat (hi * 16 + lo)) := by
  have hzero : ∀ c ∈ [a, b], decide (c ≠ 0) = true := by
    have hage := digit_ge ha
    have hbge := digit_ge hb
    intro c hc
    refine decide_eq_true ?_
    rintro rfl
    simp only [List.mem_cons, List.not_mem_nil, or_false] at hc
    rcases hc with rfl | rfl
    · exact absurd hage (by decide)
    · exact absurd hbge (by decide)
  have hspace : [a, b].dropWhile isspace = [a, b] :=
    List.dropWhile_cons_of_neg (by rw [not_isspace ha]; exact Bool.false_ne_true)
  unfold scanHex
  rw [List.takeWhile_eq_self_iff.2 hzero, hspace]
  split
  · next heq =>
      obtain ⟨rfl, -⟩ := List.cons.inj heq
      cases ha
  · next heq =>
      obtain ⟨rfl, -⟩ := List.cons.inj heq
      cases ha
  · rw [scanDigits_pair ha hb]
    rfl

end TwoDigits

/-! ### Decoding -/

/-- The cast to a character drops all but eight bits. -/
theorem ofInt_ofNat (n : ℕ) : UInt8.ofInt (Int.ofNat n) = UInt8.ofNat n := by
  have hmod : ((Int.ofNat n) % 2 ^ 8).toNat = n % 2 ^ 8 := by
    show ((n : ℤ) % 2 ^ 8).toNat = n % 2 ^ 8
    omega
  rw [UInt8.ofInt, hmod]
  exact UInt8.ofNat_mod_size

/-- **Every escaping is taken back**, whatever is left in `ii`. -/
theorem decodeEscapes_of_escapes {s e : Octets} (h : Escapes s e) (ii : Option ℤ) :
    decodeEscapes e ii = .ok s := by
  induction h generalizing ii with
  | nil => rfl
  | literal hc _ ih =>
      rw [decodeEscapes_char hc, ih ii]
      rfl
  | @escape c a b s e hc _ ih =>
      obtain ⟨hi, lo, ha, hb, hvalue⟩ := hex_pair hc
      have htwo : (scanHex ((a :: b :: e).take 2)).or ii = some (Int.ofNat (hi * 16 + lo)) := by
        show (scanHex [a, b]).or ii = _
        rw [scanHex_pair ha hb]
        rfl
      have hchar : UInt8.ofInt (Int.ofNat (hi * 16 + lo)) = c := by rw [hvalue, ofInt_ofNat]
      rw [decodeEscapes_percent, htwo]
      show (decodeEscapes e _).map _ = _
      rw [ih, hchar]
      rfl

/-- **Percent decoding inverts every escaping.** -/
theorem _decodeURI_of_escapes {s e : Octets} (h : Escapes s e) : _decodeURI e = .ok s :=
  decodeEscapes_of_escapes h none

theorem _decodeURI_of_escapes_key : _decodeURI (ascii "a%2F%25%2f") = .ok (ascii "a/%/") :=
  _decodeURI_of_escapes (.literal (by decide) (.escape (@Hex.cons 50 70 2 15 [] [] rfl rfl .nil)
    (.escape (hex_hexText [37]) (.escape (hex_hexText [47]) .nil))))

/-- A text spells one string at most. -/
theorem Escapes.unique {s s' e : Octets} (h : Escapes s e) (h' : Escapes s' e) : s = s' := by
  have hs := decodeEscapes_of_escapes h none
  rw [decodeEscapes_of_escapes h' none] at hs
  exact (Except.ok.inj hs).symm

/-- The loop of the source ends with the string as well. -/
theorem decode_loop_of_escapes {s e : Octets} (h : Escapes s e) (url : UrlLexer) :
    RunsTo (decodeBody e) (0, none, []) url (.ok s url) := by
  have hruns := (loopsEnd e).decode e url
  have hdecoded : _decodeURI e = .ok s := decodeEscapes_of_escapes h none
  rwa [hdecoded] at hruns

end Corba
