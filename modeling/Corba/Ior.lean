/-
Stringified object references.

`IOR::IOR(const string &)` of `src/corba/ior.cc` takes a reference as text: behind the prefix stand
the octets of an encapsulation, each as two hexadecimal digits.  Of every two characters
`std::from_chars` makes what it can, and whether it could make anything of them is not looked at.

Main definitions:

* `Corba.trim`, `Corba.hexOctets` — the blanks around the text, and the octets it spells;
* `Corba.IOR.ofString` — the constructor;
* `Corba.Hex`, `Corba.HexLike` — text that spells octets, and text that is taken for such.

Main results:

* `Corba.trim_surround` — blanks around the text do not matter;
* `Corba.hexOctets_of_hexLike`, `Corba.hexLike_or_unset` — what the conversion makes of pairs;
* `Corba.IOR.ofString_of_pairs`, `Corba.IOR.ofString_cases` — what the constructor does with a text.
-/

import Corba.Charconv
import Corba.GiopDecoder
import Mathlib.Data.List.DropRight

set_option relaxedAutoImplicit false
set_option autoImplicit false

namespace Corba

/-! ### The constructor -/

/-- The characters around a reference that do not belong to it: `" \n\r\t"`. -/
def isBlank (c : UInt8) : Bool := c == 32 || c == 10 || c == 13 || c == 9

def trim (source : Octets) : Octets := (source.dropWhile isBlank).rdropWhile isBlank

/-- The octets the characters of a text spell in pairs.  An octet that `std::from_chars` does not
store is copied all the same, without having been set.  Behind the last character of the text there
is a zero. -/
def hexOctets : Octets → Option Octets
  | [] => some []
  | [a] => do
      let out ← fromChars 16 256 [a, 0]
      return [UInt8.ofNat out]
  | a :: b :: cs => do
      let out ← fromChars 16 256 [a, b]
      return UInt8.ofNat out :: (← hexOctets cs)

namespace IOR

def missingPrefix (ior : Octets) : String :=
  "Missing \"IOR:\" prefix in \"" ++ text ior ++ "\"."

variable [Platform]

/-- The reference in an encapsulation. -/
def decodeReference : ScanM IOR := do
  GIOPDecoder.read CDRDecoder.readEndian
  let length ← GIOPDecoder.readUlong
  GIOPDecoder.readReference length.toNat

def decode (buffer : Octets) : Except Fault IOR :=
  match decodeReference { buffer := { data := buffer }, connection := none } with
  | .ok ref _ => .ok ref
  | .error f _ => .error f

/-- `IOR::IOR(const string &)`. -/
def ofString (_ior : Octets) : Except Fault IOR :=
  let ior := trim _ior
  if ior.take 4 ≠ ascii "IOR:" then
    .error (.thrown (.runtimeError (missingPrefix ior)))
  else if ior.length % 2 = 1 then
    .error (.thrown (.runtimeError "IOR has a wrong length."))
  else
    match hexOctets (ior.drop 4) with
    | some buffer => decode buffer
    | none => .error (.undefined .uninitialized)

end IOR

/-! ### Blanks -/

/-- Blanks around a text that neither begins nor ends with one. -/
theorem trim_surround {front body back : Octets} (hfront : ∀ c ∈ front, isBlank c = true)
    (hback : ∀ c ∈ back, isBlank c = true) (hhead : ∀ c ∈ body.head?, isBlank c = false)
    (hlast : ∀ c ∈ body.getLast?, isBlank c = false) (hne : body ≠ []) :
    trim (front ++ body ++ back) = body := by
  have hdrop : (front ++ body ++ back).dropWhile isBlank = body ++ back := by
    rw [List.append_assoc, List.dropWhile_append_of_pos hfront]
    cases body with
    | nil => exact absurd rfl hne
    | cons c body => exact List.dropWhile_cons_of_neg (by simp [hhead c rfl])
  have hrev : (body ++ back).reverse.dropWhile isBlank = body.reverse := by
    rw [List.reverse_append,
      List.dropWhile_append_of_pos fun c hc => hback c (List.mem_reverse.1 hc)]
    cases hbody : body.reverse with
    | nil => rfl
    | cons c cs =>
        have hc : body.getLast? = some c := by
          rw [← List.head?_reverse, hbody]
          rfl
        exact List.dropWhile_cons_of_neg (by simp [hlast c hc])
  rw [trim, hdrop, List.rdropWhile, hrev, List.reverse_reverse]

theorem length_trim_le (source : Octets) : (trim source).length ≤ source.length := by
  have hback := (List.rdropWhile_prefix isBlank (source.dropWhile isBlank)).length_le
  have hfront := (List.dropWhile_suffix isBlank (l := source)).length_le
  exact hback.trans hfront

theorem not_isBlank {c : UInt8} (h : isDigit 16 c = true) : isBlank c = false := by
  rw [Bool.eq_false_iff]
  intro hblank
  simp only [isBlank, Bool.or_eq_true, beq_iff_eq] at hblank
  rcases hblank with ((rfl | rfl) | rfl) | rfl <;> revert h <;> decide

/-! ### Pairs of digits -/

/-- The text spells the octets, with two digits of either case for each. -/
inductive Hex : Octets → Octets → Prop
  | nil : Hex [] []
  | cons {a b : UInt8} {hi lo : ℕ} {cs bs : Octets} (ha : digit 16 a = some hi)
      (hb : digit 16 b = some lo) (h : Hex cs bs) :
      Hex (a :: b :: cs) (UInt8.ofNat (hi * 16 + lo) :: bs)

/-- The text is taken for the octets: where the second character of a pair is no digit, the first one
stands for the octet. -/
inductive HexLike : Octets → Octets → Prop
  | nil : HexLike [] []
  | cons {a b : UInt8} {hi lo : ℕ} {cs bs : Octets} (ha : digit 16 a = some hi)
      (hb : digit 16 b = some lo) (h : HexLike cs bs) :
      HexLike (a :: b :: cs) (UInt8.ofNat (hi * 16 + lo) :: bs)
  | single {a b : UInt8} {hi : ℕ} {cs bs : Octets} (ha : digit 16 a = some hi)
      (hb : digit 16 b = none) (h : HexLike cs bs) :
      HexLike (a :: b :: cs) (UInt8.ofNat hi :: bs)

/-- A pair that does not begin with a digit. -/
def Unset (cs : Octets) : Prop := ∃ i c, cs[2 * i]? = some c ∧ digit 16 c = none

section Pairs

variable {a b : UInt8} {hi lo : ℕ}

theorem fromChars_pair (ha : digit 16 a = some hi) (hb : digit 16 b = some lo) :
    fromChars 16 256 [a, b] = some (hi * 16 + lo) := by
  have hhi := digit_lt ha
  have hlo := digit_lt hb
  have hvalue : ofDigits 16 [a, b] = hi * 16 + lo := by simp [ofDigits, ha, hb]
  have hlt : ofDigits 16 [a, b] < 256 := by omega
  have hdigits : ∀ c ∈ [a, b], isDigit 16 c = true := by simp [isDigit, ha, hb]
  rw [← hvalue, ← List.append_nil [a, b], fromChars_digits (List.cons_ne_nil _ _) hdigits (by simp) hlt,
    List.append_nil]

theorem fromChars_single (ha : digit 16 a = some hi) (hb : digit 16 b = none) :
    fromChars 16 256 [a, b] = some hi := by
  have hhi := digit_lt ha
  have hvalue : ofDigits 16 [a] = hi := by simp [ofDigits, ha]
  have hlt : ofDigits 16 [a] < 256 := by omega
  have hdigits : ∀ c ∈ [a], isDigit 16 c = true := by simp [isDigit, ha]
  have hstop : ∀ c ∈ [b].head?, isDigit 16 c = false := by simp [isDigit, hb]
  rw [← hvalue, ← fromChars_digits (List.cons_ne_nil _ _) hdigits hstop hlt]
  rfl

theorem fromChars_unset (cs : Octets) (ha : digit 16 a = none) :
    fromChars 16 256 (a :: cs) = none := by
  refine fromChars_eq_none.2 (Or.inl ?_)
  exact List.takeWhile_cons_of_neg (by simp [isDigit, ha])

end Pairs

theorem Hex.hexLike {cs bs : Octets} (h : Hex cs bs) : HexLike cs bs := by
  induction h with
  | nil => exact .nil
  | cons ha hb _ ih => exact .cons ha hb ih

theorem HexLike.hex {cs bs : Octets} (h : HexLike cs bs) (hcs : ∀ c ∈ cs, isDigit 16 c = true) :
    Hex cs bs := by
  induction h with
  | nil => exact .nil
  | cons ha hb _ ih =>
      exact .cons ha hb (ih fun c hc => hcs c (List.mem_cons_of_mem _ (List.mem_cons_of_mem _ hc)))
  | @single a b hi cs bs ha hb _ ih =>
      have hdigit := hcs b (List.mem_cons_of_mem _ List.mem_cons_self)
      rw [isDigit, hb] at hdigit
      cases hdigit

theorem Hex.isDigit {cs bs : Octets} (h : Hex cs bs) : ∀ c ∈ cs, isDigit 16 c = true := by
  induction h with
  | nil => simp
  | cons ha hb _ ih => simpa [Corba.isDigit, ha, hb] using ih

theorem Hex.even {cs bs : Octets} (h : Hex cs bs) : cs.length = 2 * bs.length := by
  induction h with
  | nil => rfl
  | cons _ _ _ ih =>
      simp only [List.length_cons, ih]
      omega

theorem HexLike.length {cs bs : Octets} (h : HexLike cs bs) : cs.length = 2 * bs.length := by
  induction h with
  | nil => rfl
  | cons _ _ _ ih | single _ _ _ ih =>
      simp only [List.length_cons, ih]
      omega

/-- What the conversion makes of pairs that begin with a digit. -/
theorem hexOctets_of_hexLike {cs bs : Octets} (h : HexLike cs bs) : hexOctets cs = some bs := by
  induction h with
  | nil => rfl
  | cons ha hb _ ih => simp [hexOctets, fromChars_pair ha hb, ih]
  | single ha hb _ ih => simp [hexOctets, fromChars_single ha hb, ih]

theorem HexLike.not_unset {cs bs : Octets} (h : HexLike cs bs) : ¬ Unset cs := by
  induction h with
  | nil =>
      rintro ⟨i, c, hc, -⟩
      simp at hc
  | cons ha _ _ ih | single ha _ _ ih =>
      rintro ⟨i, c, hc, hnone⟩
      cases i with
      | zero =>
          cases Option.some.inj hc
          rw [ha] at hnone
          cases hnone
      | succ i => exact ih ⟨i, c, hc, hnone⟩

theorem Unset.cons {cs : Octets} (h : Unset cs) (a b : UInt8) : Unset (a :: b :: cs) := by
  obtain ⟨i, c, hc, hnone⟩ := h
  exact ⟨i + 1, c, hc, hnone⟩

/-- A text of pairs is taken for octets, or one of the octets is not set. -/
theorem hexLike_or_unset (cs : Octets) (heven : cs.length % 2 = 0) :
    (∃ bs, HexLike cs bs) ∨ Unset cs ∧ hexOctets cs = none := by
  induction cs using hexOctets.induct with
  | case1 => exact Or.inl ⟨[], .nil⟩
  | case2 a => cases heven
  | case3 a b cs ih =>
      cases ha : digit 16 a with
      | none =>
          right
          exact ⟨⟨0, a, rfl, ha⟩, by simp [hexOctets, fromChars_unset [b] ha]⟩
      | some hi =>
          have hcs : cs.length % 2 = 0 := by
            simp only [List.length_cons] at heven
            omega
          rcases ih hcs with ⟨bs, hbs⟩ | ⟨hunset, hnone⟩
          · cases hb : digit 16 b with
            | none => exact Or.inl ⟨_, .single ha hb hbs⟩
            | some lo => exact Or.inl ⟨_, .cons ha hb hbs⟩
          · exact Or.inr ⟨hunset.cons a b, by simp [hexOctets, hnone]⟩

/-- A digit of base sixteen. -/
def hexDigit (n : ℕ) : UInt8 := UInt8.ofNat (if n < 10 then 48 + n else 87 + n)

/-- Octets as text. -/
def hexText (bs : Octets) : Octets :=
  bs.flatMap fun b => [hexDigit (b.toNat / 16), hexDigit (b.toNat % 16)]

theorem digit_hexDigit {n : ℕ} (h : n < 16) : digit 16 (hexDigit n) = some n := by
  interval_cases n <;> rfl

/-- All octets can be spelled. -/
theorem hex_hexText (bs : Octets) : Hex (hexText bs) bs := by
  induction bs with
  | nil => exact .nil
  | cons b bs ih =>
      have hb := b.toNat_lt
      have hcons := Hex.cons (digit_hexDigit (show b.toNat / 16 < 16 by omega))
        (digit_hexDigit (show b.toNat % 16 < 16 by omega)) ih
      rwa [Nat.div_add_mod', UInt8.ofNat_toNat] at hcons

/-! ### What the constructor does -/

namespace IOR

variable [Platform] {s ds bs : Octets}

/-- What is done with the octets that pairs of characters spell. -/
def decodeOctets : Option Octets → Except Fault IOR
  | some buffer => decode buffer
  | none => .error (.undefined .uninitialized)

/-- Behind the prefix there are pairs of characters. -/
theorem ofString_of_pairs (hs : trim s = ascii "IOR:" ++ ds) (heven : ds.length % 2 = 0) :
    ofString s = decodeOctets (hexOctets ds) := by
  have hfour : (ascii "IOR:").length = 4 := rfl
  have hsize : ¬ (ascii "IOR:" ++ ds).length % 2 = 1 := by
    rw [List.length_append, hfour]
    omega
  rw [ofString, hs, if_neg (not_not.2 ( List.take_left' hfour)), if_neg hsize,
    List.drop_left' hfour]
  rfl

theorem ofString_of_hexLike (hs : trim s = ascii "IOR:" ++ ds) (h : HexLike ds bs) :
    ofString s = decode bs := by
  have hlen := h.length
  rw [ofString_of_pairs hs (by omega), hexOctets_of_hexLike h, decodeOctets]

theorem ofString_of_unset (hs : trim s = ascii "IOR:" ++ ds) (heven : ds.length % 2 = 0)
    (h : Unset ds) : ofString s = .error (.undefined .uninitialized) := by
  rcases hexLike_or_unset ds heven with ⟨bs, hbs⟩ | ⟨-, hnone⟩
  · exact absurd h hbs.not_unset
  · rw [ofString_of_pairs hs heven, hnone, decodeOctets]

/-- Without the prefix, or with an odd number of characters, a text is answered with an exception. -/
theorem ofString_cases (s : Octets) :
    (∃ ds, trim s = ascii "IOR:" ++ ds ∧ ds.length % 2 = 0) ∨
      ∃ t, ofString s = .error (.thrown t) := by
  have hfour : (ascii "IOR:").length = 4 := rfl
  by_cases hior : (trim s).take 4 = ascii "IOR:"
  · have hs : trim s = ascii "IOR:" ++ (trim s).drop 4 := by
      rw [← hior, List.take_append_drop]
    have hlen : (trim s).length = 4 + ((trim s).drop 4).length := by
      conv_lhs => rw [hs, List.length_append, hfour]
    by_cases hodd : (trim s).length % 2 = 1
    · right
      rw [ofString, if_neg (not_not.2 hior), if_pos hodd]
      exact ⟨_, rfl⟩
    · exact Or.inl ⟨_, hs, by omega⟩
  · right
    rw [ofString, if_pos hior]
    exact ⟨_, rfl⟩

end IOR

end Corba
