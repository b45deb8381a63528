/-
Byte orders: fixed-width numbers as octets.

A number of `w` octets is written least significant octet first or most significant octet first.
Reading the octets of one order in the other one is reversing them, which is what a byte swap of
the number does.

Main definitions:

* `ByteOrder.Endian` — the two byte orders;
* `ByteOrder.Endian.bytes`, `ByteOrder.Endian.value` — the octets of a number and the number of
  the octets;
* `ByteOrder.swap`, `ByteOrder.mirror` — the byte swap of a number, and where it takes the bits;
* `ByteOrder.Endian.values` — the numbers of one width that stand one after the other.

Main results:

* `ByteOrder.Endian.value_bytes` — a number that fits is read back;
* `ByteOrder.Endian.bytes_value` — octets are written back;
* `ByteOrder.swap_value` — swapping turns the reading in one order into the reading in the other;
* `ByteOrder.testBit_swap` — the bits of a number that has been swapped;
* `ByteOrder.Endian.values_flatMap` — numbers that fit are read back one after the other.
-/

import Mathlib.Data.Nat.Notation
import Mathlib.Algebra.Order.Ring.Nat
import Mathlib.Tactic.Ring

set_option relaxedAutoImplicit false
set_option autoImplicit false

namespace ByteOrder

/-! ### Least significant octet first -/

/-- The `w` low octets of `n`, least significant first. -/
def leBytes : ℕ → ℕ → List UInt8
  | 0, _ => []
  | w + 1, n => UInt8.ofNat n :: leBytes w (n / 256)

/-- The number whose octets, least significant first, are given. -/
def leValue : List UInt8 → ℕ
  | [] => 0
  | b :: bs => b.toNat + 256 * leValue bs

@[simp] theorem length_leBytes (w n : ℕ) : (leBytes w n).length = w := by
  induction w generalizing n with
  | zero => rfl
  | succ w ih => rw [leBytes, List.length_cons, ih]

theorem leValue_lt (bs : List UInt8) : leValue bs < 256 ^ bs.length := by
  induction bs with
  | nil => simp [leValue]
  | cons b bs ih =>
      have hb : b.toNat < 256 := b.toNat_lt
      rw [leValue, List.length_cons, pow_succ]
      omega

theorem leValue_leBytes {w n : ℕ} (h : n < 256 ^ w) : leValue (leBytes w n) = n := by
  induction w generalizing n with
  | zero =>
      rw [pow_zero] at h
      obtain rfl : n = 0 := by omega
      rfl
  | succ w ih =>
      have hdiv : n / 256 < 256 ^ w := by
        rw [pow_succ] at h
        omega
      have hlow : (UInt8.ofNat n).toNat = n % 256 := UInt8.toNat_ofNat'
      rw [leBytes, leValue, ih hdiv, hlow]
      omega

theorem leBytes_leValue (bs : List UInt8) : leBytes bs.length (leValue bs) = bs := by
  induction bs with
  | nil => rfl
  | cons b bs ih =>
      have hb : b.toNat < 256 := b.toNat_lt
      have hhead : UInt8.ofNat (b.toNat + 256 * leValue bs) = b := by
        rw [← UInt8.toNat_inj, UInt8.toNat_ofNat']
        omega
      have htail : (b.toNat + 256 * leValue bs) / 256 = leValue bs := by omega
      rw [List.length_cons, leBytes, leValue, hhead, htail, ih]

/-! ### Both orders -/

/-- The byte order of a number. -/
inductive Endian where
  | little
  | big
  deriving DecidableEq, Repr

/-- The other byte order. -/
def Endian.flip : Endian → Endian
  | .little => .big
  | .big => .little

@[simp] theorem Endian.flip_flip (e : Endian) : e.flip.flip = e := by cases e <;> rfl

theorem Endian.eq_flip_of_ne {e f : Endian} (h : e ≠ f) : f = e.flip := by
  cases e <;> cases f <;> first | rfl | exact absurd rfl h

/-- The `w` low octets of `n`. -/
def Endian.bytes (e : Endian) (w n : ℕ) : List UInt8 :=
  match e with
  | .little => leBytes w n
  | .big => (leBytes w n).reverse

/-- The number with the given octets. -/
def Endian.value (e : Endian) (bs : List UInt8) : ℕ :=
  match e with
  | .little => leValue bs
  | .big => leValue bs.reverse

@[simp] theorem Endian.length_bytes (e : Endian) (w n : ℕ) : (e.bytes w n).length = w := by
  cases e <;> simp [Endian.bytes]

theorem Endian.value_lt (e : Endian) (bs : List UInt8) : e.value bs < 256 ^ bs.length := by
  cases e with
  | little => exact leValue_lt bs
  | big => simpa [Endian.value] using leValue_lt bs.reverse

/-- A number that fits is read back. -/
theorem Endian.value_bytes (e : Endian) {w n : ℕ} (h : n < 256 ^ w) :
    e.value (e.bytes w n) = n := by
  cases e with
  | little => exact leValue_leBytes h
  | big => simpa [Endian.value, Endian.bytes] using leValue_leBytes h

/-- Octets are written back. -/
theorem Endian.bytes_value (e : Endian) (bs : List UInt8) :
    e.bytes bs.length (e.value bs) = bs := by
  cases e with
  | little => exact leBytes_leValue bs
  | big =>
      have h := leBytes_leValue bs.reverse
      rw [List.length_reverse] at h
      rw [Endian.bytes, Endian.value, h, List.reverse_reverse]

/-! ### Byte swap -/

/-- The number with the `w` octets of `n` in the opposite order. -/
def swap (w n : ℕ) : ℕ := leValue (leBytes w n).reverse

/-- **A byte swap changes the order a number was read in.** -/
theorem swap_value (e : Endian) (bs : List UInt8) :
    swap bs.length (e.value bs) = e.flip.value bs := by
  cases e with
  | little => rw [swap, Endian.value, leBytes_leValue]; rfl
  | big =>
      have h := leBytes_leValue bs.reverse
      rw [List.length_reverse] at h
      rw [swap, Endian.value, h, List.reverse_reverse]
      rfl

theorem Endian.flip_value_bytes (e : Endian) {w n : ℕ} (h : n < 256 ^ w) :
    e.flip.value (e.bytes w n) = swap w n := by
  have hswap := swap_value e (e.bytes w n)
  rw [e.length_bytes, e.value_bytes h] at hswap
  exact hswap.symm

/-- In the other order, the octets of a number are those of its swap. -/
theorem Endian.flip_bytes_swap (e : Endian) {w n : ℕ} (h : n < 256 ^ w) :
    e.flip.bytes w (swap w n) = e.bytes w n := by
  have hbytes := e.flip.bytes_value (e.bytes w n)
  rwa [e.length_bytes, e.flip_value_bytes h] at hbytes

/-! ### The bits of a number -/

theorem testBit_leValue (bs : List UInt8) (i : ℕ) :
    (leValue bs).testBit i = (bs.getD (i / 8) 0).toNat.testBit (i % 8) := by
  induction bs generalizing i with
  | nil => simp [leValue]
  | cons b bs ih =>
      have hb : b.toNat < 2 ^ 8 := b.toNat_lt
      have hcons : leValue (b :: bs) = 2 ^ 8 * leValue bs + b.toNat := by
        rw [leValue]
        omega
      rw [hcons, Nat.testBit_two_pow_mul_add _ hb]
      split
      · rename_i hi
        rw [Nat.div_eq_of_lt hi, Nat.mod_eq_of_lt hi, List.getD_cons_zero]
      · rename_i hi
        obtain ⟨j, rfl⟩ : ∃ j, i = j + 8 := ⟨i - 8, by omega⟩
        rw [Nat.add_sub_cancel, ih, Nat.add_mod_right, Nat.add_div_right j (by decide),
          List.getD_cons_succ]

/-- Where a byte swap takes the bits of a number. -/
def mirror (w i : ℕ) : ℕ := 8 * (w - 1 - i / 8) + i % 8

theorem mirror_lt {w i : ℕ} (h : i < 8 * w) : mirror w i < 8 * w := by
  unfold mirror
  omega

theorem mirror_mirror {w i : ℕ} (h : i < 8 * w) : mirror w (mirror w i) = i := by
  unfold mirror
  omega

theorem swap_lt (w n : ℕ) : swap w n < 256 ^ w := by
  have h := leValue_lt (leBytes w n).reverse
  rwa [List.length_reverse, length_leBytes] at h

theorem testBit_swap {w n i : ℕ} (hn : n < 256 ^ w) (hi : i < 8 * w) :
    (swap w n).testBit i = n.testBit (mirror w i) := by
  have hdiv : (mirror w i) / 8 = w - 1 - i / 8 := by
    unfold mirror
    omega
  have hmod : (mirror w i) % 8 = i % 8 := by
    unfold mirror
    omega
  have hbits := testBit_leValue (leBytes w n) (mirror w i)
  rw [leValue_leBytes hn, hdiv, hmod] at hbits
  have hlen := length_leBytes w n
  have hrev : (leBytes w n).reverse.getD (i / 8) 0 = (leBytes w n).getD (w - 1 - i / 8) 0 := by
    rw [List.getD_eq_getElem?_getD, List.getD_eq_getElem?_getD, List.getElem?_reverse (by omega), hlen]
  rw [swap, testBit_leValue, hrev, hbits]

theorem testBit_swap_of_le {w i : ℕ} (n : ℕ) (hi : 8 * w ≤ i) : (swap w n).testBit i = false := by
  have hlt := swap_lt w n
  rw [show 256 = 2 ^ 8 from rfl, ← Nat.pow_mul] at hlt
  exact Nat.testBit_lt_two_pow (hlt.trans_le (Nat.pow_le_pow_right (by decide) hi))

/-- Swapping twice changes nothing. -/
theorem swap_swap {w n : ℕ} (hn : n < 256 ^ w) : swap w (swap w n) = n := by
  have h := leValue_leBytes hn
  have hlen := length_leBytes w n
  have hback := leBytes_leValue (leBytes w n).reverse
  rw [List.length_reverse, hlen] at hback
  rw [swap, swap, hback, List.reverse_reverse, h]

theorem swap_zero (w : ℕ) : swap w 0 = 0 := by
  refine Nat.eq_of_testBit_eq fun i => ?_
  by_cases hi : i < 8 * w
  · rw [testBit_swap (Nat.pow_pos (by decide)) hi, Nat.zero_testBit, Nat.zero_testBit]
  · rw [testBit_swap_of_le 0 (by omega), Nat.zero_testBit]

/-! ### Sequences of numbers -/

/-- The first `n` numbers of `w` octets each. -/
def Endian.values (e : Endian) (w : ℕ) : ℕ → List UInt8 → List ℕ
  | 0, _ => []
  | n + 1, bs => e.value (bs.take w) :: e.values w n (bs.drop w)

/-- Numbers that fit are read back one after the other. -/
theorem Endian.values_flatMap {β : Type} (e : Endian) {w : ℕ} {f : β → ℕ}
    (hf : ∀ v, f v < 256 ^ w) (vs : List β) :
    e.values w vs.length (vs.flatMap fun v => e.bytes w (f v)) = vs.map f := by
  induction vs with
  | nil => rfl
  | cons v vs ih =>
      have hlen : (e.bytes w (f v)).length = w := e.length_bytes w (f v)
      rw [List.length_cons, List.flatMap_cons, Endian.values, List.take_left' hlen,
        List.drop_left' hlen, ih, e.value_bytes (hf v), List.map_cons]

end ByteOrder
