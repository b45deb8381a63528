/-
How the Common Data Representation lays out values.

This is what the encoder and the decoder of `src/corba/cdr.cc` are both about, stated without
either of them: a number is aligned to its own size and stands there in the byte order of the
message, a string carries its length with the terminating zero counted in, a sequence carries its
number of elements.  What stands in the gaps is left open, so that the statements also cover
messages of a peer that pads in its own way.

Main definitions:

* `Corba.Cdr.octet`, …, `Corba.Cdr.doubles` — the layout of each type;
* `Corba.Value`, `Corba.Value.items` — values of these types, and their layouts.
-/

import Corba.Layout
import Corba.ByteOrder
import Corba.Exception

set_option relaxedAutoImplicit false
set_option autoImplicit false

namespace Corba

open Layout ByteOrder Placed

namespace Cdr

/-! ### The layout of each type -/

/-- The items of a layout of octets. -/
abbrev Items := List (Item UInt8)

/-- An octet, or a character. -/
def octet (b : UInt8) : Items := [.raw [b]]

/-- A boolean is the octet one or zero. -/
def boolean (b : Bool) : Items := octet (if b then 1 else 0)

/-- A number of two octets. -/
def ushort (e : Endian) (v : UInt16) : Items := [.align 2, .raw (e.bytes 2 v.toNat)]

/-- A number of four octets, or the bit pattern of a `float`. -/
def ulong (e : Endian) (v : UInt32) : Items := [.align 4, .raw (e.bytes 4 v.toNat)]

/-- A number of eight octets, or the bit pattern of a `double`. -/
def ulonglong (e : Endian) (v : UInt64) : Items := [.align 8, .raw (e.bytes 8 v.toNat)]

/-- A number of octets and the octets. -/
def blob (e : Endian) (s : Octets) : Items := ulong e (UInt32.ofNat s.length) ++ [.raw s]

/-- A string is followed by a zero, which its length counts. -/
def string (e : Endian) (s : Octets) : Items :=
  ulong e (UInt32.ofNat (s.length + 1)) ++ [.raw (s ++ [0])]

/-- A sequence of the bit patterns of `float`s. -/
def floats (e : Endian) (vs : List UInt32) : Items :=
  ulong e (UInt32.ofNat vs.length) ++ [.raw (vs.flatMap fun v => e.bytes 4 v.toNat)]

/-- A sequence of the bit patterns of `double`s. -/
def doubles (e : Endian) (vs : List UInt64) : Items :=
  ulong e (UInt32.ofNat vs.length) ++ [.align 8, .raw (vs.flatMap fun v => e.bytes 8 v.toNat)]

/-- Contents with the number of their octets in front of them, from `o` on. -/
def sized (e : Endian) (o : ℕ) (body : Items) : Items :=
  ulong e (UInt32.ofNat (extent (roundUp 4 o + 4) body - (roundUp 4 o + 4))) ++ body

/-! ### Where each type ends -/

@[simp] theorem extent_octet (o : ℕ) (b : UInt8) : extent o (octet b) = o + 1 := rfl

@[simp] theorem extent_boolean (o : ℕ) (b : Bool) : extent o (boolean b) = o + 1 := rfl

@[simp] theorem extent_ushort (o : ℕ) (e : Endian) (v : UInt16) :
    extent o (ushort e v) = roundUp 2 o + 2 := by simp [ushort]

@[simp] theorem extent_ulong (o : ℕ) (e : Endian) (v : UInt32) :
    extent o (ulong e v) = roundUp 4 o + 4 := by simp [ulong]

@[simp] theorem extent_ulonglong (o : ℕ) (e : Endian) (v : UInt64) :
    extent o (ulonglong e v) = roundUp 8 o + 8 := by simp [ulonglong]

@[simp] theorem extent_blob (o : ℕ) (e : Endian) (s : Octets) :
    extent o (blob e s) = roundUp 4 o + 4 + s.length := by simp [blob, extent_append]

@[simp] theorem extent_string (o : ℕ) (e : Endian) (s : Octets) :
    extent o (string e s) = roundUp 4 o + 4 + (s.length + 1) := by simp [string, extent_append]

@[simp] theorem extent_floats (o : ℕ) (e : Endian) (vs : List UInt32) :
    extent o (floats e vs) = roundUp 4 o + 4 + 4 * vs.length := by
  simp [floats, extent_append, Nat.mul_comm]

@[simp] theorem extent_doubles (o : ℕ) (e : Endian) (vs : List UInt64) :
    extent o (doubles e vs) = roundUp 8 (roundUp 4 o + 4) + 8 * vs.length := by
  simp [doubles, extent_append, Nat.mul_comm]

@[simp] theorem extent_sized (o : ℕ) (e : Endian) (body : Items) :
    extent o (sized e o body) = extent (roundUp 4 o + 4) body := by simp [sized, extent_append]

end Cdr

/-! ### Values -/

/-- A value of one of the types the encoder and the decoder know.  Floating point numbers are
their bit patterns. -/
inductive Value where
  | boolean (v : Bool)
  | octet (v : UInt8)
  | ushort (v : UInt16)
  | ulong (v : UInt32)
  | ulonglong (v : UInt64)
  | short (v : Int16)
  | long (v : Int32)
  | longlong (v : Int64)
  | float (bits : UInt32)
  | double (bits : UInt64)
  | string (v : Octets)
  | blob (v : Octets)
  | sequenceFloat (bits : List UInt32)
  | sequenceDouble (bits : List UInt64)
  deriving DecidableEq, Repr

/-- The layout of a value. -/
def Value.items (e : Endian) : Value → Cdr.Items
  | .boolean v => Cdr.boolean v
  | .octet v => Cdr.octet v
  | .ushort v => Cdr.ushort e v
  | .ulong v => Cdr.ulong e v
  | .ulonglong v => Cdr.ulonglong e v
  | .short v => Cdr.ushort e v.toUInt16
  | .long v => Cdr.ulong e v.toUInt32
  | .longlong v => Cdr.ulonglong e v.toUInt64
  | .float bits => Cdr.ulong e bits
  | .double bits => Cdr.ulonglong e bits
  | .string v => Cdr.string e v
  | .blob v => Cdr.blob e v
  | .sequenceFloat bits => Cdr.floats e bits
  | .sequenceDouble bits => Cdr.doubles e bits

/-- The value is one whose length the format can express. -/
def Value.Fits : Value → Prop
  | .string v => v.length < 2 ^ 32 - 1
  | .blob v => v.length < 2 ^ 32 - 1
  | .sequenceFloat bits => bits.length < 2 ^ 32
  | .sequenceDouble bits => bits.length < 2 ^ 32
  | _ => True

instance : DecidablePred Value.Fits
  | .string v => inferInstanceAs (Decidable (v.length < 2 ^ 32 - 1))
  | .blob v => inferInstanceAs (Decidable (v.length < 2 ^ 32 - 1))
  | .sequenceFloat bits => inferInstanceAs (Decidable (bits.length < 2 ^ 32))
  | .sequenceDouble bits => inferInstanceAs (Decidable (bits.length < 2 ^ 32))
  | .boolean _ | .octet _ | .ushort _ | .ulong _ | .ulonglong _ | .short _ | .long _
  | .longlong _ | .float _ | .double _ => .isTrue trivial

/-- The layout of values one after the other. -/
def Value.itemsAll (e : Endian) (vs : List Value) : Cdr.Items := vs.flatMap (Value.items e)

@[simp] theorem Value.itemsAll_nil (e : Endian) : Value.itemsAll e [] = [] := rfl

@[simp] theorem Value.itemsAll_cons (e : Endian) (v : Value) (vs : List Value) :
    Value.itemsAll e (v :: vs) = v.items e ++ Value.itemsAll e vs := rfl

/-- In a message of less than `2 ^ 32` octets every length can be expressed. -/
theorem Value.fits_of_extent_lt {e : Endian} {v : Value} {o : ℕ}
    (h : extent o (v.items e) < 2 ^ 32) : v.Fits := by
  have hround := le_roundUp 4 o
  cases v with
  | string v =>
      rw [Value.items, Cdr.extent_string] at h
      show v.length < 2 ^ 32 - 1
      omega
  | blob v =>
      rw [Value.items, Cdr.extent_blob] at h
      show v.length < 2 ^ 32 - 1
      omega
  | sequenceFloat bits =>
      rw [Value.items, Cdr.extent_floats] at h
      show bits.length < 2 ^ 32
      omega
  | sequenceDouble bits =>
      rw [Value.items, Cdr.extent_doubles] at h
      show bits.length < 2 ^ 32
      omega
  | _ => trivial

theorem Value.fits_of_extent_all_lt {e : Endian} {vs : List Value} {o : ℕ}
    (h : extent o (Value.itemsAll e vs) < 2 ^ 32) : ∀ v ∈ vs, v.Fits := by
  induction vs generalizing o with
  | nil => intro v hv; cases hv
  | cons w vs ih =>
      intro v hv
      rw [Value.itemsAll_cons, extent_append] at h
      rcases List.mem_cons.1 hv with rfl | hv
      · exact Value.fits_of_extent_lt ((le_extent _ _).trans_lt h)
      · exact ih h v hv

end Corba
