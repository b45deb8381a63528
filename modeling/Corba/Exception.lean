/-
Exceptions, and what else can end a run.

`src/corba/exception.hh` declares one class for each CORBA system exception.  They differ only in
the repository id they report, so they are the constructors of one type here.  Besides them the
code throws the exceptions of the C++ library, servants may throw anything, and a run can leave
the defined part of C++ altogether.

Main definitions:

* `Corba.Octets`, `Corba.CString` — the contents of a string, and of one without a zero octet;
* `Corba.SystemExceptionClass`, `Corba.SystemException` — the system exceptions;
* `Corba.Thrown` — what can be thrown;
* `Corba.Fault` — an exception, or undefined behaviour.

Main results:

* `Corba.CompletionStatus.ofUlong_toUlong` — a completion status survives the cast to a number
  and back.
-/

import Mathlib.Data.Nat.Notation
import Mathlib.Data.List.TakeWhile

set_option relaxedAutoImplicit false
set_option autoImplicit false

namespace Corba

/-! ### Strings -/

/-- The contents of a `std::string`, a `blob` or a stretch of memory. -/
abbrev Octets := List UInt8

/-- The octets of a string literal of the source. -/
def ascii (s : String) : Octets := s.toList.map fun c => UInt8.ofNat c.toNat

/-- A property of all octets of a text is looked at one octet after the other. -/
theorem forall_mem_of_all {q : UInt8 → Prop} [DecidablePred q] {bs : Octets}
    (h : bs.all (fun b => decide (q b)) = true) : ∀ b ∈ bs, q b :=
  fun b hb => of_decide_eq_true (List.all_eq_true.1 h b hb)

/-- A string that is handed over as `const char *`: it ends before its first zero octet. -/
abbrev CString := { s : Octets // (0 : UInt8) ∉ s }

/-- Octets as the text of a message, one character for each. -/
def text (bs : Octets) : String := String.ofList (bs.map fun b => Char.ofNat b.toNat)

/-- What is left of a string that is handed over as `const char *`. -/
def cString (s : Octets) : CString :=
  ⟨s.takeWhile (· ≠ 0), fun h => by simpa using List.mem_takeWhile_imp h⟩

/-! ### System exceptions -/

/-- Whether the operation had been completed when the exception was raised.  The enumeration has
room for one value more than it names. -/
inductive CompletionStatus where
  | yes
  | no
  | maybe
  | unnamed
  deriving DecidableEq, Repr

/-- The number a completion status is written as. -/
def CompletionStatus.toUlong : CompletionStatus → UInt32
  | .yes => 0
  | .no => 1
  | .maybe => 2
  | .unnamed => 3

/-- The completion status a number is cast to.  Other numbers are out of the range. -/
def CompletionStatus.ofUlong (n : UInt32) : Option CompletionStatus :=
  if n = 0 then some .yes
  else if n = 1 then some .no
  else if n = 2 then some .maybe
  else if n = 3 then some .unnamed
  else none

@[simp] theorem CompletionStatus.ofUlong_toUlong (c : CompletionStatus) :
    CompletionStatus.ofUlong c.toUlong = some c := by cases c <;> rfl

/-- The classes derived from `SystemException`. -/
inductive SystemExceptionClass where
  | badInvOrder | activityCompleted | activityRequired | badContext | badOperation | badParam
  | badTypecode | codesetIncompatible | dataConversion | impLimit | initializeError | internal
  | intfRepos | invalidActivity | invObjref | invPolicy | marshal | noImplement | noResources
  | noResponse | objectAdapter | objectNotExist | timeout | transactionRolledback | transient
  | unknown | noPermission | rebind | commFailure
  deriving DecidableEq, Repr

/-- `_rep_id()` of each class, as it is written in the source. -/
def SystemExceptionClass.repIdString : SystemExceptionClass → String
  | .badInvOrder => "IDL:omg.org/CORBA/BAD_INV_ORDER:1.0"
  | .activityCompleted => "IDL:omg.org/CORBA/ACTIVITY_COMPLETED:1.0"
  | .activityRequired => "IDL:omg.org/CORBA/ACTIVITY_REQUIRED:1.0"
  | .badContext => "IDL:omg.org/CORBA/BAD_CONTEXT:1.0"
  | .badOperation => "IDL:omg.org/CORBA/BAD_OPERATION:1.0"
  | .badParam => "IDL:omg.org/CORBA/BAD_PARAM:1.0"
  | .badTypecode => "IDL:omg.org/CORBA/BAD_TYPECODE:1.0"
  | .codesetIncompatible => "IDL:omg.org/CORBA/CODESET_INCOMPATIBLE:1.0"
  | .dataConversion => "IDL:omg.org/CORBA/DATA_CONVERSION:1.0"
  | .impLimit => "IDL:omg.org/CORBA/IMP_LIMIT:1.0"
  | .initializeError => "IDL:omg.org/CORBA/INITIALIZE:1.0"
  | .internal => "IDL:omg.org/CORBA/INTERNAL:1.0"
  | .intfRepos => "IDL:omg.org/CORBA/INTF_REPOS:1.0"
  | .invalidActivity => "IDL:omg.org/CORBA/INVALID_ACTIVITY:1.0"
  | .invObjref => "IDL:omg.org/CORBA/INV_OBJREF:1.0"
  | .invPolicy => "IDL:omg.org/CORBA/INV_POLICY:1.0"
  | .marshal => "IDL:omg.org/CORBA/MARSHAL:1.0"
  | .noImplement => "IDL:omg.org/CORBA/NO_IMPLEMENT:1.0"
  | .noResources => "IDL:omg.org/CORBA/NO_RESOURCES:1.0"
  | .noResponse => "IDL:omg.org/CORBA/NO_RESPONSE:1.0"
  | .objectAdapter => "IDL:omg.org/CORBA/OBJECT_ADAPTER:1.0"
  | .objectNotExist => "IDL:omg.org/CORBA/OBJECT_NOT_EXIST:1.0"
  | .timeout => "IDL:omg.org/CORBA/TIMEOUT:1.0"
  | .transactionRolledback => "IDL:omg.org/CORBA/TRANSACTION_ROLLEDBACK:1.0"
  | .transient => "IDL:omg.org/CORBA/TRANSIENT:1.0"
  | .unknown => "IDL:omg.org/CORBA/UNKNOWN:1.0"
  | .noPermission => "IDL:omg.org/CORBA/NO_PERMISSION:1.0"
  | .rebind => "IDL:omg.org/CORBA/REBIND:1.0"
  | .commFailure => "IDL:omg.org/CORBA/COMM_FAILURE:1.0"

/-- `_rep_id()` of each class. -/
def SystemExceptionClass.repId (c : SystemExceptionClass) : Octets := ascii c.repIdString

/-- A system exception: its class, its minor code and its completion status. -/
structure SystemException where
  cls : SystemExceptionClass
  minor : UInt32
  completed : CompletionStatus
  deriving DecidableEq, Repr

/-! ### What can be thrown -/

/-- What can be thrown.  `stdException` stands for every class derived from `std::exception` that
is not among the others, and `other` for a value of any other type. -/
inductive Thrown where
  | userException
  | systemException (ex : SystemException)
  | outOfRange (what : String)
  | lengthError (what : String)
  | runtimeError (what : String)
  | stdException (typeName what : CString)
  | other
  deriving DecidableEq

/-- The ways the code can leave the defined part of C++. -/
inductive Undefined where
  /-- `count` octets from `index` on are read, and not all of them are in the buffer. -/
  | overread (index count : ℕ)
  /-- The connection pointer is null and is dereferenced. -/
  | nullConnection
  /-- A floating point number is converted to an integer type it is out of the range of. -/
  | conversion
  /-- A number is cast to an enumeration it is out of the range of. -/
  | enumeration
  /-- A local variable is used that has not been set. -/
  | uninitialized
  /-- A local variable of a function that has returned is used. -/
  | dangling
  deriving DecidableEq

/-- What ends a run that does not return. -/
inductive Fault where
  | thrown (t : Thrown)
  | undefined (u : Undefined)
  deriving DecidableEq

end Corba
