/-
The numbers of an object URL.

The numbers of a version and of a port are read into an `unsigned` and stored in fields of eight and of
sixteen bits.  What does not fit into the field loses its high bits, and what does not even fit into
the `unsigned` is not stored, but a variable that has not been set is passed on.

Main definitions:

* `Corba.WrittenAddress` — an address with the digits it is written with;
* `Corba.WrittenAddress.Below` — its numbers are below some bounds;
* `Corba.FaceValue` — a text is answered with an exception or with the numbers in it.

Main results:

* `Corba.WrittenAddress.entries_of_below`, `Corba.WrittenAddress.oversized_of_not_below` — what is taken
  from written addresses;
* `Corba.numbers_at_face_value_iff` — the numbers are what is written exactly when they fit.
-/

import Corba.UrlAccept

set_option relaxedAutoImplicit false
set_option autoImplicit false

namespace Corba

open Exec Language UrlLanguage

/-! ### Written addresses -/

/-- The digits of a number. -/
abbrev Digits := {ds : Octets // ds ∈ UrlLanguage.digits}

def Digits.value (ds : Digits) : ℕ := ofDigits 10 ds.val

/-- An address, as it is written. -/
inductive WrittenAddress where
  | rir
  | iiop (id : {x : Octets // x ∈ UrlLanguage.iiopId}) (version : Option (Digits × Digits))
      (host : {x : Octets // x ∈ UrlLanguage.host}) (port : Option Digits)

/-- The numbers of an address. -/
structure AddressNumbers where
  major : ℕ := 1
  minor : ℕ := 0
  port : ℕ := 2809

/-- What is stored. -/
def ObjectAddress.numbers (a : ObjectAddress) : AddressNumbers :=
  ⟨a.major.toNat, a.minor.toNat, a.port.toNat⟩

namespace WrittenAddress

def versionText : Option (Digits × Digits) → Octets
  | none => []
  | some (major, minor) => major.val ++ (ascii "." ++ (minor.val ++ ascii "@"))

def portText : Option Digits → Octets
  | none => []
  | some port => ascii ":" ++ port.val

def text : WrittenAddress → Octets
  | rir => ascii "rir:"
  | iiop id version host port => id.val ++ (versionText version ++ (host.val ++ portText port))

/-- Addresses with commas between them. -/
def textAll (ws : List WrittenAddress) : Octets := (ascii ",").intercalate (ws.map text)

/-- What is written. -/
def numbers : WrittenAddress → AddressNumbers
  | rir => {}
  | iiop _ version _ port =>
      { major := (version.map fun v => v.1.value).getD 1
        minor := (version.map fun v => v.2.value).getD 0
        port := (port.map Digits.value).getD 2809 }

/-- The numbers of a version are below `b`.  Where no version is written, the host is looked at for one,
and the numbers it begins with must fit into an `unsigned`. -/
def VersionBelow (b : ℕ) (host : Octets) : Option (Digits × Digits) → Prop
  | none => ¬ VersionOversized host
  | some (major, minor) => major.value < b ∧ minor.value < b

/-- The numbers of a version are below `b` and those of a port below `b'`. -/
def Below (b b' : ℕ) : WrittenAddress → Prop
  | rir => True
  | iiop _ version host port => VersionBelow b host.val version ∧ ∀ p ∈ port, p.value < b'

/-- The numbers fit into their fields. -/
def Fits (w : WrittenAddress) : Prop := w.Below (2 ^ 8) (2 ^ 16)

/-- The numbers fit into an `unsigned`. -/
def Readable (w : WrittenAddress) : Prop := w.Below (2 ^ 32) (2 ^ 32)

theorem Fits.readable {w : WrittenAddress} (h : w.Fits) : w.Readable := by
  cases w with
  | rir => trivial
  | iiop id version host port =>
      obtain ⟨hversion, hport⟩ := h
      refine ⟨?_, fun p hp => (hport p hp).trans (by decide)⟩
      cases version with
      | none => exact hversion
      | some v => exact ⟨hversion.1.trans (by decide), hversion.2.trans (by decide)⟩

end WrittenAddress

/-! ### A host that is taken for a version -/

section Host

variable {x t rest ds : Octets}

/-- Of two ways to split a text, the one at characters that `p` holds of comes first, when what stands
behind the other begins with something else. -/
theorem split_chars {p : UInt8 → Bool} (hds : ∀ c ∈ ds, p c = true)
    (hrest : ∀ c ∈ rest.head?, p c = false) (h : x ++ rest = ds ++ t) :
    ∃ u, x = ds ++ u ∧ t = u ++ rest := by
  rcases List.append_eq_append_iff.1 h with ⟨u, rfl, rfl⟩ | ⟨u, rfl, rfl⟩
  · cases u with
    | nil => exact ⟨[], by simp, rfl⟩
    | cons c u =>
        have hc := hds c (List.mem_append_right _ List.mem_cons_self)
        rw [hrest c rfl] at hc
        cases hc
  · exact ⟨u, rfl, rfl⟩

theorem noNumeral_append (hrest : NoNumeral rest) : NoNumeral (x ++ rest) ↔ NoNumeral x := by
  cases x with
  | nil => exact iff_of_true hrest (by rintro c ⟨⟩)
  | cons c x => exact Iff.rfl

theorem numeral_append (hrest : NoNumeral rest) : Numeral ds (x ++ rest) ↔ Numeral ds x :=
  ⟨fun h => ⟨h.ne_nil, h.digits, (noNumeral_append hrest).1 h.stop, h.fits⟩,
    fun h => ⟨h.ne_nil, h.digits, (noNumeral_append hrest).2 h.stop, h.fits⟩⟩

theorem oversized_append (hrest : NoNumeral rest) : Oversized ds (x ++ rest) ↔ Oversized ds x :=
  ⟨fun h => ⟨h.ne_nil, h.digits, (noNumeral_append hrest).1 h.stop, h.large⟩,
    fun h => ⟨h.ne_nil, h.digits, (noNumeral_append hrest).2 h.stop, h.large⟩⟩

/-- What stands behind a host does not matter for the numbers it begins with. -/
theorem versionOversized_append (hrest : Ends ":,/#" rest) :
    VersionOversized (x ++ rest) ↔ VersionOversized x := by
  have hstop : NoNumeral rest := hrest.stop (by decide)
  have hdot : ∀ c ∈ rest.head?, (c == 46) = false := hrest.stop (by decide)
  constructor
  · intro h
    generalize htext : x ++ rest = text at h
    cases h with
    | major h =>
        obtain ⟨u, rfl, rfl⟩ := split_chars h.digits hstop htext
        exact .major ((oversized_append hstop).1 h)
    | minor h h' =>
        obtain ⟨u, rfl, hu⟩ := split_chars h.digits hstop htext
        obtain ⟨u', rfl, hu'⟩ := split_chars (p := (· == 46)) (forall_mem_of_all (by decide)) hdot hu.symm
        obtain ⟨u'', rfl, rfl⟩ := split_chars h'.digits hstop hu'.symm
        refine .minor ((numeral_append hstop).1 ?_) ((oversized_append hstop).1 h')
        simpa only [List.append_assoc] using h
  · intro h
    cases h with
    | major h =>
        rw [List.append_assoc]
        exact .major ((oversized_append hstop).2 h)
    | minor h h' =>
        have h := (numeral_append hstop).2 h
        simp only [List.append_assoc] at h ⊢
        exact .minor h ((oversized_append hstop).2 h')

/-- Where the text is left as it is, there is no version. -/
theorem Versioned.eq_none {v : Option (ℕ × ℕ)} (h : Versioned t v t) : v = none := by
  generalize htext : t = text at h
  nth_rewrite 1 [← htext] at h
  cases h with
  | version h hminor =>
      have hlen := congrArg List.length htext
      simp only [List.length_append] at hlen
      have hone : (ascii ".").length = 1 := rfl
      omega
  | _ => rfl

end Host

/-! ### What is taken from written addresses -/

section Stored

theorem toNat_byte_iff {n : ℕ} : (UInt8.ofNat n).toNat = n ↔ n < 2 ^ 8 := by
  rw [UInt8.toNat_ofNat']
  exact Nat.mod_eq_iff_lt (by decide)

theorem toNat_short_iff {n : ℕ} : (UInt16.ofNat n).toNat = n ↔ n < 2 ^ 16 := by
  rw [UInt16.toNat_ofNat']
  exact Nat.mod_eq_iff_lt (by decide)

variable {rest : Octets}

namespace WrittenAddress

/-- What the parser makes of the numbers. -/
def store (host : Octets) (version : Option (Digits × Digits)) (port : Option Digits) :
    ObjectAddress :=
  ((ObjectAddress.withVersion {} (version.map fun v => (v.1.value, v.2.value))).withHost host).withPort
    (port.map Digits.value)

theorem numbers_store_iff {id : {x : Octets // x ∈ UrlLanguage.iiopId}} {version : Option (Digits × Digits)}
    {host : {x : Octets // x ∈ UrlLanguage.host}} {port : Option Digits}
    (h : (iiop id version host port).Readable) :
    (store host.val version port).numbers = (iiop id version host port).numbers ↔
      (iiop id version host port).Fits := by
  have hhost : ∀ a : ObjectAddress, (a.withHost host.val).major = a.major ∧
      (a.withHost host.val).minor = a.minor ∧ (a.withHost host.val).port = a.port := by
    intro a
    rw [ObjectAddress.withHost]
    split <;> exact ⟨rfl, rfl, rfl⟩
  have hnumbers : (store host.val version port).numbers =
      ⟨(ObjectAddress.withVersion {} (version.map fun v => (v.1.value, v.2.value))).major.toNat,
        (ObjectAddress.withVersion {} (version.map fun v => (v.1.value, v.2.value))).minor.toNat,
        (ObjectAddress.withPort {} (port.map Digits.value)).port.toNat⟩ := by
    obtain ⟨hmajor, hminor, hport⟩ :=
      hhost (ObjectAddress.withVersion {} (version.map fun v => (v.1.value, v.2.value)))
    rw [ObjectAddress.numbers, store, ← hmajor, ← hminor]
    cases port with
    | none =>
        cases version with
        | none => exact congrArg (AddressNumbers.mk _ _) (congrArg UInt16.toNat hport)
        | some v => exact congrArg (AddressNumbers.mk _ _) (congrArg UInt16.toNat hport)
    | some p => rfl
  have hport : (ObjectAddress.withPort {} (port.map Digits.value)).port.toNat =
      (port.map Digits.value).getD 2809 ↔ ∀ p ∈ port, p.value < 2 ^ 16 := by
    cases port with
    | none => exact iff_of_true rfl (by rintro p ⟨⟩)
    | some p =>
        refine toNat_short_iff.trans ⟨fun hp q hq => ?_, fun hp => hp p rfl⟩
        cases hq
        exact hp
  rw [hnumbers, numbers, AddressNumbers.mk.injEq, hport, Fits, Below, ← and_assoc]
  refine and_congr_left fun _ => ?_
  cases version with
  | none => exact iff_of_true ⟨rfl, rfl⟩ h.1
  | some v => exact and_congr toNat_byte_iff toNat_byte_iff

theorem ends_portText (port : Option Digits) (hrest : Ends ",/#" rest) :
    Ends ":,/#" (portText port ++ rest) := by
  cases port with
  | none => exact hrest.mono (by decide)
  | some p =>
      rw [portText, List.append_assoc]
      exact ends_append rfl (by decide)

/-- A version whose numbers can be read, or none. -/
theorem versioned_of_below {version : Option (Digits × Digits)} {host : Octets}
    (h : VersionBelow (2 ^ 32) host version) (hhost : host ∈ UrlLanguage.host)
    (hrest : Ends ":,/#" rest) :
    Versioned (versionText version ++ (host ++ rest))
      (version.map fun v => (v.1.value, v.2.value)) (host ++ rest) := by
  cases version with
  | none =>
      rcases versioned_of_mem (mem_one_add.2 (Or.inl rfl)) hhost hrest with ⟨v, hv⟩ | hlarge
      · obtain rfl := hv.eq_none
        exact hv
      · exact absurd ((versionOversized_append hrest).1 hlarge) h
  | some v =>
      obtain ⟨hne, hdigits⟩ := mem_digits.1 v.1.property
      obtain ⟨hne', hdigits'⟩ := mem_digits.1 v.2.property
      simp only [versionText, List.append_assoc]
      exact .version ⟨hne, hdigits, (ends_lit "." _ rfl).stop (by decide), h.1⟩
        ⟨hne', hdigits', (ends_lit "@" _ rfl).stop (by decide), h.2⟩

/-- A version one of whose numbers cannot be read, or a host that is taken for one. -/
theorem versionOversized_of_not_below {version : Option (Digits × Digits)} {host : Octets}
    (h : ¬ VersionBelow (2 ^ 32) host version) (hrest : Ends ":,/#" rest) :
    VersionOversized (versionText version ++ (host ++ rest)) := by
  cases version with
  | none => exact (versionOversized_append hrest).2 (not_not.1 h)
  | some v =>
      obtain ⟨hne, hdigits⟩ := mem_digits.1 v.1.property
      obtain ⟨hne', hdigits'⟩ := mem_digits.1 v.2.property
      simp only [versionText, List.append_assoc]
      by_cases hmajor : v.1.value < 2 ^ 32
      · have hminor : 2 ^ 32 ≤ v.2.value := not_lt.1 fun hminor => h ⟨hmajor, hminor⟩
        exact .minor ⟨hne, hdigits, (ends_lit "." _ rfl).stop (by decide), hmajor⟩
          ⟨hne', hdigits', (ends_lit "@" _ rfl).stop (by decide), hminor⟩
      · exact .major ⟨hne, hdigits, (ends_lit "." _ rfl).stop (by decide), not_lt.1 hmajor⟩

/-- An address whose numbers can be read. -/
theorem entry_of_readable {w : WrittenAddress} (h : w.Readable) (hrest : Ends ",/#" rest) :
    ∃ a, Entry (w.text ++ rest) a rest ∧ (a.numbers = w.numbers ↔ w.Fits) := by
  cases w with
  | rir => exact ⟨_, .rir, iff_of_true rfl trivial⟩
  | iiop id version host port =>
      have hend := ends_portText port hrest
      have hported : Ported (portText port ++ rest) (port.map Digits.value) rest := by
        cases port with
        | none => exact .none (hrest.not_begins rfl (by decide))
        | some p =>
            obtain ⟨hne, hdigits⟩ := mem_digits.1 p.property
            rw [portText, List.append_assoc]
            exact .port ⟨hne, hdigits, hrest.stop (by decide), h.2 p rfl⟩
      refine ⟨store host.val version port, ?_, numbers_store_iff h⟩
      simp only [text, List.append_assoc]
      exact .iiop (mem_iiopId.1 id.property) (versioned_of_below h.1 host.property hend)
        (hosted_of_mem host.property hend) hported

/-- An address one of whose numbers cannot be read. -/
theorem entryOversized_of_not_readable {w : WrittenAddress} (h : ¬ w.Readable)
    (hrest : Ends ",/#" rest) : EntryOversized (w.text ++ rest) := by
  cases w with
  | rir => exact absurd trivial h
  | iiop id version host port =>
      have hid := mem_iiopId.1 id.property
      have hend := ends_portText port hrest
      simp only [text, List.append_assoc]
      by_cases hversion : VersionBelow (2 ^ 32) host.val version
      · obtain ⟨p, rfl, hlarge⟩ : ∃ p, port = some p ∧ 2 ^ 32 ≤ p.value := by
          by_contra hno
          exact h ⟨hversion, fun p hp => not_le.1 fun hle => hno ⟨p, hp, hle⟩⟩
        obtain ⟨hne, hdigits⟩ := mem_digits.1 p.property
        refine .port hid (versioned_of_below hversion host.property hend)
          (hosted_of_mem host.property hend) ⟨p.val, rest, ?_, hne, hdigits, ?_, hlarge⟩
        · rw [portText, List.append_assoc]
        · exact hrest.stop (by decide)
      · exact .version hid (versionOversized_of_not_below hversion hend)

theorem textAll_cons_cons (w w' : WrittenAddress) (ws : List WrittenAddress) :
    textAll (w :: w' :: ws) = w.text ++ (ascii "," ++ textAll (w' :: ws)) := by
  simp only [textAll, List.map_cons, List.intercalate_cons_cons, List.append_assoc]

/-- **Addresses are taken from a text when all their numbers can be read**, and then they are what is
written exactly when all of them fit. -/
theorem entries_of_readable {ws : List WrittenAddress} (hne : ws ≠ []) (h : ∀ w ∈ ws, w.Readable)
    (hrest : Ends "/#" rest) :
    ∃ as, Entries (textAll ws ++ rest) as rest ∧
      (as.map ObjectAddress.numbers = ws.map numbers ↔ ∀ w ∈ ws, w.Fits) := by
  induction ws with
  | nil => exact absurd rfl hne
  | cons w ws ih =>
      have hw := h w List.mem_cons_self
      cases ws with
      | nil =>
          obtain ⟨a, hentry, hiff⟩ := entry_of_readable hw (hrest.mono (by decide))
          refine ⟨[a], ?_, by simpa using hiff⟩
          rw [textAll, List.map_singleton, List.intercalate_singleton]
          exact .last hentry (hrest.not_begins rfl (by decide))
      | cons w' ws =>
          obtain ⟨as, hentries, hiff⟩ := ih (List.cons_ne_nil _ _) fun x hx =>
            h x (List.mem_cons_of_mem _ hx)
          have hcomma : Ends ",/#" (ascii "," ++ (textAll (w' :: ws) ++ rest)) :=
            (ends_lit "," _ rfl).mono (by decide)
          obtain ⟨a, hentry, hiff'⟩ := entry_of_readable hw hcomma
          refine ⟨a :: as, ?_, ?_⟩
          · rw [textAll_cons_cons, List.append_assoc, List.append_assoc]
            exact .cons hentry hentries
          · rw [List.map_cons, List.map_cons, List.cons.injEq]
            exact (and_congr hiff' hiff).trans List.forall_mem_cons.symm

/-- **Where one of the numbers cannot be read, what is passed on has not been set.** -/
theorem listOversized_of_not_readable {ws : List WrittenAddress} (h : ¬ ∀ w ∈ ws, w.Readable)
    (hrest : Ends "/#" rest) : ListOversized (textAll ws ++ rest) := by
  induction ws with
  | nil => exact absurd (by rintro w ⟨⟩) h
  | cons w ws ih =>
      cases ws with
      | nil =>
          rw [textAll, List.map_singleton, List.intercalate_singleton]
          refine .here (entryOversized_of_not_readable (fun hw => h ?_) (hrest.mono (by decide)))
          rintro x hx
          rwa [List.mem_singleton.1 hx]
      | cons w' ws =>
          have hcomma : Ends ",/#" (ascii "," ++ (textAll (w' :: ws) ++ rest)) :=
            (ends_lit "," _ rfl).mono (by decide)
          rw [textAll_cons_cons, List.append_assoc, List.append_assoc]
          by_cases hw : w.Readable
          · obtain ⟨a, hentry, -⟩ := entry_of_readable hw hcomma
            exact .later hentry (ih fun hws => h (List.forall_mem_cons.2 ⟨hw, hws⟩))
          · exact .here (entryOversized_of_not_readable hw hcomma)

end WrittenAddress

end Stored

/-! ### Face value -/

/-- A text is answered with an exception, or with the numbers that are written in it. -/
def FaceValue [Platform] (s : Octets) (ws : List WrittenAddress) : Prop :=
  (∃ x, decodeURI s = .error (.thrown x)) ∨
    ∃ v, decodeURI s = .ok v ∧ v.addr.map ObjectAddress.numbers = ws.map WrittenAddress.numbers

theorem faceValue_ok [Platform] {s : Octets} {ws : List WrittenAddress} {v : Uri}
    (h : decodeURI s = .ok v) :
    FaceValue s ws ↔ v.addr.map ObjectAddress.numbers = ws.map WrittenAddress.numbers := by
  rw [FaceValue, h]
  constructor
  · rintro (⟨x, ⟨⟩⟩ | ⟨w, hw, hnumbers⟩)
    cases hw
    exact hnumbers
  · exact fun hnumbers => Or.inr ⟨v, rfl, hnumbers⟩

theorem not_faceValue_undefined [Platform] {s : Octets} {ws : List WrittenAddress} {u : Undefined}
    (h : decodeURI s = .error (.undefined u)) : ¬ FaceValue s ws := by
  rw [FaceValue, h]
  rintro (⟨x, ⟨⟩⟩ | ⟨v, ⟨⟩, -⟩)

/-- **Numbers are taken at face value exactly when all of them fit into their fields**, as far as what
follows the addresses can be decoded. -/
theorem numbers_at_face_value_iff [Platform] (w : WrittenAddress) (ws : List WrittenAddress)
    {rest : Octets} (hrest : Ends "/#" rest) :
    (FaceValue (ascii "corbaloc:" ++ (WrittenAddress.textAll (w :: ws) ++ rest)) (w :: ws) ↔
      (∀ x ∈ w :: ws, x.Fits) ∧
        Decodes (ascii "corbaloc:" ++ (WrittenAddress.textAll (w :: ws) ++ rest)) "/" rest) ∧
    (FaceValue (ascii "corbaname:" ++ (WrittenAddress.textAll (w :: ws) ++ rest)) (w :: ws) ↔
      (∀ x ∈ w :: ws, x.Fits) ∧
        Decodes (ascii "corbaname:" ++ (WrittenAddress.textAll (w :: ws) ++ rest)) "/" rest ∧
        Decodes (ascii "corbaname:" ++ (WrittenAddress.textAll (w :: ws) ++ rest)) "#"
          (behindKey rest)) := by
  by_cases hread : ∀ x ∈ w :: ws, x.Readable
  · obtain ⟨as, hentries, hiff⟩ :=
      WrittenAddress.entries_of_readable (List.cons_ne_nil w ws) hread hrest
    constructor
    · have hdecode := UrlParser.decodeURI_corbaloc (WrittenAddress.textAll (w :: ws) ++ rest)
      rcases UrlParser.corbaloc_decodes hentries {} (List.suffix_append _ _) with
        ⟨hkey, loc, hloc, -, hrun⟩ | ⟨hkey, u, s, hrun⟩
      · rw [hrun] at hdecode
        rw [faceValue_ok hdecode, ← hiff, and_iff_left hkey]
        show loc.addr.map _ = _ ↔ _
        rw [hloc]
        exact Iff.rfl
      · rw [hrun] at hdecode
        exact iff_of_false (not_faceValue_undefined hdecode) fun h => hkey h.2
    · have hdecode := UrlParser.decodeURI_corbaname (WrittenAddress.textAll (w :: ws) ++ rest)
      rcases UrlParser.corbaname_decodes hentries {} (List.suffix_append _ _) with
        ⟨hkey, name, hname, hrun⟩ | ⟨hkey, u, hrun⟩
      · rw [hrun] at hdecode
        rw [faceValue_ok hdecode, ← hiff, and_iff_left hkey]
        show name.addr.map _ = _ ↔ _
        rw [hname]
        exact Iff.rfl
      · rw [hrun] at hdecode
        exact iff_of_false (not_faceValue_undefined hdecode) fun h => hkey h.2
  · have hlarge := WrittenAddress.listOversized_of_not_readable hread hrest
    have hfits : ¬ ∀ x ∈ w :: ws, x.Fits := fun h => hread fun x hx => (h x hx).readable
    obtain ⟨u, hloc⟩ := (answers_corbaloc _).oversized hlarge
    obtain ⟨u', hname⟩ := (answers_corbaname _).oversized hlarge
    exact ⟨iff_of_false (not_faceValue_undefined hloc) fun h => hfits h.1,
      iff_of_false (not_faceValue_undefined hname) fun h => hfits h.1⟩

/-! ### On both sides of the limits -/

theorem mem_digits_of_all {ds : Octets} (hne : ds ≠ []) (h : ds.all isdigit = true) :
    ds ∈ UrlLanguage.digits := mem_digits.2 ⟨hne, List.all_eq_true.1 h⟩

/-- A host of one letter, with a version and a port. -/
def versionedHost (minor port : Digits) : WrittenAddress :=
  .iiop ⟨ascii "iiop:", Or.inl rfl⟩ (some (⟨ascii "1", mem_digits_of_all (by decide) rfl⟩, minor))
    ⟨ascii "h", (mem_add _ _ _).2 (Or.inr (mem_separated (mem_label.2 (Or.inr ⟨104, [], rfl, by simp, rfl⟩))))⟩
    (some port)

def fitting : WrittenAddress :=
  versionedHost ⟨ascii "255", mem_digits_of_all (by decide) rfl⟩
    ⟨ascii "65535", mem_digits_of_all (by decide) rfl⟩

def cutOff : WrittenAddress :=
  versionedHost ⟨ascii "256", mem_digits_of_all (by decide) rfl⟩
    ⟨ascii "65536", mem_digits_of_all (by decide) rfl⟩

/-- The largest numbers that fit. -/
theorem numbers_at_face_value_fitting :
    letI : Platform := ⟨.little⟩
    FaceValue (ascii "corbaloc:" ++ (WrittenAddress.textAll [fitting] ++ [])) [fitting] := by
  let : Platform := ⟨.little⟩
  refine (numbers_at_face_value_iff fitting [] (by rintro c ⟨⟩)).1.2 ⟨?_, decodes_plain (by decide)⟩
  intro x hx
  rw [List.mem_singleton.1 hx]
  refine ⟨⟨by decide, by decide⟩, fun p hp => ?_⟩
  cases hp
  decide

/-- The smallest numbers that do not fit become zero. -/
theorem large_numbers_zero :
    letI : Platform := ⟨.little⟩
    ascii "corbaloc:" ++ (WrittenAddress.textAll [cutOff] ++ []) =
        ascii "corbaloc:iiop:1.256@h:65536" ∧
      decodeURI (ascii "corbaloc:iiop:1.256@h:65536") =
        .ok (.location ⟨[{ host := ascii "h", minor := 0, port := 0 }], []⟩) ∧
      ¬ FaceValue (ascii "corbaloc:iiop:1.256@h:65536") [cutOff] := by
  let : Platform := ⟨.little⟩
  have hrun : decodeURI (ascii "corbaloc:iiop:1.256@h:65536") =
      .ok (.location ⟨[{ host := ascii "h", minor := 0, port := 0 }], []⟩) := rfl
  refine ⟨by decide, hrun, ?_⟩
  rw [faceValue_ok hrun]
  intro h
  have hport := congrArg (List.map AddressNumbers.port) h
  exact absurd hport (by decide)

end Corba
