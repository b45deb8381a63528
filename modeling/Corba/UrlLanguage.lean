/-
The language of locations and names.

The parser takes as much as it can at every point, while the words of a language are put together
from any words of its parts.  For the addresses of a location this makes no difference: however a text
is put together, the parser comes to the same end of the addresses, or to a number that does not fit.

Main definitions:

* `Corba.UrlLanguage.uris` — locations and names;
* `Corba.UrlLanguage.Ends` — what follows a part of a text.

Main results:

* `Corba.UrlLanguage.mem_of_entries` — what is taken from a text are addresses;
* `Corba.UrlLanguage.entries_of_mem` — addresses are taken from a text;
* `Corba.UrlLanguage.mem_iff_of_entries` — what follows the addresses decides whether a text is in the
  language.
-/

import Corba.Languages
import Corba.UrlGrammar

set_option relaxedAutoImplicit false
set_option autoImplicit false

namespace Corba

open Language Computability

/-! ### The language -/

namespace UrlLanguage

def lit (s : String) : Language UInt8 := {ascii s}

def digits : Language UInt8 := letter isdigit * (letter isdigit)∗

def version : Language UInt8 := digits * (lit "." * (digits * lit "@"))

def label : Language UInt8 := 1 + letter isalnum * (letter isLabelChar)∗

def labels : Language UInt8 := separated (ascii ".") label

def host : Language UInt8 := lit "[" * ((letter (· != 93))∗ * lit "]") + labels

def port : Language UInt8 := lit ":" * digits

def iiopId : Language UInt8 := lit "iiop:" + lit ":"

def address : Language UInt8 :=
  lit "rir:" + iiopId * ((1 + version) * (host * (1 + port)))

def addresses : Language UInt8 := separated (ascii ",") address

/-- A percent sign stands in front of two digits. -/
def uriText : Language UInt8 :=
  (letter (fun c => isUriChar c && c != 37) +
    lit "%" * (letter (isDigit 16) * letter (isDigit 16)))∗

def key : Language UInt8 := lit "/" * uriText

def name : Language UInt8 := lit "#" * uriText

def corbaloc : Language UInt8 := lit "corbaloc:" * (addresses * (1 + key))

def corbaname : Language UInt8 := lit "corbaname:" * (addresses * ((1 + key) * (1 + name)))

def uris : Language UInt8 := corbaloc + corbaname

variable {x t : Octets}

theorem mem_digits : x ∈ digits ↔ x ≠ [] ∧ ∀ c ∈ x, isdigit c = true := by
  rw [digits, mem_letter_mul]
  constructor
  · rintro ⟨c, y, hc, hy, rfl⟩
    exact ⟨List.cons_ne_nil _ _, List.forall_mem_cons.2 ⟨hc, mem_kstar_letter.1 hy⟩⟩
  · rintro ⟨hne, hx⟩
    obtain ⟨c, y, rfl⟩ := List.exists_cons_of_ne_nil hne
    rw [List.forall_mem_cons] at hx
    exact ⟨c, y, hx.1, mem_kstar_letter.2 hx.2, rfl⟩

theorem mem_version : x ∈ version ↔
    ∃ ds ds', ds ∈ digits ∧ ds' ∈ digits ∧ x = ds ++ (ascii "." ++ (ds' ++ ascii "@")) := by
  constructor
  · rintro ⟨ds, hds, _, ⟨_, rfl, _, ⟨ds', hds', _, rfl, rfl⟩, rfl⟩, rfl⟩
    exact ⟨ds, ds', hds, hds', rfl⟩
  · rintro ⟨ds, ds', hds, hds', rfl⟩
    exact append_mem_mul hds (append_mem_mul rfl (append_mem_mul hds' rfl))

theorem mem_label : x ∈ label ↔
    x = [] ∨ ∃ c cs, isalnum c = true ∧ (∀ c ∈ cs, isLabelChar c = true) ∧ x = c :: cs := by
  rw [label, mem_one_add, mem_letter_mul]
  simp only [mem_kstar_letter]

theorem mem_bracket : x ∈ lit "[" * ((letter (· != 93))∗ * lit "]") ↔
    ∃ t, 93 ∉ t ∧ x = ascii "[" ++ (t ++ ascii "]") := by
  have hchars : ∀ t : Octets, t ∈ (letter fun c : UInt8 => c != 93)∗ ↔ 93 ∉ t := by
    intro t
    rw [mem_kstar_letter]
    constructor
    · intro h hmem
      exact absurd (h 93 hmem) (by decide)
    · intro h c hc
      rw [bne_iff_ne]
      rintro rfl
      exact h hc
  constructor
  · rintro ⟨_, rfl, _, ⟨t, ht, _, rfl, rfl⟩, rfl⟩
    exact ⟨t, (hchars t).1 ht, rfl⟩
  · rintro ⟨t, ht, rfl⟩
    exact append_mem_mul rfl (append_mem_mul ((hchars t).2 ht) rfl)

theorem mem_iiopId : x ∈ iiopId ↔ IiopId x := Iff.rfl

/-! ### What is taken is in the language -/

section Sound

variable {rest : Octets}

theorem mem_of_numeral {ds : Octets} (h : Numeral ds rest) : ds ∈ digits :=
  mem_digits.2 ⟨h.ne_nil, h.digits⟩

theorem mem_of_versioned {v : Option (ℕ × ℕ)} (h : Versioned t v rest) :
    ∃ x ∈ 1 + version, t = x ++ rest := by
  cases h with
  | @version ds ds' _ h hminor =>
      refine ⟨_, mem_one_add.2 (Or.inr (mem_version.2 ⟨ds, ds', mem_of_numeral h,
        mem_of_numeral hminor, rfl⟩)), ?_⟩
      simp only [List.append_assoc]
  | _ => exact ⟨[], mem_one_add.2 (Or.inl rfl), rfl⟩

theorem mem_of_label {l : Octets} (h : Label t l rest) : l ∈ label := by
  cases h with
  | empty h => exact mem_label.2 (Or.inl rfl)
  | cons hc hcs hstop => exact mem_label.2 (Or.inr ⟨_, _, hc, hcs, rfl⟩)

theorem mem_of_labels {h : Octets} (hl : Labels t h rest) : h ∈ labels := by
  induction hl with
  | last h hdot => exact mem_separated (mem_of_label h)
  | dot h hrest ih => exact append_mem_separated (mem_of_label h) ih

theorem mem_of_hosted {h : Octets} (hh : Hosted t h rest) : h ∈ host := by
  cases hh with
  | bracket h => exact Or.inl (mem_bracket.2 ⟨_, h, rfl⟩)
  | labels hno hlabels => exact Or.inr (mem_of_labels hlabels)

theorem mem_of_ported {p : Option ℕ} (h : Ported t p rest) : ∃ x ∈ 1 + port, t = x ++ rest := by
  cases h with
  | none h => exact ⟨[], mem_one_add.2 (Or.inl rfl), rfl⟩
  | @port ds _ h =>
      refine ⟨ascii ":" ++ ds,
        mem_one_add.2 (Or.inr (append_mem_mul rfl (mem_of_numeral h))), ?_⟩
      rw [List.append_assoc]

theorem mem_of_entry {a : ObjectAddress} (h : Entry t a rest) : ∃ x ∈ address, t = x ++ rest := by
  cases h with
  | rir => exact ⟨ascii "rir:", Or.inl rfl, rfl⟩
  | @iiop id t t₁ h t₂ rest v p hid hv hh hp =>
      obtain ⟨x, hx, rfl⟩ := mem_of_versioned hv
      obtain ⟨y, hy, rfl⟩ := mem_of_ported hp
      refine ⟨id ++ (x ++ (h ++ y)), Or.inr (append_mem_mul (mem_iiopId.2 hid)
        (append_mem_mul hx (append_mem_mul (mem_of_hosted hh) hy))), ?_⟩
      rw [hh.split]
      simp only [List.append_assoc]

/-- **What is taken from a text are addresses.** -/
theorem mem_of_entries {as : List ObjectAddress} (h : Entries t as rest) :
    ∃ x ∈ addresses, t = x ++ rest := by
  induction h with
  | last h hcomma =>
      obtain ⟨x, hx, rfl⟩ := mem_of_entry h
      exact ⟨x, mem_separated hx, rfl⟩
  | cons h hrest ih =>
      obtain ⟨x, hx, rfl⟩ := mem_of_entry h
      obtain ⟨y, hy, rfl⟩ := ih
      refine ⟨x ++ (ascii "," ++ y), append_mem_separated hx hy, ?_⟩
      simp only [List.append_assoc]

end Sound

/-! ### What is in the language is taken -/

/-- Nothing stands there, or one of the characters does. -/
def Ends (marks : String) (rest : Octets) : Prop := ∀ c ∈ rest.head?, c ∈ ascii marks

/-- The characters of labels and the dots between them. -/
def isHostChar (c : UInt8) : Bool := isLabelChar c || c == 46

section Complete

variable {rest : Octets}

theorem Ends.mono {marks marks' : String} (h : Ends marks rest)
    (hsub : ascii marks ⊆ ascii marks') : Ends marks' rest :=
  fun c hc => hsub (h c hc)

theorem Ends.stop {marks : String} {p : UInt8 → Bool} (h : Ends marks rest)
    (hp : (ascii marks).any p = false) : ∀ c ∈ rest.head?, p c = false :=
  fun c hc => Bool.eq_false_iff.2 (List.any_eq_false.1 hp c (h c hc))

theorem Ends.not_begins {marks s : String} {c : UInt8} {cs : Octets} (h : Ends marks rest)
    (hs : ascii s = c :: cs) (hc : c ∉ ascii marks) : ¬ ascii s <+: rest := by
  rw [hs]
  rintro ⟨t, rfl⟩
  exact hc (h c rfl)

theorem ends_append {marks s : String} {c : UInt8} {cs : Octets} (hs : ascii s = c :: cs)
    (hc : c ∈ ascii marks) : Ends marks (ascii s ++ rest) := by
  intro d hd
  rw [hs] at hd
  cases hd
  exact hc

theorem ends_lit (s : String) (t : Octets) {c : UInt8} {cs : Octets} (hs : ascii s = c :: cs) :
    Ends s (ascii s ++ t) := ends_append hs (hs ▸ List.mem_cons_self)

theorem ends_nil : Ends "" [] := by
  rintro c ⟨⟩

theorem numeral_of_mem {ds : Octets} (h : ds ∈ digits) (hrest : NoNumeral rest) :
    Numeral ds rest ∨ Oversized ds rest := by
  obtain ⟨hne, hds⟩ := mem_digits.1 h
  by_cases hfits : ofDigits 10 ds < 2 ^ 32
  · exact Or.inl ⟨hne, hds, hrest, hfits⟩
  · exact Or.inr ⟨hne, hds, hrest, not_lt.1 hfits⟩

theorem label_of_mem (h : x ∈ label) (hrest : ∀ c ∈ rest.head?, isLabelChar c = false) :
    Label (x ++ rest) x rest := by
  rcases mem_label.1 h with rfl | ⟨c, cs, hc, hcs, rfl⟩
  · refine .empty fun c hc => ?_
    have hstop := hrest c hc
    rw [isLabelChar, Bool.or_eq_false_iff] at hstop
    exact hstop.1
  · exact .cons hc hcs hrest

theorem labels_of_mem (h : x ∈ labels) (hrest : Ends ":,/#" rest) : Labels (x ++ rest) x rest := by
  refine separated_induction (P := fun x => Labels (x ++ rest) x rest) h ?_ ?_
  · intro y hy
    exact .last (label_of_mem hy (hrest.stop (by decide))) (hrest.not_begins rfl (by decide))
  · intro y z hy hz
    rw [List.append_assoc, List.append_assoc]
    refine .dot (label_of_mem hy ?_) hz
    rintro c ⟨⟩
    decide

theorem isHostChar_dot : ∀ c ∈ ascii ".", isHostChar c = true :=
  forall_mem_of_all (by decide)

theorem isHostChar_of_mem (h : x ∈ labels) : ∀ c ∈ x, isHostChar c = true := by
  have hlabel : ∀ y ∈ label, ∀ c ∈ y, isHostChar c = true := by
    intro y hy c hc
    rw [isHostChar, Bool.or_eq_true]
    left
    rcases mem_label.1 hy with rfl | ⟨d, ds, hd, hds, rfl⟩
    · cases hc
    · rcases List.mem_cons.1 hc with rfl | hc
      · rw [isLabelChar, hd, Bool.true_or]
      · exact hds c hc
  refine separated_induction (P := fun x => ∀ c ∈ x, isHostChar c = true) h hlabel ?_
  intro y z hy hz c hc
  rcases List.mem_append.1 hc with hc | hc
  · exact hlabel y hy c hc
  · rcases List.mem_append.1 hc with hc | hc
    · exact isHostChar_dot c hc
    · exact hz c hc

theorem hosted_of_mem (h : x ∈ host) (hrest : Ends ":,/#" rest) : Hosted (x ++ rest) x rest := by
  rcases h with h | h
  · obtain ⟨t, ht, rfl⟩ := mem_bracket.1 h
    have hbracket : Hosted _ _ rest := .bracket ht
    simp only [List.append_assoc]
    exact hbracket
  · refine .labels ?_ (labels_of_mem h hrest)
    cases x with
    | nil => exact hrest.not_begins rfl (by decide)
    | cons c x =>
        rintro ⟨t, heq⟩
        have hhead : (91 : UInt8) = c := (List.cons.inj heq).1
        have hchar := isHostChar_of_mem h c List.mem_cons_self
        rw [← hhead] at hchar
        exact absurd hchar (by decide)

theorem isHostChar_of_isdigit {c : UInt8} (h : isdigit c = true) : isHostChar c = true := by
  obtain ⟨v, hv⟩ := isDigit_iff.1 h
  have hlt := digit_lt hv
  have hvalue : digitValue c = some v := (Option.filter_eq_some_iff.1 hv).1
  rw [digitValue] at hvalue
  by_cases hdigit : 48 ≤ c ∧ c ≤ 57
  · simp [isHostChar, isLabelChar, isalnum, hdigit]
  by_cases hlower : 97 ≤ c ∧ c ≤ 122
  · simp [isHostChar, isLabelChar, isalnum, hlower]
  by_cases hupper : 65 ≤ c ∧ c ≤ 90
  · simp [isHostChar, isLabelChar, isalnum, hupper]
  rw [if_neg hdigit, if_neg hlower, if_neg hupper] at hvalue
  cases hvalue

/-- A host is not mistaken for a version, since what follows it is not what follows a version. -/
theorem host_ne_version {ds ds' t : Octets} (hds : Numeral ds (ascii "." ++ (ds' ++ (ascii "@" ++ t))))
    (hds' : Numeral ds' (ascii "@" ++ t)) (h : x ∈ host) (hrest : Ends ":,/#" rest) :
    x ++ rest ≠ ds ++ (ascii "." ++ (ds' ++ (ascii "@" ++ t))) := by
  intro heq
  rcases h with h | h
  · obtain ⟨u, -, rfl⟩ := mem_bracket.1 h
    obtain ⟨d, ds, rfl⟩ := List.exists_cons_of_ne_nil hds.ne_nil
    have hhead : 91 = d := (List.cons.inj heq).1
    have hd := hds.digits d List.mem_cons_self
    rw [← hhead] at hd
    exact absurd hd (by decide)
  · -- both sides begin with characters of a host, as many as there are, and then differ
    have hversion : ∀ c ∈ ds ++ (ascii "." ++ ds'), isHostChar c = true := by
      intro c hc
      rcases List.mem_append.1 hc with hc | hc
      · exact isHostChar_of_isdigit (hds.digits c hc)
      · rcases List.mem_append.1 hc with hc | hc
        · exact isHostChar_dot c hc
        · exact isHostChar_of_isdigit (hds'.digits c hc)
    have hat : ∀ c ∈ (ascii "@" ++ t).head?, isHostChar c = false := by
      rintro c ⟨⟩
      decide
    have hassoc : x ++ rest = (ds ++ (ascii "." ++ ds')) ++ (ascii "@" ++ t) := by
      rw [heq]
      simp only [List.append_assoc]
    have htake := congrArg (List.takeWhile isHostChar) hassoc
    rw [takeWhile_append (isHostChar_of_mem h) (hrest.stop (by decide)),
      takeWhile_append hversion hat] at htake
    rw [htake] at hassoc
    rw [List.append_cancel_left hassoc] at hrest
    exact absurd (hrest 64 rfl) (by decide)

theorem versioned_of_mem {y : Octets} (h : x ∈ 1 + version) (hy : y ∈ host)
    (hrest : Ends ":,/#" rest) :
    (∃ v, Versioned (x ++ (y ++ rest)) v (y ++ rest)) ∨ VersionOversized (x ++ (y ++ rest)) := by
  rcases mem_one_add.1 h with rfl | h
  · rw [List.nil_append]
    rcases versioned_cases (y ++ rest) with ⟨v, t, hv⟩ | hlarge
    · -- a version in front of the host was not written, so none is found
      left
      generalize heq : y ++ rest = text at hv
      cases hv with
      | version hds hds' => exact absurd heq (host_ne_version hds hds' hy hrest)
      | noMajor h => exact ⟨_, .noMajor h⟩
      | noDot h hdot => exact ⟨_, .noDot h hdot⟩
      | noMinor h hminor => exact ⟨_, .noMinor h hminor⟩
      | noAt h hminor hat => exact ⟨_, .noAt h hminor hat⟩
    · exact Or.inr hlarge
  · obtain ⟨ds, ds', hds, hds', rfl⟩ := mem_version.1 h
    have hat : NoNumeral (ascii "@" ++ (y ++ rest)) := by
      rintro c ⟨⟩
      decide
    have hdot : NoNumeral (ascii "." ++ (ds' ++ (ascii "@" ++ (y ++ rest)))) := by
      rintro c ⟨⟩
      decide
    simp only [List.append_assoc]
    rcases numeral_of_mem hds hdot with hmajor | hlarge
    · rcases numeral_of_mem hds' hat with hminor | hlarge
      · exact Or.inl ⟨_, .version hmajor hminor⟩
      · exact Or.inr (.minor hmajor hlarge)
    · exact Or.inr (.major hlarge)

theorem ported_of_mem (h : x ∈ 1 + port) (hrest : Ends ",/#" rest) :
    (∃ p, Ported (x ++ rest) p rest) ∨ PortOversized (x ++ rest) := by
  rcases mem_one_add.1 h with rfl | h
  · exact Or.inl ⟨_, .none (hrest.not_begins rfl (by decide))⟩
  · obtain ⟨ds, hds, rfl⟩ := mem_singleton_mul.1 h
    rw [List.append_assoc]
    rcases numeral_of_mem hds (hrest.stop (by decide)) with hport | hlarge
    · exact Or.inl ⟨_, .port hport⟩
    · exact Or.inr ⟨ds, rest, rfl, hlarge⟩

/-- What follows a host is a port or what follows an address. -/
theorem ends_port (h : x ∈ 1 + port) (hrest : Ends ",/#" rest) : Ends ":,/#" (x ++ rest) := by
  rcases mem_one_add.1 h with rfl | h
  · exact hrest.mono (by decide)
  · obtain ⟨ds, -, rfl⟩ := mem_singleton_mul.1 h
    rw [List.append_assoc]
    exact ends_append rfl (by decide)

theorem entry_of_mem (h : x ∈ address) (hrest : Ends ",/#" rest) :
    (∃ a, Entry (x ++ rest) a rest) ∨ EntryOversized (x ++ rest) := by
  rcases h with rfl | ⟨id, hid, _, ⟨v, hv, _, ⟨y, hy, p, hp, rfl⟩, rfl⟩, rfl⟩
  · exact Or.inl ⟨_, .rir⟩
  · have hid := mem_iiopId.1 hid
    have hend := ends_port hp hrest
    simp only [List.append_assoc]
    rcases versioned_of_mem hv hy hend with ⟨v, hversion⟩ | hlarge
    · have hhost := hosted_of_mem hy hend
      rcases ported_of_mem hp hrest with ⟨p, hport⟩ | hlarge
      · exact Or.inl ⟨_, .iiop hid hversion hhost hport⟩
      · exact Or.inr (.port hid hversion hhost hlarge)
    · exact Or.inr (.version hid hlarge)

/-- **Addresses are taken from a text.** -/
theorem entries_of_mem (h : x ∈ addresses) (hrest : Ends "/#" rest) :
    (∃ as, Entries (x ++ rest) as rest) ∨ ListOversized (x ++ rest) := by
  refine separated_induction
    (P := fun x => (∃ as, Entries (x ++ rest) as rest) ∨ ListOversized (x ++ rest)) h ?_ ?_
  · intro y hy
    rcases entry_of_mem hy (hrest.mono (by decide)) with ⟨a, hentry⟩ | hlarge
    · exact Or.inl ⟨_, .last hentry (hrest.not_begins rfl (by decide))⟩
    · exact Or.inr (.here hlarge)
  · intro y z hy hz
    simp only [List.append_assoc]
    rcases entry_of_mem hy ((ends_lit "," (z ++ rest) rfl).mono (by decide)) with
      ⟨a, hentry⟩ | hlarge
    · rcases hz with ⟨as, has⟩ | hlarge
      · exact Or.inl ⟨_, .cons hentry has⟩
      · exact Or.inr (.later hentry hlarge)
    · exact Or.inr (.here hlarge)

end Complete

/-! ### The end of the addresses -/

section Tail

variable {rest : Octets} {l : Language UInt8}

/-- **What follows the addresses decides whether a text is in the language.** -/
theorem mem_iff_of_entries {as : List ObjectAddress} (h : Entries t as rest)
    (hl : ∀ w ∈ l, Ends "/#" w) : t ∈ addresses * l ↔ rest ∈ l := by
  constructor
  · rintro ⟨x, hx, w, hw, rfl⟩
    rcases entries_of_mem hx (hl w hw) with ⟨as', has⟩ | hlarge
    · rwa [(h.unique has).2]
    · exact absurd hlarge h.not_oversized
  · intro hrest
    obtain ⟨x, hx, rfl⟩ := mem_of_entries h
    exact append_mem_mul hx hrest

theorem ends_key {w : Octets} (h : w ∈ 1 + key) : Ends "/#" w := by
  rcases mem_one_add.1 h with rfl | h
  · rintro c ⟨⟩
  · obtain ⟨k, -, rfl⟩ := mem_singleton_mul.1 h
    exact ends_append rfl (by decide)

theorem ends_key_name {w : Octets} (h : w ∈ (1 + key) * (1 + name)) : Ends "/#" w := by
  obtain ⟨k, hk, m, hm, rfl⟩ := h
  rcases mem_one_add.1 hk with rfl | hk
  · rcases mem_one_add.1 hm with rfl | hm
    · rintro c ⟨⟩
    · obtain ⟨m, -, rfl⟩ := mem_singleton_mul.1 hm
      exact ends_append rfl (by decide)
  · obtain ⟨k, -, rfl⟩ := mem_singleton_mul.1 hk
    show Ends "/#" (ascii "/" ++ k ++ m)
    rw [List.append_assoc]
    exact ends_append rfl (by decide)

theorem lit_mul_iff {s : String} : ascii s ++ t ∈ lit s * l ↔ t ∈ l := by
  rw [lit, mem_singleton_mul]
  constructor
  · rintro ⟨y, hy, heq⟩
    rwa [List.append_cancel_left heq]
  · exact fun h => ⟨t, h, rfl⟩

/-- The sixth characters of the schemes are different. -/
theorem corbaloc_ne_corbaname (t t' : Octets) :
    ascii "corbaloc:" ++ t ≠ ascii "corbaname:" ++ t' := by
  intro heq
  have hsix := congrArg (List.take 6) heq
  rw [List.take_append_of_le_length (by decide), List.take_append_of_le_length (by decide)] at hsix
  exact absurd hsix (by decide)

theorem corbaloc_mem_uris : ascii "corbaloc:" ++ t ∈ uris ↔ t ∈ addresses * (1 + key) := by
  rw [uris, mem_add, corbaloc, lit_mul_iff, or_iff_left]
  intro hname
  obtain ⟨y, -, heq⟩ := mem_singleton_mul.1 hname
  exact corbaloc_ne_corbaname t y heq

theorem corbaname_mem_uris :
    ascii "corbaname:" ++ t ∈ uris ↔ t ∈ addresses * ((1 + key) * (1 + name)) := by
  rw [uris, mem_add, corbaname, lit_mul_iff, or_iff_right]
  intro hloc
  obtain ⟨y, -, heq⟩ := mem_singleton_mul.1 hloc
  exact corbaloc_ne_corbaname y t heq.symm

end Tail

end UrlLanguage

end Corba
