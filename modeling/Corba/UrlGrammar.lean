/-
What the parser takes from a text.

Each function of the parser takes as much as it can from what is left of the text, and does not come
back to it, with one exception: a number with which an address begins is the host unless it turns
out to be a version.  The relations say what is taken, and the functions do what the relations say,
unless a number is too large.

Main definitions:

* `Corba.Versioned`, `Corba.Hosted`, `Corba.Ported` — the parts of an address;
* `Corba.Entry`, `Corba.Entries` — an address, and a list of them;
* `Corba.EntryBreaks`, `Corba.Breaks` — text in which an address was expected;
* `Corba.EntryOversized`, `Corba.ListOversized` — text with a number that does not fit.

Main results:

* `Corba.entries_cases` — nothing else can stand in a text;
* `Corba.UrlParser.objAddrList_run`, `Corba.UrlParser.objAddrList_breaks`,
  `Corba.UrlParser.objAddrList_oversized` — what the parser makes of it.
-/

import Corba.UrlScan
import Corba.IorProfiles

set_option relaxedAutoImplicit false
set_option autoImplicit false

namespace Corba

open Exec

/-! ### Versions -/

/-- A version is taken from the text, or the text is left as it is. -/
inductive Versioned : Octets → Option (ℕ × ℕ) → Octets → Prop
  | noMajor {t : Octets} (h : NoNumeral t) : Versioned t none t
  | noDot {ds t : Octets} (h : Numeral ds t) (hdot : ¬ ascii "." <+: t) :
      Versioned (ds ++ t) none (ds ++ t)
  | noMinor {ds t : Octets} (h : Numeral ds (ascii "." ++ t)) (hminor : NoNumeral t) :
      Versioned (ds ++ (ascii "." ++ t)) none (ds ++ (ascii "." ++ t))
  | noAt {ds ds' t : Octets} (h : Numeral ds (ascii "." ++ (ds' ++ t))) (hminor : Numeral ds' t)
      (hat : ¬ ascii "@" <+: t) :
      Versioned (ds ++ (ascii "." ++ (ds' ++ t))) none (ds ++ (ascii "." ++ (ds' ++ t)))
  | version {ds ds' t : Octets} (h : Numeral ds (ascii "." ++ (ds' ++ (ascii "@" ++ t))))
      (hminor : Numeral ds' (ascii "@" ++ t)) :
      Versioned (ds ++ (ascii "." ++ (ds' ++ (ascii "@" ++ t))))
        (some (ofDigits 10 ds, ofDigits 10 ds')) t

/-- The numbers of a version are stored in an octet each. -/
def ObjectAddress.withVersion (addr : ObjectAddress) : Option (ℕ × ℕ) → ObjectAddress
  | none => addr
  | some (major, minor) => { addr with major := UInt8.ofNat major, minor := UInt8.ofNat minor }

/-- A program that ends in undefined behaviour. -/
def Undefines {σ α : Type} (x : EStateM Fault σ α) (s : σ) : Prop :=
  ∃ u s', x s = .error (.undefined u) s'

section Undefines

variable {σ α β : Type} {x : EStateM Fault σ α} {f : α → EStateM Fault σ β} {s s' : σ} {a : α}

theorem Undefines.bind (h : Undefines x s) : Undefines (x >>= f) s := by
  obtain ⟨u, s', h⟩ := h
  exact ⟨u, s', bind_error h _⟩

theorem Undefines.of_rest (h : x s = .ok a s') (hf : Undefines (f a) s') :
    Undefines (x >>= f) s := by
  obtain ⟨u, s'', hf⟩ := hf
  exact ⟨u, s'', (bind_ok h _).trans hf⟩

end Undefines

theorem Versioned.suffix {t rest : Octets} {v : Option (ℕ × ℕ)} (h : Versioned t v rest) :
    rest <:+ t := by
  cases h with
  | version h hminor =>
      exact suffix_right (suffix_right (suffix_right (suffix_right (List.suffix_refl _))))
  | _ => exact List.suffix_rfl

/-- One of the numbers of a version does not fit. -/
inductive VersionOversized : Octets → Prop
  | major {ds t : Octets} (h : Oversized ds t) : VersionOversized (ds ++ t)
  | minor {ds ds' t : Octets} (h : Numeral ds (ascii "." ++ (ds' ++ t))) (h' : Oversized ds' t) :
      VersionOversized (ds ++ (ascii "." ++ (ds' ++ t)))

theorem versioned_cases (t : Octets) : (∃ v rest, Versioned t v rest) ∨ VersionOversized t := by
  rcases numeral_cases t with hno | ⟨ds, t₁, rfl, hds⟩ | ⟨ds, t₁, rfl, hlarge⟩
  · exact Or.inl ⟨_, _, .noMajor hno⟩
  · by_cases hdot : ascii "." <+: t₁
    · obtain ⟨t₂, rfl⟩ := hdot
      rcases numeral_cases t₂ with hno | ⟨ds', t₃, rfl, hds'⟩ | ⟨ds', t₃, rfl, hlarge⟩
      · exact Or.inl ⟨_, _, .noMinor hds hno⟩
      · by_cases hat : ascii "@" <+: t₃
        · obtain ⟨t₄, rfl⟩ := hat
          exact Or.inl ⟨_, _, .version hds hds'⟩
        · exact Or.inl ⟨_, _, .noAt hds hds' hat⟩
      · exact Or.inr (.minor hds hlarge)
    · exact Or.inl ⟨_, _, .noDot hds hdot⟩
  · exact Or.inr (.major hlarge)

namespace UrlParser

open UrlLexer

variable {D t rest : Octets} {addr : ObjectAddress}

/-- Where a number stands and is followed by a literal, or not. -/
theorem version_run {v : Option (ℕ × ℕ)} (h : Versioned t v rest) (hD : t <:+ D) :
    version addr (facing D t) = .ok (addr.withVersion v) (facing D rest) := by
  rw [version, get_bind]
  cases h with
  | noMajor h => exact bind_ok (number_none hD h) _
  | noDot h hdot =>
      refine (bind_ok (number_run hD h) _).trans ?_
      refine (bind_ok (matchText_miss (suffix_right hD) hdot) _).trans ?_
      rfl
  | @noMinor ds t h hminor =>
      refine (bind_ok (number_run hD h) _).trans ?_
      refine (bind_ok (matchText_run (suffix_right hD)) _).trans ?_
      refine (bind_ok (number_none (suffix_right (suffix_right hD)) hminor) _).trans ?_
      rfl
  | @noAt ds ds' t h hminor hat =>
      refine (bind_ok (number_run hD h) _).trans ?_
      refine (bind_ok (matchText_run (suffix_right hD)) _).trans ?_
      refine (bind_ok (number_run (suffix_right (suffix_right hD)) hminor) _).trans ?_
      -- both numbers and the dot are put back
      refine (bind_ok (matchText_miss (suffix_right (suffix_right (suffix_right hD))) hat) _).trans ?_
      rfl
  | @version ds ds' t h hminor =>
      refine (bind_ok (number_run hD h) _).trans ?_
      refine (bind_ok (matchText_run (suffix_right hD)) _).trans ?_
      refine (bind_ok (number_run (suffix_right (suffix_right hD)) hminor) _).trans ?_
      refine (bind_ok (matchText_run (suffix_right (suffix_right (suffix_right hD)))) _).trans ?_
      rfl

theorem version_oversized (addr : ObjectAddress) (h : VersionOversized t) (hD : t <:+ D) :
    Undefines (version addr) (facing D t) := by
  rw [version]
  refine Undefines.of_rest (get_run _) ?_
  cases h with
  | major h => exact Undefines.bind ⟨_, _, number_oversized hD h⟩
  | minor h h' =>
      refine Undefines.of_rest (number_run hD h) ?_
      refine Undefines.of_rest (matchText_run (suffix_right hD)) ?_
      exact Undefines.bind ⟨_, _, number_oversized (suffix_right (suffix_right hD)) h'⟩

end UrlParser

/-! ### Hosts -/

/-- A label is taken from the text, which may be empty. -/
inductive Label : Octets → Octets → Octets → Prop
  | empty {t : Octets} (h : ∀ c ∈ t.head?, isalnum c = false) : Label t [] t
  | cons {c : UInt8} {cs t : Octets} (hc : isalnum c = true) (hcs : ∀ c ∈ cs, isLabelChar c = true)
      (hstop : ∀ c ∈ t.head?, isLabelChar c = false) : Label (c :: (cs ++ t)) (c :: cs) t

/-- Labels with dots between them. -/
inductive Labels : Octets → Octets → Octets → Prop
  | last {t l rest : Octets} (h : Label t l rest) (hdot : ¬ ascii "." <+: rest) : Labels t l rest
  | dot {t l t' ls rest : Octets} (h : Label t l (ascii "." ++ t')) (hrest : Labels t' ls rest) :
      Labels t (l ++ (ascii "." ++ ls)) rest

/-- A host is taken from the text: an address between brackets, or labels. -/
inductive Hosted : Octets → Octets → Octets → Prop
  | bracket {t rest : Octets} (h : 93 ∉ t) :
      Hosted (ascii "[" ++ (t ++ (ascii "]" ++ rest))) (ascii "[" ++ (t ++ ascii "]")) rest
  | labels {t h rest : Octets} (hno : ¬ ascii "[" <+: t) (hlabels : Labels t h rest) :
      Hosted t h rest

/-- An address between brackets that is not closed. -/
def Unclosed (t : Octets) : Prop := ∃ t', t = ascii "[" ++ t' ∧ 93 ∉ t'

/-- An empty host is not stored. -/
def ObjectAddress.withHost (addr : ObjectAddress) (h : Octets) : ObjectAddress :=
  if h = [] then addr else { addr with host := h }

theorem Label.split {t l rest : Octets} (h : Label t l rest) : t = l ++ rest := by
  cases h with
  | empty h => rfl
  | cons hc hcs hstop => rfl

theorem Labels.split {t h rest : Octets} (hl : Labels t h rest) : t = h ++ rest := by
  induction hl with
  | last h hdot => exact h.split
  | dot h hrest ih => rw [h.split, ih, List.append_assoc, List.append_assoc]

theorem Hosted.split {t h rest : Octets} (hh : Hosted t h rest) : t = h ++ rest := by
  cases hh with
  | bracket h => simp only [List.append_assoc]
  | labels hno hlabels => exact hlabels.split

theorem Hosted.suffix {t h rest : Octets} (hh : Hosted t h rest) : rest <:+ t :=
  hh.split ▸ List.suffix_append h rest

theorem exists_label (t : Octets) : ∃ l rest, Label t l rest := by
  cases t with
  | nil => exact ⟨_, _, .empty (by simp)⟩
  | cons c t =>
      by_cases hc : isalnum c = true
      · have hchars : ∀ c ∈ t.takeWhile isLabelChar, isLabelChar c = true :=
          fun c hc => List.mem_takeWhile_imp hc
        have hcons := Label.cons hc hchars (dropWhile_head isLabelChar t)
        rw [List.takeWhile_append_dropWhile] at hcons
        exact ⟨_, _, hcons⟩
      · exact ⟨_, _, .empty (by simpa using hc)⟩

theorem exists_labels (t : Octets) : ∃ h rest, Labels t h rest := by
  induction hn : t.length using Nat.strong_induction_on generalizing t with
  | _ n ih =>
      obtain ⟨l, t₁, hl⟩ := exists_label t
      -- a label may be empty, but the dot behind it is not
      by_cases hdot : ascii "." <+: t₁
      · obtain ⟨t₂, rfl⟩ := hdot
        have hlen : t₂.length < n := by
          rw [← hn, hl.split]
          simp only [List.length_append]
          have hone : (ascii ".").length = 1 := rfl
          omega
        obtain ⟨h, rest, hrest⟩ := ih _ hlen t₂ rfl
        exact ⟨_, _, .dot hl hrest⟩
      · exact ⟨_, _, .last hl hdot⟩

theorem hosted_cases (t : Octets) : (∃ h rest, Hosted t h rest) ∨ Unclosed t := by
  by_cases hbracket : ascii "[" <+: t
  · obtain ⟨t₁, rfl⟩ := hbracket
    by_cases hclosed : 93 ∈ t₁
    · obtain ⟨t₂, rest, rfl, hno⟩ := List.eq_append_cons_of_mem hclosed
      exact Or.inl ⟨_, _, .bracket hno⟩
    · exact Or.inr ⟨_, rfl, hclosed⟩
  · obtain ⟨h, rest, hlabels⟩ := exists_labels t
    exact Or.inl ⟨_, _, .labels hbracket hlabels⟩

namespace UrlParser

open UrlLexer

variable {D t rest : Octets} {addr : ObjectAddress}

theorem label_run {l : Octets} (h : Label t l rest) (hD : t <:+ D) :
    label (facing D t) = .ok () (facing D rest) := by
  cases h with
  | empty h =>
      rw [label]
      cases t with
      | nil =>
          refine (bind_ok (getc_end D) _).trans ?_
          rfl
      | cons c t =>
          have hc : ¬ isalnum c = true := by simp [h c rfl]
          have hlen := hD.length_le
          rw [List.length_cons] at hlen
          rw [bind_ok (getc_facing hD), if_pos hc, ungetc, modify_run, facing, facing,
            List.length_cons]
          congr 2
  | cons hc hcs hstop =>
      rw [label, bind_ok (getc_facing hD), if_neg (not_not.2 hc)]
      exact skip_run (by decide) (suffix_tail hD) hcs hstop

theorem labels_run {h : Octets} (hl : Labels t h rest) {n : ℕ} (hD : t <:+ D) (hn : t.length ≤ n) :
    labels n (facing D t) = .ok () (facing D rest) := by
  induction hl generalizing n with
  | last h hdot =>
      cases n with
      | zero => exact label_run h hD
      | succ n =>
          have hD' := hD
          rw [h.split] at hD'
          rw [labels, bind_ok (label_run h hD), bind_ok (matchText_miss (suffix_right hD') hdot)]
          rfl
  | @dot t l t' ls rest h hrest ih =>
      have hD' := hD
      rw [h.split] at hD' hn
      simp only [List.length_append] at hn
      obtain ⟨n, rfl⟩ : ∃ m, n = m + 1 := ⟨n - 1, by
        have hone : (ascii ".").length = 1 := rfl
        omega⟩
      have hone : (ascii ".").length = 1 := rfl
      rw [labels, bind_ok (label_run h hD), bind_ok (matchText_run (suffix_right hD'))]
      exact ih (suffix_right (suffix_right hD')) (by omega)

theorem findIdx?_bracket {t : Octets} (h : 93 ∉ t) (rest : Octets) :
    (ascii "[" ++ (t ++ (ascii "]" ++ rest))).findIdx? (· = 93) = some (t.length + 1) := by
  have hone : (ascii "[").findIdx? (fun c : UInt8 => decide (c = 93)) = none := rfl
  have hfind : t.findIdx? (fun c : UInt8 => decide (c = 93)) = none :=
    List.findIdx?_eq_none_iff.2 fun c hc => by
      rw [decide_eq_false_iff_not]
      rintro rfl
      exact h hc
  have hlast : (ascii "]" ++ rest).findIdx? (fun c : UInt8 => decide (c = 93)) = some 0 := rfl
  rw [List.findIdx?_append, List.findIdx?_append, hone, hfind, hlast]
  show some (0 + t.length + 1) = _
  rw [Nat.zero_add]

theorem host_run {h : Octets} (hh : Hosted t h rest) (addr : ObjectAddress) (hD : t <:+ D) :
    host addr (facing D t) = .ok (addr.withHost h) (facing D rest) := by
  have hlen := hD.length_le
  have hsplit := hh.split
  have hcount : t.length = h.length + rest.length := by
    rw [hsplit, List.length_append]
  rw [host, get_bind]
  cases hh with
  | @bracket t rest h =>
      have hfind := findIdx?_bracket h rest
      rw [← drop_facing hD] at hfind
      have hone : (ascii "[" ++ (t ++ ascii "]")).length = 1 + (t.length + 1) := by
        rw [List.length_append, List.length_append]
        rfl
      have hmatch := matchText_run hD
      -- from here on only the lengths matter
      generalize ascii "[" ++ (t ++ (ascii "]" ++ rest)) = text
        at hlen hsplit hcount hD hfind hmatch ⊢
      have hpos : D.length - text.length + (t.length + 1) + 1 = D.length - rest.length := by omega
      have hsub := substr_facing (n := D.length - rest.length - (D.length - text.length)) hsplit hD
        (by omega) (facing D (t ++ (ascii "]" ++ rest)))
      rw [bind_ok hmatch, if_pos rfl, get_bind]
      simp only [hfind]
      have hne : ascii "[" ++ (t ++ ascii "]") ≠ [] := List.cons_ne_nil _ _
      rw [hpos, bind_ok hsub, ObjectAddress.withHost, if_neg hne]
      rfl
  | labels hno hlabels =>
      rw [bind_ok (matchText_miss hD hno), if_neg Bool.false_ne_true, get_bind,
        bind_ok (labels_run hlabels hD hlen), get_bind, ObjectAddress.withHost]
      by_cases hnil : h = []
      · have hsame : (facing D t).pos = (facing D rest).pos := by
          show D.length - t.length = D.length - rest.length
          rw [hcount, hnil, List.length_nil, Nat.zero_add]
        rw [if_pos hsame, if_pos hnil]
        rfl
      · have hpos := List.length_pos_iff.2 hnil
        have hmoved : ¬ (facing D t).pos = (facing D rest).pos := by
          show ¬ D.length - t.length = D.length - rest.length
          omega
        rw [if_neg hmoved, if_neg hnil]
        refine (bind_ok (substr_facing hsplit hD ?_ _) _).trans ?_
        · show D.length - rest.length - (D.length - t.length) = _
          omega
        · rfl

/-- A bracket that is not closed is answered with an exception. -/
theorem host_unclosed (addr : ObjectAddress) (h : Unclosed t) (hD : t <:+ D) :
    Raises (host addr) (facing D t) := by
  obtain ⟨t', rfl, hno⟩ := h
  have hone : (ascii "[").findIdx? (fun c : UInt8 => decide (c = 93)) = none := rfl
  have hrest : t'.findIdx? (fun c : UInt8 => decide (c = 93)) = none :=
    List.findIdx?_eq_none_iff.2 fun c hc => by
      rw [decide_eq_false_iff_not]
      rintro rfl
      exact hno hc
  have hfind : (ascii "[" ++ t').findIdx? (fun c : UInt8 => decide (c = 93)) = none := by
    rw [List.findIdx?_append, hone, hrest]
    rfl
  rw [← drop_facing hD] at hfind
  rw [host]
  refine Raises.of_rest (get_run _) (Raises.of_rest (matchText_run hD) ?_)
  rw [if_pos rfl]
  refine Raises.of_rest (get_run _) ?_
  simp only [hfind]
  exact ⟨_, _, rfl⟩

end UrlParser

/-! ### Ports -/

/-- A port is taken from the text, or the text is left as it is. -/
inductive Ported : Octets → Option ℕ → Octets → Prop
  | none {t : Octets} (h : ¬ ascii ":" <+: t) : Ported t none t
  | port {ds rest : Octets} (h : Numeral ds rest) :
      Ported (ascii ":" ++ (ds ++ rest)) (some (ofDigits 10 ds)) rest

/-- A port was announced that is not there. -/
def Portless (t : Octets) : Prop := ∃ t', t = ascii ":" ++ t' ∧ NoNumeral t'

/-- The number of a port is stored in two octets. -/
def ObjectAddress.withPort (addr : ObjectAddress) : Option ℕ → ObjectAddress
  | none => addr
  | some port => { addr with port := UInt16.ofNat port }

theorem Ported.suffix {t rest : Octets} {p : Option ℕ} (h : Ported t p rest) : rest <:+ t := by
  cases h with
  | none h => exact List.suffix_refl _
  | port h => exact suffix_right (suffix_right (List.suffix_refl _))

/-- The number of a port does not fit. -/
def PortOversized (t : Octets) : Prop :=
  ∃ ds rest, t = ascii ":" ++ (ds ++ rest) ∧ Oversized ds rest

theorem ported_cases (t : Octets) :
    (∃ p rest, Ported t p rest) ∨ Portless t ∨ PortOversized t := by
  by_cases hcolon : ascii ":" <+: t
  · obtain ⟨t, rfl⟩ := hcolon
    rcases numeral_cases t with hno | ⟨ds, rest, rfl, hds⟩ | ⟨ds, rest, rfl, hlarge⟩
    · exact Or.inr (Or.inl ⟨_, rfl, hno⟩)
    · exact Or.inl ⟨_, _, .port hds⟩
    · exact Or.inr (Or.inr ⟨_, _, rfl, hlarge⟩)
  · exact Or.inl ⟨_, _, .none hcolon⟩

namespace UrlParser

open UrlLexer

variable {D t rest : Octets} {addr : ObjectAddress}

/-- The end of `iiopAddr`. -/
def portAddr (addr : ObjectAddress) : UrlM ObjectAddress := do
  if ← matchText (ascii ":") then
    let some addr ← port addr | runtimeError "missing port number after :"
    return addr
  else return addr

theorem portAddr_run {p : Option ℕ} (h : Ported t p rest) (addr : ObjectAddress) (hD : t <:+ D) :
    portAddr addr (facing D t) = .ok (addr.withPort p) (facing D rest) := by
  rw [portAddr]
  cases h with
  | none h =>
      rw [bind_ok (matchText_miss hD h)]
      rfl
  | port h =>
      have hport := bind_ok (number_run (suffix_right hD) h)
        fun p => pure (p.map fun port => { addr with port := UInt16.ofNat port })
      rw [bind_ok (matchText_run hD), if_pos rfl]
      exact bind_ok hport _

theorem portAddr_portless (addr : ObjectAddress) (h : Portless t) (hD : t <:+ D) :
    Raises (portAddr addr) (facing D t) := by
  obtain ⟨t', rfl, hno⟩ := h
  rw [portAddr]
  refine Raises.of_rest (matchText_run hD) ?_
  have hport := bind_ok (number_none (suffix_right hD) hno)
    fun p => pure (p.map fun port => { addr with port := UInt16.ofNat port })
  rw [if_pos rfl]
  exact Raises.of_rest hport ⟨_, _, rfl⟩

theorem portAddr_oversized (addr : ObjectAddress) (h : PortOversized t) (hD : t <:+ D) :
    Undefines (portAddr addr) (facing D t) := by
  obtain ⟨ds, rest, rfl, h⟩ := h
  rw [portAddr]
  refine Undefines.of_rest (matchText_run hD) ?_
  rw [if_pos rfl, port]
  exact Undefines.bind (Undefines.bind ⟨_, _, number_oversized (suffix_right hD) h⟩)

end UrlParser

/-! ### Addresses -/

/-- What an address of the protocol begins with. -/
def IiopId (id : Octets) : Prop := id = ascii "iiop:" ∨ id = ascii ":"

/-- An address is taken from the text. -/
inductive Entry : Octets → ObjectAddress → Octets → Prop
  | rir {rest : Octets} : Entry (ascii "rir:" ++ rest) { proto := ascii "rir" } rest
  | iiop {id t t₁ h t₂ rest : Octets} {v : Option (ℕ × ℕ)} {p : Option ℕ} (hid : IiopId id)
      (hv : Versioned t v t₁) (hh : Hosted t₁ h t₂) (hp : Ported t₂ p rest) :
      Entry (id ++ t) (((ObjectAddress.withVersion {} v).withHost h).withPort p) rest

/-- An address is expected where there is none, or it turns out not to be one. -/
inductive EntryBreaks : Octets → Prop
  | noAddress {t : Octets} (hrir : ¬ ascii "rir:" <+: t) (hiiop : ¬ ascii "iiop:" <+: t)
      (hcolon : ¬ ascii ":" <+: t) : EntryBreaks t
  | unclosed {id t t₁ : Octets} {v : Option (ℕ × ℕ)} (hid : IiopId id) (hv : Versioned t v t₁)
      (h : Unclosed t₁) : EntryBreaks (id ++ t)
  | portless {id t t₁ h t₂ : Octets} {v : Option (ℕ × ℕ)} (hid : IiopId id)
      (hv : Versioned t v t₁) (hh : Hosted t₁ h t₂) (hp : Portless t₂) : EntryBreaks (id ++ t)

/-- One of the numbers of an address does not fit. -/
inductive EntryOversized : Octets → Prop
  | version {id t : Octets} (hid : IiopId id) (h : VersionOversized t) : EntryOversized (id ++ t)
  | port {id t t₁ h t₂ : Octets} {v : Option (ℕ × ℕ)} (hid : IiopId id) (hv : Versioned t v t₁)
      (hh : Hosted t₁ h t₂) (hp : PortOversized t₂) : EntryOversized (id ++ t)

theorem entry_cases (t : Octets) : (∃ a rest, Entry t a rest) ∨ EntryBreaks t ∨ EntryOversized t := by
  by_cases hrir : ascii "rir:" <+: t
  · obtain ⟨rest, rfl⟩ := hrir
    exact Or.inl ⟨_, _, .rir⟩
  by_cases hid : ∃ id rest, t = id ++ rest ∧ IiopId id
  · obtain ⟨id, t, rfl, hid⟩ := hid
    rcases versioned_cases t with ⟨v, t₁, hv⟩ | hlarge
    · rcases hosted_cases t₁ with ⟨h, t₂, hh⟩ | hunclosed
      · rcases ported_cases t₂ with ⟨p, rest, hp⟩ | hportless | hlarge
        · exact Or.inl ⟨_, _, .iiop hid hv hh hp⟩
        · exact Or.inr (Or.inl (.portless hid hv hh hportless))
        · exact Or.inr (Or.inr (.port hid hv hh hlarge))
      · exact Or.inr (Or.inl (.unclosed hid hv hunclosed))
    · exact Or.inr (Or.inr (.version hid hlarge))
  · refine Or.inr (Or.inl (.noAddress hrir ?_ ?_))
    · rintro ⟨rest, rfl⟩
      exact hid ⟨_, _, rfl, Or.inl rfl⟩
    · rintro ⟨rest, rfl⟩
      exact hid ⟨_, _, rfl, Or.inr rfl⟩

theorem IiopId.not_rir {id : Octets} (h : IiopId id) (t : Octets) :
    ¬ ascii "rir:" <+: id ++ t := by
  rintro ⟨t', heq⟩
  rcases h with rfl | rfl
  · exact absurd (List.cons.inj heq).1 (by decide)
  · exact absurd (List.cons.inj heq).1 (by decide)

theorem IiopId.pos {id : Octets} (h : IiopId id) : 0 < id.length := by
  rcases h with rfl | rfl <;> decide

theorem Entry.suffix {t rest : Octets} {a : ObjectAddress} (h : Entry t a rest) : rest <:+ t := by
  cases h with
  | rir => exact suffix_right (List.suffix_refl _)
  | @iiop id t t₁ h t₂ rest v p hid hv hh hp =>
      exact hp.suffix.trans (hh.suffix.trans (hv.suffix.trans (List.suffix_append id t)))

/-- Every address takes a character. -/
theorem Entry.length_lt {t rest : Octets} {a : ObjectAddress} (h : Entry t a rest) :
    rest.length < t.length := by
  cases h with
  | rir =>
      rw [List.length_append]
      have hfour : (ascii "rir:").length = 4 := rfl
      omega
  | @iiop id t t₁ h t₂ rest v p hid hv hh hp =>
      have hle := (hp.suffix.trans (hh.suffix.trans hv.suffix)).length_le
      have hpos := hid.pos
      rw [List.length_append]
      omega

namespace UrlParser

open UrlLexer

variable {D t rest : Octets}

theorem iiopId_run {id : Octets} (h : IiopId id) (hD : id ++ t <:+ D) :
    iiopId (facing D (id ++ t)) = .ok true (facing D t) := by
  rw [iiopId]
  rcases h with rfl | rfl
  · rw [bind_ok (matchText_run hD)]
    rfl
  · have hno : ¬ ascii "iiop:" <+: ascii ":" ++ t := by
      rintro ⟨t', heq⟩
      exact absurd (List.cons.inj heq).1 (by decide)
    rw [bind_ok (matchText_miss hD hno), if_neg Bool.false_ne_true]
    exact matchText_run hD

theorem rirProtAddr_run (addr : ObjectAddress) (hD : ascii "rir:" ++ t <:+ D) :
    rirProtAddr addr (facing D (ascii "rir:" ++ t)) =
      .ok (some { addr with proto := ascii "rir" }) (facing D t) := by
  rw [rirProtAddr, bind_ok (matchText_run hD)]
  rfl

theorem rirProtAddr_miss (addr : ObjectAddress) (h : ¬ ascii "rir:" <+: t) (hD : t <:+ D) :
    rirProtAddr addr (facing D t) = .ok none (facing D t) := by
  rw [rirProtAddr, bind_ok (matchText_miss hD h)]
  rfl

theorem iiopAddr_eq (addr : ObjectAddress) :
    iiopAddr addr = version addr >>= fun addr => host addr >>= fun addr => portAddr addr := rfl

/-- Behind what an address begins with. -/
theorem objAddr_iiop {id : Octets} (h : IiopId id) (addr : ObjectAddress) (hD : id ++ t <:+ D) :
    objAddr addr (facing D (id ++ t)) =
      (iiopAddr addr >>= fun addr => pure (some addr)) (facing D t) := by
  rw [objAddr, protAddr, bind_ok (rirProtAddr_miss addr (h.not_rir t) hD)]
  show iiopProtAddr addr _ = _
  rw [iiopProtAddr, bind_ok (iiopId_run h hD), if_pos rfl]

theorem iiopAddr_run {t₁ h t₂ : Octets} {v : Option (ℕ × ℕ)} {p : Option ℕ} (addr : ObjectAddress)
    (hv : Versioned t v t₁) (hh : Hosted t₁ h t₂) (hp : Ported t₂ p rest) (hD : t <:+ D) :
    iiopAddr addr (facing D t) =
      .ok (((addr.withVersion v).withHost h).withPort p) (facing D rest) := by
  have hD₁ := hv.suffix.trans hD
  rw [iiopAddr_eq, bind_ok (version_run hv hD), bind_ok (host_run hh _ hD₁)]
  exact portAddr_run hp _ (hh.suffix.trans hD₁)

theorem objAddr_run {a : ObjectAddress} (h : Entry t a rest) (hD : t <:+ D) :
    objAddr {} (facing D t) = .ok (some a) (facing D rest) := by
  cases h with
  | rir =>
      rw [objAddr, protAddr, bind_ok (rirProtAddr_run {} hD)]
      rfl
  | iiop hid hv hh hp =>
      rw [objAddr_iiop hid _ hD]
      exact bind_ok (iiopAddr_run {} hv hh hp (suffix_right hD)) _

/-- Where there is no address, the parser says so or throws. -/
theorem objAddr_breaks (h : EntryBreaks t) (hD : t <:+ D) :
    (∃ s, objAddr {} (facing D t) = .ok none s) ∨ Raises (objAddr {}) (facing D t) := by
  cases h with
  | noAddress hrir hiiop hcolon =>
      left
      refine ⟨facing D t, ?_⟩
      have hid : iiopId (facing D t) = .ok false (facing D t) := by
        rw [iiopId, bind_ok (matchText_miss hD hiiop), if_neg Bool.false_ne_true]
        exact matchText_miss hD hcolon
      rw [objAddr, protAddr, bind_ok (rirProtAddr_miss {} hrir hD)]
      show iiopProtAddr {} _ = _
      rw [iiopProtAddr, bind_ok hid]
      rfl
  | unclosed hid hv h =>
      right
      obtain ⟨t, s, hraise⟩ : Raises (iiopAddr {}) (facing D _) := by
        rw [iiopAddr_eq]
        refine Raises.of_rest (version_run hv (suffix_right hD)) ?_
        exact (host_unclosed _ h (hv.suffix.trans (suffix_right hD))).bind
      exact ⟨t, s, (objAddr_iiop hid _ hD).trans (bind_error hraise _)⟩
  | portless hid hv hh hp =>
      right
      obtain ⟨t, s, hraise⟩ : Raises (iiopAddr {}) (facing D _) := by
        have hD₁ := hv.suffix.trans (suffix_right hD)
        rw [iiopAddr_eq]
        refine Raises.of_rest (version_run hv (suffix_right hD)) ?_
        refine Raises.of_rest (host_run hh _ hD₁) ?_
        exact portAddr_portless _ hp (hh.suffix.trans hD₁)
      exact ⟨t, s, (objAddr_iiop hid _ hD).trans (bind_error hraise _)⟩

theorem objAddr_oversized (addr : ObjectAddress) (h : EntryOversized t) (hD : t <:+ D) :
    Undefines (objAddr addr) (facing D t) := by
  cases h with
  | version hid h =>
      obtain ⟨u, s, hrun⟩ := (version_oversized addr h (suffix_right hD)).bind
      exact ⟨u, s, (objAddr_iiop hid _ hD).trans (bind_error hrun _)⟩
  | port hid hv hh hp =>
      obtain ⟨u, s, hrun⟩ : Undefines (iiopAddr addr) (facing D _) := by
        have hD₁ := hv.suffix.trans (suffix_right hD)
        rw [iiopAddr_eq]
        refine Undefines.of_rest (version_run hv (suffix_right hD)) ?_
        refine Undefines.of_rest (host_run hh _ hD₁) ?_
        exact portAddr_oversized _ hp (hh.suffix.trans hD₁)
      exact ⟨u, s, (objAddr_iiop hid _ hD).trans (bind_error hrun _)⟩

end UrlParser

/-! ### Lists of addresses -/

/-- Addresses with commas between them are taken from the text. -/
inductive Entries : Octets → List ObjectAddress → Octets → Prop
  | last {t rest : Octets} {a : ObjectAddress} (h : Entry t a rest)
      (hcomma : ¬ ascii "," <+: rest) : Entries t [a] rest
  | cons {t t' rest : Octets} {a : ObjectAddress} {as : List ObjectAddress}
      (h : Entry t a (ascii "," ++ t')) (hrest : Entries t' as rest) : Entries t (a :: as) rest

/-- One of the addresses that are expected in the text is none. -/
inductive Breaks : Octets → Prop
  | here {t : Octets} (h : EntryBreaks t) : Breaks t
  | later {t t' : Octets} {a : ObjectAddress} (h : Entry t a (ascii "," ++ t'))
      (hrest : Breaks t') : Breaks t

/-- One of the numbers in the text does not fit. -/
inductive ListOversized : Octets → Prop
  | here {t : Octets} (h : EntryOversized t) : ListOversized t
  | later {t t' : Octets} {a : ObjectAddress} (h : Entry t a (ascii "," ++ t'))
      (hrest : ListOversized t') : ListOversized t

/-- **There are no other texts.** -/
theorem entries_cases (t : Octets) : (∃ as rest, Entries t as rest) ∨ Breaks t ∨ ListOversized t := by
  -- every address takes a character, so what is left behind a comma is shorter
  induction hn : t.length using Nat.strong_induction_on generalizing t with
  | _ n ih =>
      rcases entry_cases t with ⟨a, t₁, h⟩ | hbreaks | hlarge
      · by_cases hcomma : ascii "," <+: t₁
        · obtain ⟨t₂, rfl⟩ := hcomma
          have hlen := h.length_lt
          rw [List.length_append] at hlen
          rcases ih _ (by omega) t₂ rfl with ⟨as, rest, has⟩ | hbreaks | hlarge
          · exact Or.inl ⟨_, _, .cons h has⟩
          · exact Or.inr (Or.inl (.later h hbreaks))
          · exact Or.inr (Or.inr (.later h hlarge))
        · exact Or.inl ⟨_, _, .last h hcomma⟩
      · exact Or.inr (Or.inl (.here hbreaks))
      · exact Or.inr (Or.inr (.here hlarge))

theorem Entries.suffix {t rest : Octets} {as : List ObjectAddress} (h : Entries t as rest) :
    rest <:+ t := by
  induction h with
  | last h hcomma => exact h.suffix
  | cons h hrest ih => exact ih.trans (suffix_right h.suffix)

namespace UrlParser

open UrlLexer

variable {D t rest : Octets}

/-- **The addresses are taken.** -/
theorem objAddrList_run {as : List ObjectAddress} (h : Entries t as rest) {n : ℕ} (hD : t <:+ D)
    (hn : t.length < n) : objAddrList n (facing D t) = .ok as (facing D rest) := by
  induction h generalizing n with
  | last h hcomma =>
      obtain ⟨n, rfl⟩ : ∃ m, n = m + 1 := ⟨n - 1, by omega⟩
      rw [objAddrList, bind_ok (objAddr_run h hD)]
      refine (bind_ok (matchText_miss (h.suffix.trans hD) hcomma) _).trans ?_
      rfl
  | cons h hrest ih =>
      obtain ⟨n, rfl⟩ : ∃ m, n = m + 1 := ⟨n - 1, by omega⟩
      have hD' := h.suffix.trans hD
      have hlen := h.length_lt
      rw [List.length_append] at hlen
      have htail := ih (n := n) (suffix_right hD') (by omega)
      rw [objAddrList, bind_ok (objAddr_run h hD)]
      refine (bind_ok (matchText_run hD') _).trans ?_
      rw [if_pos rfl]
      exact bind_ok htail _

/-- **Where an address is missing, the parser throws.** -/
theorem objAddrList_breaks (h : Breaks t) {n : ℕ} (hD : t <:+ D) (hn : t.length < n) :
    Raises (objAddrList n) (facing D t) := by
  induction h generalizing n with
  | here h =>
      obtain ⟨n, rfl⟩ : ∃ m, n = m + 1 := ⟨n - 1, by omega⟩
      rw [objAddrList]
      rcases objAddr_breaks h hD with ⟨s, hnone⟩ | hraise
      · exact Raises.of_rest hnone ⟨_, _, rfl⟩
      · exact hraise.bind
  | later h hrest ih =>
      obtain ⟨n, rfl⟩ : ∃ m, n = m + 1 := ⟨n - 1, by omega⟩
      have hD' := h.suffix.trans hD
      have hlen := h.length_lt
      rw [List.length_append] at hlen
      rw [objAddrList]
      refine Raises.of_rest (objAddr_run h hD) ?_
      refine Raises.of_rest (matchText_run hD') ?_
      rw [if_pos rfl]
      exact (ih (suffix_right hD') (by omega)).bind

/-- **Where a number does not fit, what is stored has not been set.** -/
theorem objAddrList_oversized (h : ListOversized t) {n : ℕ} (hD : t <:+ D) (hn : t.length < n) :
    Undefines (objAddrList n) (facing D t) := by
  induction h generalizing n with
  | here h =>
      obtain ⟨n, rfl⟩ : ∃ m, n = m + 1 := ⟨n - 1, by omega⟩
      rw [objAddrList]
      exact (objAddr_oversized {} h hD).bind
  | later h hrest ih =>
      obtain ⟨n, rfl⟩ : ∃ m, n = m + 1 := ⟨n - 1, by omega⟩
      have hD' := h.suffix.trans hD
      have hlen := h.length_lt
      rw [List.length_append] at hlen
      rw [objAddrList]
      refine Undefines.of_rest (objAddr_run h hD) ?_
      refine Undefines.of_rest (matchText_run hD') ?_
      rw [if_pos rfl]
      exact (ih (suffix_right hD') (by omega)).bind

end UrlParser

/-! ### One end of the addresses -/

section Ends

open UrlLexer UrlParser

variable {t rest rest' : Octets} {as as' : List ObjectAddress}

/-- **There is one way in which addresses are taken.** -/
theorem Entries.unique (h : Entries t as rest) (h' : Entries t as' rest') :
    as = as' ∧ rest = rest' := by
  have hrun := objAddrList_run h (List.suffix_refl t) (Nat.lt_succ_self _)
  rw [objAddrList_run h' (List.suffix_refl t) (Nat.lt_succ_self _)] at hrun
  injection hrun with has hfacing
  have hpos : t.length - rest'.length = t.length - rest.length := congrArg UrlLexer.pos hfacing
  refine ⟨has.symm, ?_⟩
  rw [← drop_facing h.suffix, ← drop_facing h'.suffix, hpos]

theorem Entries.not_oversized (h : Entries t as rest) : ¬ ListOversized t := by
  intro hlarge
  obtain ⟨u, s, hrun⟩ := objAddrList_oversized hlarge (List.suffix_refl t) (Nat.lt_succ_self _)
  rw [objAddrList_run h (List.suffix_refl t) (Nat.lt_succ_self _)] at hrun
  cases hrun

end Ends

end Corba
