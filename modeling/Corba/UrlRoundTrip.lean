/-
Printing locations and names, and parsing what was printed.

A location that has been printed is parsed as what it was.  A name is not: its key is cut out of the
middle of the text, and what is cut out is longer than the key.

Main definitions:

* `Corba.Printable`, `Corba.Plain` — the addresses, keys and names in question;
* `Corba.nameText` — the text of a name;
* `Corba.Separated`, `Corba.Reparsed` — the key and the name are told from each other, and the
  printed form is a fixed point.

Main results:

* `Corba.entries_addrText` — printed addresses are taken from a text;
* `Corba.decodeURI_str` — printing and parsing locations are inverse;
* `Corba.separated_iff` — when the key of a name is told from the name.
-/

import Corba.UrlLanguage
import Corba.UrlWhole

set_option relaxedAutoImplicit false
set_option autoImplicit false

namespace Corba

open Exec UrlLexer UrlParser
open UrlLanguage (ends_lit ends_nil)

/-! ### What is printed -/

/-- A letter or a digit, and then letters, digits and hyphens. -/
def IsLabel (l : Octets) : Prop :=
  ∃ c cs, l = c :: cs ∧ isalnum c = true ∧ ∀ c ∈ cs, isLabelChar c = true

/-- Labels with dots between them, or an address between brackets. -/
inductive IsHost : Octets → Prop
  | labels (ls : List Octets) (hne : ls ≠ []) (hls : ∀ l ∈ ls, IsLabel l) :
      IsHost ((ascii ".").intercalate ls)
  | bracket (t : Octets) (h : 93 ∉ t) : IsHost (ascii "[" ++ (t ++ ascii "]"))

/-- The addresses of a location that can be printed. -/
inductive Printable : ObjectAddress → Prop
  | rir : Printable { proto := ascii "rir" }
  | iiop (major minor : UInt8) {host : Octets} (port : UInt16) (h : IsHost host) :
      Printable { proto := ascii "iiop", major, minor, host, port }

/-- Characters of a URI that stand for themselves. -/
def Plain (k : Octets) : Prop := ∀ c ∈ k, isUriChar c = true ∧ c ≠ 37

/-- How addresses are printed. -/
def addrText (as : List ObjectAddress) : Octets := as.foldl CorbaLocation.strAddress []

/-- How an address is printed. -/
def ObjectAddress.text (a : ObjectAddress) : Octets := CorbaLocation.strAddress [] a

theorem ObjectAddress.text_iiop (major minor : UInt8) (host : Octets) (port : UInt16) :
    ObjectAddress.text { proto := ascii "iiop", major, minor, host, port } =
      ascii "iiop:" ++ (decimal major.toNat ++ (ascii "." ++ (decimal minor.toNat ++
        (ascii "@" ++ (host ++ (ascii ":" ++ decimal port.toNat)))))) := by
  rw [ObjectAddress.text, CorbaLocation.strAddress]
  dsimp only
  rw [if_pos rfl, if_neg (show ¬ ([] : Octets).length ≠ 0 by decide)]
  simp only [List.append_assoc, List.nil_append]
  rfl

theorem Printable.text_ne_nil {a : ObjectAddress} (h : Printable a) : a.text ≠ [] := by
  cases h with
  | rir => exact List.cons_ne_nil _ _
  | iiop major minor port h =>
      rw [ObjectAddress.text_iiop]
      exact List.cons_ne_nil _ _

/-- Behind other addresses there is a comma in front. -/
theorem Printable.strAddress {a : ObjectAddress} (h : Printable a) {txt : Octets} (hne : txt ≠ []) :
    CorbaLocation.strAddress txt a = txt ++ (ascii "," ++ a.text) := by
  have hlen : txt.length ≠ 0 := by
    rw [Ne, List.length_eq_zero_iff]
    exact hne
  cases h with
  | rir =>
      rw [CorbaLocation.strAddress, if_pos hlen]
      dsimp only
      rw [if_neg (by decide), if_pos rfl, List.append_assoc]
      rfl
  | iiop major minor port h =>
      rw [CorbaLocation.strAddress, if_pos hlen, ObjectAddress.text_iiop]
      dsimp only
      rw [if_pos rfl]
      simp only [List.append_assoc]
      rfl

theorem addrText_cons {as : List ObjectAddress} (h : ∀ a ∈ as, Printable a) (a : ObjectAddress)
    (ha : Printable a) :
    addrText (a :: as) = a.text ++ as.flatMap fun a => ascii "," ++ a.text := by
  -- behind the first address the text is not empty any more
  have hfold : ∀ (as : List ObjectAddress) (txt : Octets), (∀ a ∈ as, Printable a) → txt ≠ [] →
      as.foldl CorbaLocation.strAddress txt =
        txt ++ as.flatMap fun a => ascii "," ++ a.text := by
    intro as
    induction as with
    | nil =>
        intro txt _ _
        simp
    | cons a as ih =>
        intro txt has hne
        rw [List.foldl_cons, (has a List.mem_cons_self).strAddress hne,
          ih _ (fun b hb => has b (List.mem_cons_of_mem _ hb)) (List.append_ne_nil_of_left_ne_nil hne _),
          List.flatMap_cons, List.append_assoc]
  exact hfold as _ h ha.text_ne_nil

/-! ### Printed addresses are taken from a text -/

section Taken

variable {rest : Octets}

/-- A printed number. -/
theorem numeral_decimal {n : ℕ} (hn : n < 2 ^ 32) (hrest : NoNumeral rest) :
    Numeral (decimal n) rest where
  ne_nil := decimal_ne_nil n
  digits := isDigit_decimal n
  stop := hrest
  fits := by rwa [ofDigits_decimal]

theorem IsLabel.label {l : Octets} (h : IsLabel l)
    (hrest : ∀ c ∈ rest.head?, isLabelChar c = false) : Label (l ++ rest) l rest := by
  obtain ⟨c, cs, rfl, hc, hcs⟩ := h
  exact .cons hc hcs hrest

theorem labels_intercalate {ls : List Octets} (hne : ls ≠ []) (hls : ∀ l ∈ ls, IsLabel l) :
    Labels ((ascii ".").intercalate ls ++ (ascii ":" ++ rest)) ((ascii ".").intercalate ls)
      (ascii ":" ++ rest) := by
  have hcolon : ∀ c ∈ (ascii ":" ++ rest).head?, isLabelChar c = false := by
    rintro c ⟨⟩
    decide
  have hnodot : ¬ ascii "." <+: ascii ":" ++ rest := by
    rintro ⟨t, heq⟩
    exact absurd (List.cons.inj heq).1 (by decide)
  induction ls with
  | nil => exact absurd rfl hne
  | cons l ls ih =>
      have hl : IsLabel l := hls l List.mem_cons_self
      cases ls with
      | nil =>
          rw [List.intercalate_singleton]
          exact .last (hl.label hcolon) hnodot
      | cons l' ls =>
          have htail := ih (List.cons_ne_nil _ _) fun l hl => hls l (List.mem_cons_of_mem _ hl)
          have hdot : ∀ c ∈ (ascii "." ++ ((ascii ".").intercalate (l' :: ls) ++
              (ascii ":" ++ rest))).head?, isLabelChar c = false := by
            rintro c ⟨⟩
            decide
          rw [List.intercalate_cons_cons, List.append_assoc, List.append_assoc, List.append_assoc]
          exact .dot (hl.label hdot) htail

theorem intercalate_head {ls : List Octets} (hne : ls ≠ []) (hls : ∀ l ∈ ls, IsLabel l) :
    ∃ c cs, (ascii ".").intercalate ls = c :: cs ∧ isalnum c = true := by
  cases ls with
  | nil => exact absurd rfl hne
  | cons l ls =>
      obtain ⟨c, cs, rfl, hc, -⟩ := hls l List.mem_cons_self
      cases ls with
      | nil =>
          rw [List.intercalate_singleton]
          exact ⟨c, cs, rfl, hc⟩
      | cons l' ls =>
          rw [List.intercalate_cons_cons]
          exact ⟨c, _, rfl, hc⟩

theorem IsHost.hosted {h : Octets} (hh : IsHost h) :
    Hosted (h ++ (ascii ":" ++ rest)) h (ascii ":" ++ rest) := by
  cases hh with
  | labels ls hne hls =>
      refine .labels ?_ (labels_intercalate hne hls)
      obtain ⟨c, cs, heq, hc⟩ := intercalate_head hne hls
      rw [heq]
      rintro ⟨t, hbracket⟩
      have hhead : (91 : UInt8) = c := (List.cons.inj hbracket).1
      rw [← hhead] at hc
      exact absurd hc (by decide)
  | bracket t h =>
      have hbracket : Hosted _ _ (ascii ":" ++ rest) := .bracket h
      rwa [← List.append_assoc t, ← List.append_assoc (ascii "[")] at hbracket

theorem IsHost.ne_nil {h : Octets} (hh : IsHost h) : h ≠ [] := by
  cases hh with
  | labels ls hne hls =>
      obtain ⟨c, cs, heq, -⟩ := intercalate_head hne hls
      rw [heq]
      exact List.cons_ne_nil _ _
  | bracket t h => exact List.cons_ne_nil _ _

/-- A printed address is taken from a text in which no digit follows. -/
theorem Printable.entry {a : ObjectAddress} (h : Printable a) (hrest : NoNumeral rest) :
    Entry (a.text ++ rest) a rest := by
  cases h with
  | rir => exact .rir
  | @iiop major minor host port h =>
      have hmajor : major.toNat < 2 ^ 32 := major.toNat_lt.trans (by decide)
      have hminor : minor.toNat < 2 ^ 32 := minor.toNat_lt.trans (by decide)
      have hport : port.toNat < 2 ^ 32 := port.toNat_lt.trans (by decide)
      have hversion := Versioned.version
        (numeral_decimal hmajor ((ends_lit "." (decimal minor.toNat ++ (ascii "@" ++
          (host ++ (ascii ":" ++ (decimal port.toNat ++ rest))))) rfl).stop (by decide)))
        (numeral_decimal hminor ((ends_lit "@" _ rfl).stop (by decide)))
      have hentry := Entry.iiop (Or.inl rfl) hversion h.hosted
        (Ported.port (numeral_decimal hport hrest))
      rw [ofDigits_decimal, ofDigits_decimal, ofDigits_decimal] at hentry
      simp only [ObjectAddress.withVersion, ObjectAddress.withHost, ObjectAddress.withPort,
        if_neg h.ne_nil, UInt8.ofNat_toNat, UInt16.ofNat_toNat] at hentry
      rw [ObjectAddress.text_iiop]
      simp only [List.append_assoc]
      exact hentry

/-- **Printed addresses are taken from a text** in which neither a digit nor a comma follows. -/
theorem entries_addrText {as : List ObjectAddress} (hne : as ≠ []) (has : ∀ a ∈ as, Printable a)
    (hrest : NoNumeral rest) (hcomma : ¬ ascii "," <+: rest) :
    Entries (addrText as ++ rest) as rest := by
  induction as with
  | nil => exact absurd rfl hne
  | cons a as ih =>
      have ha : Printable a := has a List.mem_cons_self
      have has' : ∀ b ∈ as, Printable b := fun b hb => has b (List.mem_cons_of_mem _ hb)
      rw [addrText_cons has' a ha]
      cases as with
      | nil =>
          rw [List.flatMap_nil, List.append_nil]
          exact .last (ha.entry hrest) hcomma
      | cons b bs =>
          have htail := ih (List.cons_ne_nil _ _) has'
          have hb : Printable b := has' b List.mem_cons_self
          rw [addrText_cons (fun c hc => has' c (List.mem_cons_of_mem _ hc)) b hb] at htail
          rw [List.flatMap_cons, List.append_assoc, List.append_assoc, List.append_assoc]
          rw [List.append_assoc] at htail
          exact .cons (ha.entry ((ends_lit "," _ rfl).stop (by decide))) htail

end Taken

/-! ### Locations -/

/-- A text without escapes is what it decodes to. -/
theorem _decodeURI_of_plain {s : Octets} (h : 37 ∉ s) : _decodeURI s = .ok s := by
  have hloop : ∀ (s : Octets) (ii : Option ℤ), 37 ∉ s → decodeEscapes s ii = .ok s := by
    intro s
    induction s with
    | nil =>
        intro ii _
        rfl
    | cons c s ih =>
        intro ii h
        have hc : c ≠ 37 := fun heq => h (heq ▸ List.mem_cons_self)
        rw [decodeEscapes, if_neg hc, ih ii fun hs => h (List.mem_cons_of_mem _ hs)]
        rfl
  exact hloop s none h

theorem Plain.not_mem {k : Octets} (h : Plain k) : 37 ∉ k := fun hmem => (h 37 hmem).2 rfl

theorem Plain.uriChars {k rest : Octets} (h : Plain k) (hrest : ∀ c ∈ rest.head?, isUriChar c = false) :
    UriChars k rest := ⟨fun c hc => (h c hc).1, hrest⟩

theorem _str_eq (loc : CorbaLocation) : loc._str =
    addrText loc.addr ++ if loc.objectKey = [] then [] else ascii "/" ++ loc.objectKey := by
  rw [CorbaLocation._str]
  by_cases hnil : loc.objectKey = []
  · have hlen : ¬ loc.objectKey.length ≠ 0 := by simp [hnil]
    rw [if_neg hlen, if_pos hnil, List.append_nil, addrText]
  · have hlen : loc.objectKey.length ≠ 0 := by
      rw [Ne, List.length_eq_zero_iff]
      exact hnil
    rw [if_pos hlen, if_neg hnil, addrText]

/-- Printed addresses in front of a key. -/
theorem entries_key {as : List ObjectAddress} (hne : as ≠ []) (haddr : ∀ a ∈ as, Printable a)
    (t : Octets) : Entries (addrText as ++ (ascii "/" ++ t)) as (ascii "/" ++ t) :=
  entries_addrText hne haddr ((ends_lit "/" t rfl).stop (by decide))
    ((ends_lit "/" t rfl).not_begins rfl (by decide))

/-- **Printing and parsing locations are inverse.** -/
theorem decodeURI_str [Platform] (loc : CorbaLocation) (hne : loc.addr ≠ [])
    (haddr : ∀ a ∈ loc.addr, Printable a) (hkey : Plain loc.objectKey) :
    decodeURI loc.str = .ok (.location loc) := by
  obtain ⟨addr, objectKey⟩ := loc
  rw [CorbaLocation.str, decodeURI_corbaloc, _str_eq]
  by_cases hnil : objectKey = []
  · subst hnil
    have hentries := entries_addrText hne haddr (ends_nil.stop (by decide))
      (ends_nil.not_begins rfl (by decide))
    rw [if_pos rfl, corbaloc_addr hentries (ends_nil.not_begins rfl (by decide)) _
      (List.suffix_append _ _)]
    rfl
  · have hentries := entries_key hne haddr objectKey
    have hchars : UriChars objectKey [] := hkey.uriChars (by simp)
    rw [if_neg hnil]
    have hrun := corbaloc_key (by rw [List.append_nil]; exact hentries) hchars {}
      (List.suffix_append (ascii "corbaloc:") _)
    have hcut : cut (ascii "corbaloc:" ++ (addrText addr ++ (ascii "/" ++ objectKey))) objectKey [] =
        .ok objectKey := by
      rw [cut, if_neg hnil, List.append_nil, List.take_of_length_le, _decodeURI_of_plain hkey.not_mem]
      simp only [List.length_append, List.length_nil]
      omega
    rw [hrun, outcome_lift, hcut]
    rfl

/-- A location with two addresses and a key. -/
theorem decodeURI_str_two :
    letI : Platform := ⟨.little⟩
    decodeURI (CorbaLocation.str ⟨[{ proto := ascii "rir" },
      { major := 1, minor := 2, host := ascii "127.0.0.1", port := 8080 }], ascii "Prod/Trading"⟩) =
      .ok (.location ⟨[{ proto := ascii "rir" },
        { major := 1, minor := 2, host := ascii "127.0.0.1", port := 8080 }],
        ascii "Prod/Trading"⟩) := by
  have hhost : IsHost (ascii "127.0.0.1") := by
    have h := IsHost.labels [ascii "127", ascii "0", ascii "0", ascii "1"] (List.cons_ne_nil _ _) (by
      intro l hl
      simp only [List.mem_cons, List.not_mem_nil, or_false] at hl
      rcases hl with rfl | rfl | rfl | rfl <;> exact ⟨_, _, rfl, by decide, forall_mem_of_all (by decide)⟩)
    exact h
  refine @decodeURI_str ⟨.little⟩ _ (List.cons_ne_nil _ _) ?_ ?_
  · intro a ha
    simp only [List.mem_cons, List.not_mem_nil, or_false] at ha
    rcases ha with rfl | rfl
    · exact .rir
    · exact .iiop 1 2 8080 hhost
  · exact forall_mem_of_all (by decide)

/-! ### Names -/

/-- The text of a name: addresses, a key and a name. -/
def nameText (as : List ObjectAddress) (key name : Octets) : Octets :=
  ascii "corbaname:" ++ (addrText as ++ (ascii "/" ++ (key ++ (ascii "#" ++ name))))

/-- The key and the name are told from each other. -/
def Separated [Platform] (as : List ObjectAddress) (key name : Octets) : Prop :=
  ∃ v : CorbaName, decodeURI (nameText as key name) = .ok (.name v) ∧ v.objectKey = key ∧
    v.name = name

/-- What a name is printed as is parsed as something that is printed the same. -/
def Reparsed [Platform] (as : List ObjectAddress) (key name : Octets) : Prop :=
  ∃ v v' : CorbaName, decodeURI (nameText as key name) = .ok (.name v) ∧
    decodeURI v.str = .ok (.name v') ∧ v'.str = v.str

section Names

variable {as : List ObjectAddress} {key name rest : Octets}

theorem CorbaName.str_eq (v : CorbaName) : v.str =
    ascii "corbaname:" ++ (v.toCorbaLocation._str ++
      if v.name = [] then [] else ascii "#" ++ v.name) := by
  rw [CorbaName.str]
  by_cases hnil : v.name = []
  · have hlen : ¬ v.name.length > 0 := by simp [hnil]
    rw [if_neg hlen, if_pos hnil, List.append_nil]
  · rw [if_pos (List.length_pos_iff.2 hnil), if_neg hnil, List.append_assoc]

/-- A name with a key is printed as its text. -/
theorem CorbaName.str_text (hkey : key ≠ []) (hname : name ≠ []) :
    CorbaName.str ⟨⟨as, key⟩, name⟩ = nameText as key name := by
  rw [CorbaName.str_eq, _str_eq]
  dsimp only
  rw [if_neg hkey, if_neg hname, List.append_assoc, List.append_assoc, nameText]

theorem Plain.not_hash {k : Octets} (h : Plain k) : 35 ∉ k := by
  intro hmem
  exact absurd (h 35 hmem).1 (by decide)

/-- What is decoded for a key that is not empty goes on behind the key. -/
theorem cut_hash {D : Octets} (hne : key ≠ []) (hkey : 37 ∉ key) (hrest : 37 ∉ rest)
    (hD : key.length + (ascii "#" ++ rest).length < D.length) :
    ∃ n, 0 < n ∧ D.length = key.length + (ascii "#" ++ rest).length + n ∧
      cut D key (ascii "#" ++ rest) = .ok (key ++ (ascii "#" ++ rest.take (n - 1))) := by
  obtain ⟨n, hn⟩ := Nat.exists_eq_add_of_lt hD
  refine ⟨n + 1, Nat.succ_pos n, by omega, ?_⟩
  -- what is decoded has as many characters more as there are in front of the key
  have hsize : D.length - (ascii "#" ++ rest).length = key.length + (n + 1) := by omega
  have htake : (key ++ (ascii "#" ++ rest)).take (key.length + (n + 1)) =
      key ++ (ascii "#" ++ rest.take n) := by
    rw [List.take_length_add_append]
    rfl
  rw [cut, if_neg hne, hsize, htake, Nat.add_sub_cancel, _decodeURI_of_plain]
  simp only [List.mem_append, not_or]
  exact ⟨hkey, by decide, fun h => hrest (List.mem_of_mem_take h)⟩

/-- A name with a key, each as far as it is decoded. -/
theorem decodeURI_keyed [Platform] {t k m key name : Octets}
    (h : Entries t as (ascii "/" ++ (k ++ (ascii "#" ++ (m ++ rest)))))
    (hk : ∀ c ∈ k, isUriChar c = true) (hm : UriChars m rest) (hne : m ≠ [])
    (hkey : cut (ascii "corbaname:" ++ t) k (ascii "#" ++ (m ++ rest)) = .ok key)
    (hname : cut (ascii "corbaname:" ++ t) m rest = .ok name) :
    decodeURI (ascii "corbaname:" ++ t) = .ok (.name ⟨⟨as, key⟩, name⟩) := by
  have hD : t <:+ ascii "corbaname:" ++ t := List.suffix_append _ _
  have hloc := corbaloc_key h ⟨hk, (ends_lit "#" _ rfl).stop (by decide)⟩
    { objectKey := ascii "NameService" } hD
  rw [hkey] at hloc
  have hrun := @corbaname_name _ _ _ _ {} _ hloc hm hne
    (suffix_right (suffix_right (h.suffix.trans hD)))
  rw [decodeURI_corbaname, hrun, outcome_lift, hname]
  rfl

/-- The name goes on to the end of the text. -/
theorem cut_end {D : Octets} (hname : 37 ∉ name) (hD : name.length ≤ D.length) :
    cut D name [] = .ok name := by
  rw [cut]
  by_cases hnil : name = []
  · rw [if_pos hnil, hnil]
  · rw [if_neg hnil, List.append_nil, List.take_of_length_le (by simpa using hD),
      _decodeURI_of_plain hname]

/-- Without a key the name is what it should be. -/
theorem decodeURI_keyless [Platform] (hne : as ≠ []) (haddr : ∀ a ∈ as, Printable a)
    (hname : Plain name) (hnonempty : name ≠ []) :
    decodeURI (nameText as [] name) = .ok (.name ⟨⟨as, []⟩, name⟩) := by
  have hentries := entries_key hne haddr ([] ++ (ascii "#" ++ (name ++ [])))
  have hrun := decodeURI_keyed hentries (by simp) (hname.uriChars (by simp)) hnonempty
    (by rw [cut, if_pos rfl]) (cut_end hname.not_mem (by simp only [List.length_append]; omega))
  rw [List.append_nil] at hrun
  exact hrun

/-- With a key, the key goes on into the name. -/
theorem decodeURI_nameText [Platform] (hne : as ≠ []) (haddr : ∀ a ∈ as, Printable a)
    (hkey : Plain key) (hname : Plain name) (hnonempty : name ≠ []) (hkeyed : key ≠ []) :
    ∃ m, Plain m ∧ m ≠ [] ∧ decodeURI (nameText as key name) =
      .ok (.name ⟨⟨as, key ++ (ascii "#" ++ m)⟩, name⟩) := by
  have hlen : (nameText as key name).length =
      key.length + (ascii "#" ++ name).length + ((addrText as).length + 11) := by
    simp only [nameText, List.length_append]
    have hone : (ascii "/").length = 1 := rfl
    have hten : (ascii "corbaname:").length = 10 := rfl
    omega
  obtain ⟨n, hn, hsize, hcut⟩ := cut_hash (D := nameText as key name) hkeyed hkey.not_mem
    hname.not_mem (by omega)
  refine ⟨name.take (n - 1), fun c hc => hname c (List.mem_of_mem_take hc), ?_, ?_⟩
  · obtain ⟨c, cs, rfl⟩ := List.exists_cons_of_ne_nil hnonempty
    obtain ⟨m, hm⟩ : ∃ m, n - 1 = m + 1 := ⟨n - 2, by omega⟩
    rw [hm, List.take_succ_cons]
    exact List.cons_ne_nil _ _
  · have hentries := entries_key hne haddr (key ++ (ascii "#" ++ (name ++ [])))
    rw [List.append_nil] at hentries
    have hchars : UriChars name [] := hname.uriChars (by simp)
    refine decodeURI_keyed (by rw [List.append_nil]; exact hentries) (fun c hc => (hkey c hc).1)
      hchars hnonempty ?_ ?_
    · rw [List.append_nil]
      exact hcut
    · refine cut_end hname.not_mem ?_
      simp only [List.length_append]
      omega

/-- A name without a key is given one when it is parsed again. -/
theorem decodeURI_str_keyless [Platform] (hne : as ≠ []) (haddr : ∀ a ∈ as, Printable a)
    (hname : Plain name) (hnonempty : name ≠ []) :
    decodeURI (CorbaName.str ⟨⟨as, []⟩, name⟩) =
      .ok (.name ⟨⟨as, ascii "NameService"⟩, name⟩) := by
  have hentries := entries_addrText hne haddr ((ends_lit "#" (name ++ []) rfl).stop (by decide))
    ((ends_lit "#" _ rfl).not_begins rfl (by decide))
  have hD := List.suffix_append (ascii "corbaname:") (addrText as ++ (ascii "#" ++ (name ++ [])))
  have hloc := corbaloc_addr hentries ((ends_lit "#" _ rfl).not_begins rfl (by decide))
    { objectKey := ascii "NameService" } hD
  have hrun := @corbaname_name _ _ _ _ {} _ hloc (hname.uriChars (by simp)) hnonempty
    (hentries.suffix.trans hD)
  rw [cut_end hname.not_mem (by simp only [List.length_append]; omega)] at hrun
  rw [CorbaName.str_eq, _str_eq]
  dsimp only
  rw [if_pos rfl, if_neg hnonempty, List.append_nil, decodeURI_corbaname]
  rw [List.append_nil] at hrun
  rw [hrun]
  rfl

theorem count_hash_nameText (as : List ObjectAddress) (key name : Octets) :
    (nameText as key name).count 35 =
      (addrText as).count 35 + key.count 35 + name.count 35 + 1 := by
  have hname : (ascii "corbaname:").count 35 = 0 := rfl
  have hslash : (ascii "/").count 35 = 0 := rfl
  have hhash : (ascii "#").count 35 = 1 := rfl
  simp only [nameText, List.count_append]
  omega

theorem count_hash_append (xs ys : Octets) : 0 < (xs ++ (ascii "#" ++ ys)).count 35 := by
  have hhash : (ascii "#").count 35 = 1 := rfl
  simp only [List.count_append]
  omega

theorem Plain.count_hash {k : Octets} (h : Plain k) : k.count 35 = 0 :=
  List.count_eq_zero_of_not_mem h.not_hash

theorem Reparsed.not_keyless [Platform] (hne : as ≠ []) (haddr : ∀ a ∈ as, Printable a)
    (hname : Plain name) (hnonempty : name ≠ []) : ¬ Reparsed as [] name := by
  rintro ⟨v, v', hv, hv', hstr⟩
  rw [decodeURI_keyless hne haddr hname hnonempty] at hv
  cases hv
  rw [decodeURI_str_keyless hne haddr hname hnonempty] at hv'
  cases hv'
  have hlen := congrArg List.length hstr
  rw [CorbaName.str_eq, CorbaName.str_eq, _str_eq, _str_eq] at hlen
  dsimp only at hlen
  have hkey : ¬ ascii "NameService" = [] := List.cons_ne_nil _ _
  have heleven : (ascii "NameService").length = 11 := rfl
  rw [if_pos rfl, if_neg hkey] at hlen
  simp only [List.length_append, List.length_nil] at hlen
  omega

/-- A name with a key has a longer key and a longer name when it is parsed again. -/
theorem Reparsed.not_keyed [Platform] (hne : as ≠ []) (haddr : ∀ a ∈ as, Printable a)
    (hkey : Plain key) (hname : Plain name) (hnonempty : name ≠ []) (hkeyed : key ≠ []) :
    ¬ Reparsed as key name := by
  rintro ⟨v, v', hv, hv', hstr⟩
  obtain ⟨m, hm, hmne, hrun⟩ := decodeURI_nameText hne haddr hkey hname hnonempty hkeyed
  rw [hrun] at hv
  cases hv
  have hlonger : key ++ (ascii "#" ++ m) ≠ [] := List.append_ne_nil_of_left_ne_nil hkeyed _
  have htext : CorbaName.str ⟨⟨as, key ++ (ascii "#" ++ m)⟩, name⟩ = ascii "corbaname:" ++
      (addrText as ++ (ascii "/" ++ (key ++ (ascii "#" ++ (m ++ (ascii "#" ++ name)))))) := by
    rw [CorbaName.str_text hlonger hnonempty, nameText]
    simp only [List.append_assoc]
  have hmrest : 37 ∉ m ++ (ascii "#" ++ name) := by
    simp only [List.mem_append, not_or]
    exact ⟨hm.not_mem, by decide, hname.not_mem⟩
  have hentries := entries_key hne haddr (key ++ (ascii "#" ++ (m ++ (ascii "#" ++ name))))
  generalize addrText as ++ (ascii "/" ++ (key ++ (ascii "#" ++ (m ++ (ascii "#" ++ name))))) = t
    at htext hentries
  have hlen := (hentries.suffix.trans (List.suffix_append (ascii "corbaname:") t)).length_le
  simp only [List.length_append] at hlen
  have hone : (ascii "/").length = 1 := rfl
  obtain ⟨n, -, -, hkeycut⟩ := cut_hash (D := ascii "corbaname:" ++ t) hkeyed hkey.not_mem hmrest
    (by simp only [List.length_append]; omega)
  obtain ⟨n', -, -, hnamecut⟩ := cut_hash (D := ascii "corbaname:" ++ t) hmne hm.not_mem
    hname.not_mem (by simp only [List.length_append]; omega)
  rw [htext, decodeURI_keyed hentries (fun c hc => (hkey c hc).1)
    ⟨fun c hc => (hm c hc).1, (ends_lit "#" name rfl).stop (by decide)⟩ hmne hkeycut hnamecut]
    at hv'
  cases hv'
  rw [CorbaName.str_text (List.append_ne_nil_of_left_ne_nil hkeyed _)
    (List.append_ne_nil_of_left_ne_nil hmne _), CorbaName.str_text hlonger hnonempty] at hstr
  -- printed for the second time, the name has one `#` more
  have hcount := congrArg (List.count 35) hstr
  rw [count_hash_nameText, count_hash_nameText] at hcount
  have hhash : (ascii "#").count 35 = 1 := rfl
  simp only [List.count_append, hm.count_hash, hname.count_hash, hkey.count_hash] at hcount
  omega

/-- **The key and the name are told from each other only if there is no key**, and what is printed
is never parsed as something that is printed the same. -/
theorem separated_iff [Platform] (as : List ObjectAddress) (hne : as ≠ [])
    (haddr : ∀ a ∈ as, Printable a) (key name : Octets) (hkey : Plain key) (hname : Plain name)
    (hnonempty : name ≠ []) : (Separated as key name ↔ key = []) ∧ ¬ Reparsed as key name := by
  by_cases hkeyed : key = []
  · subst hkeyed
    refine ⟨⟨fun _ => rfl, fun _ => ?_⟩, Reparsed.not_keyless hne haddr hname hnonempty⟩
    exact ⟨_, decodeURI_keyless hne haddr hname hnonempty, rfl, rfl⟩
  · refine ⟨⟨?_, fun h => absurd h hkeyed⟩,
      Reparsed.not_keyed hne haddr hkey hname hnonempty hkeyed⟩
    rintro ⟨v, hv, hvkey, -⟩
    obtain ⟨m, -, -, hrun⟩ := decodeURI_nameText hne haddr hkey hname hnonempty hkeyed
    rw [hrun] at hv
    cases hv
    have hpos := count_hash_append key m
    dsimp only at hvkey
    rw [hvkey, hkey.count_hash] at hpos
    exact absurd hpos (lt_irrefl 0)

theorem plain_key : Plain (ascii "Key") := forall_mem_of_all (by decide)

theorem plain_a : Plain (ascii "a") := forall_mem_of_all (by decide)

theorem printable_rir : ∀ a ∈ [({ proto := ascii "rir" } : ObjectAddress)], Printable a := by
  intro a ha
  rw [List.mem_singleton] at ha
  rw [ha]
  exact .rir

/-- A name without a key. -/
theorem separated_keyless :
    letI : Platform := ⟨.little⟩
    Separated [{ proto := ascii "rir" }] [] (ascii "a") ∧
      ¬ Reparsed [{ proto := ascii "rir" }] [] (ascii "a") := by
  have h := @separated_iff ⟨.little⟩ [{ proto := ascii "rir" }] (List.cons_ne_nil _ _) printable_rir
    [] (ascii "a") (fun c hc => absurd hc List.not_mem_nil) plain_a (List.cons_ne_nil _ _)
  exact ⟨h.1.2 rfl, h.2⟩

/-- `corbaname:rir:/Key#a` has the key `Key#a`. -/
theorem not_separated_key :
    letI : Platform := ⟨.little⟩
    ¬ ∀ (as : List ObjectAddress) (key name : Octets), as ≠ [] → (∀ a ∈ as, Printable a) →
      Plain key → Plain name → name ≠ [] → Separated as key name ∧ Reparsed as key name := by
  let platform : Platform := ⟨.little⟩
  intro h
  obtain ⟨⟨v, hv, hkey, -⟩, -⟩ := h [{ proto := ascii "rir" }] (ascii "Key") (ascii "a")
    (List.cons_ne_nil _ _) printable_rir plain_key plain_a (List.cons_ne_nil _ _)
  have hrun : decodeURI (nameText [{ proto := ascii "rir" }] (ascii "Key") (ascii "a")) =
      .ok (.name ⟨⟨[{ proto := ascii "rir" }], ascii "Key#a"⟩, ascii "a"⟩) := rfl
  rw [hrun] at hv
  cases hv
  exact absurd hkey (by decide)

end Names

end Corba
