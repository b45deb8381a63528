/-
Which texts are accepted.

The parser throws where an address is expected and there is none.  Behind the addresses it takes what
it can, and nobody looks at what is left of the text.  Escapes are not checked at all.

Main definitions:

* `Corba.OnlyWhole` — only whole URIs are accepted, and other texts are answered with an exception;
* `Corba.Decodes` — the characters behind a mark can be decoded;
* `Corba.Leftover` — the addresses are followed by what should not follow them.

Main results:

* `Corba.UrlParser.corbaloc_decodes`, `Corba.UrlParser.corbaname_decodes` — what is behind the
  addresses is found exactly when it can be decoded, and nothing is thrown otherwise;
* `Corba.onlyWhole_iff` — exactly when a text is told from the URIs.
-/

import Corba.UrlLanguage
import Corba.UrlWhole

set_option relaxedAutoImplicit false
set_option autoImplicit false

namespace Corba

open Exec Language UrlLanguage

/-! ### Keys and names -/

/-- A computation that throws no exception. -/
def Settles {α : Type} (x : Except Fault α) : Prop :=
  (∃ a, x = .ok a) ∨ ∃ u, x = .error (.undefined u)

theorem Settles.map {α β : Type} {x : Except Fault α} (h : Settles x) (f : α → β) :
    Settles (x.map f) := by
  rcases h with ⟨a, rfl⟩ | ⟨u, rfl⟩
  · exact Or.inl ⟨f a, rfl⟩
  · exact Or.inr ⟨u, rfl⟩

theorem Settles.not_thrown {α : Type} {x : Except Fault α} (h : Settles x) (t : Thrown) :
    x ≠ .error (.thrown t) := by
  rcases h with ⟨a, rfl⟩ | ⟨u, rfl⟩ <;> rintro ⟨⟩

theorem settles_decodeEscapes (s : Octets) (ii : Option ℤ) : Settles (decodeEscapes s ii) := by
  fun_induction decodeEscapes s ii with
  | case1 => exact Or.inl ⟨_, rfl⟩
  | case2 => exact Or.inr ⟨_, rfl⟩
  | case3 _ _ _ _ _ _ _ ih => exact ih.map _
  | case4 => exact Or.inl ⟨_, rfl⟩
  | case5 _ _ _ _ ih => exact ih.map _

theorem settles_cut (D k rest : Octets) : Settles (cut D k rest) := by
  rw [cut]
  split
  · exact Or.inl ⟨_, rfl⟩
  · exact settles_decodeEscapes _ none

/-! ### Behind the addresses -/

/-- The characters of a URI behind the mark, if it stands there, can be decoded. -/
def Decodes (D : Octets) (mark : String) (t : Octets) : Prop :=
  ∀ k rest, t = ascii mark ++ (k ++ rest) → UriChars k rest → ∃ x, cut D k rest = .ok x

/-- What stands behind the key, if there is one. -/
def behindKey : Octets → Octets
  | 47 :: t => t.dropWhile isUriChar
  | t => t

section Behind

variable {D t k rest : Octets}

theorem UriChars.dropWhile (h : UriChars k rest) : (k ++ rest).dropWhile isUriChar = rest := by
  rw [List.dropWhile_append_of_pos h.chars]
  cases rest with
  | nil => rfl
  | cons c rest => exact List.dropWhile_cons_of_neg (by rw [h.stop c rfl]; exact Bool.false_ne_true)

theorem UriChars.unique {k' rest' : Octets} (h : UriChars k rest) (h' : UriChars k' rest')
    (heq : k ++ rest = k' ++ rest') : k = k' ∧ rest = rest' := by
  have hrest : rest = rest' := by rw [← h.dropWhile, heq, h'.dropWhile]
  subst hrest
  exact ⟨List.append_cancel_right heq, rfl⟩

theorem behindKey_key (h : UriChars k rest) : behindKey (ascii "/" ++ (k ++ rest)) = rest :=
  h.dropWhile

theorem behindKey_plain (h : ¬ ascii "/" <+: t) : behindKey t = t := by
  cases t with
  | nil => rfl
  | cons c t =>
      have hc : c ≠ 47 := by
        rintro rfl
        exact h ⟨t, rfl⟩
      rw [behindKey]
      rintro t' heq
      exact hc (List.cons.inj heq).1

theorem decodes_iff {mark : String} (h : UriChars k rest) :
    Decodes D mark (ascii mark ++ (k ++ rest)) ↔ ∃ x, cut D k rest = .ok x := by
  refine ⟨fun hall => hall k rest rfl h, fun hx k' rest' heq hk' => ?_⟩
  obtain ⟨rfl, rfl⟩ := h.unique hk' (List.append_cancel_left heq)
  exact hx

theorem decodes_plain {mark : String} (h : ¬ ascii mark <+: t) : Decodes D mark t :=
  fun k rest heq _ => absurd ⟨k ++ rest, heq.symm⟩ h

namespace UrlParser

open UrlLexer

variable {as : List ObjectAddress}

/-- A location is found exactly when its key can be decoded. -/
theorem corbaloc_decodes (h : Entries t as rest) (loc : CorbaLocation) (hD : t <:+ D) :
    (Decodes D "/" rest ∧ ∃ loc', loc'.addr = loc.addr ++ as ∧ behindKey rest <:+ D ∧
        corbaloc loc (facing D t) = .ok loc' (facing D (behindKey rest))) ∨
      ¬ Decodes D "/" rest ∧ Undefines (corbaloc loc) (facing D t) := by
  by_cases hkey : ascii "/" <+: rest
  · obtain ⟨t', rfl⟩ := hkey
    obtain ⟨k, rest', rfl, hk⟩ := exists_uriChars t'
    have hD' := suffix_right (suffix_right (h.suffix.trans hD))
    have hrun := corbaloc_key h hk loc hD
    rw [decodes_iff hk, behindKey_key hk]
    rcases settles_cut D k rest' with ⟨key, hcut⟩ | ⟨u, hcut⟩
    · rw [hcut] at hrun
      exact Or.inl ⟨⟨key, hcut⟩, _, rfl, hD', hrun⟩
    · rw [hcut] at hrun
      refine Or.inr ⟨?_, _, _, hrun⟩
      rintro ⟨x, hx⟩
      rw [hcut] at hx
      cases hx
  · rw [behindKey_plain hkey]
    exact Or.inl ⟨decodes_plain hkey, _, rfl, h.suffix.trans hD, corbaloc_addr h hkey loc hD⟩

/-- A name is found exactly when it and the key can be decoded. -/
theorem corbaname_decodes (h : Entries t as rest) (name : CorbaName) (hD : t <:+ D) :
    ((Decodes D "/" rest ∧ Decodes D "#" (behindKey rest)) ∧ ∃ name', name'.addr = name.addr ++ as ∧
        outcome (corbaname name (facing D t)) = .ok name') ∨
      ¬ (Decodes D "/" rest ∧ Decodes D "#" (behindKey rest)) ∧
        ∃ u, outcome (corbaname name (facing D t)) = .error (.undefined u) := by
  rcases corbaloc_decodes h name.toCorbaLocation hD with ⟨hkey, loc, hloc, hD', hrun⟩ | ⟨hkey, hundef⟩
  · by_cases hname : ascii "#" <+: behindKey rest
    · obtain ⟨t', hbehind⟩ := hname
      obtain ⟨k, rest', rfl, hk⟩ := exists_uriChars t'
      rw [← hbehind] at hD' hrun ⊢
      rw [decodes_iff hk]
      by_cases hne : k = []
      · subst hne
        have huri : uri (facing D rest') = .ok none (facing D rest') :=
          uri_none (suffix_right hD') hk.stop
        refine Or.inl ⟨⟨hkey, [], if_pos rfl⟩, { name with addr := loc.addr, objectKey := loc.objectKey },
          hloc, ?_⟩
        rw [corbaname, bind_ok hrun, bind_ok (matchText_run hD'), if_pos rfl, List.nil_append,
          bind_ok huri]
        rfl
      · rw [corbaname_name hrun hk hne hD', outcome_lift]
        rcases settles_cut D k rest' with ⟨x, hcut⟩ | ⟨u, hcut⟩
        · rw [hcut]
          exact Or.inl ⟨⟨hkey, x, rfl⟩, _, hloc, rfl⟩
        · rw [hcut]
          refine Or.inr ⟨?_, u, rfl⟩
          rintro ⟨-, x, ⟨⟩⟩
    · rw [corbaname_plain hrun hname hD']
      exact Or.inl ⟨⟨hkey, decodes_plain hname⟩, _, hloc, rfl⟩
  · obtain ⟨u, s, hundef⟩ : Undefines (corbaname name) (facing D t) := by
      rw [corbaname]
      exact hundef.bind
    rw [hundef]
    exact Or.inr ⟨fun hall => hkey hall.1, u, rfl⟩

end UrlParser

end Behind

/-! ### What a text comes to -/

namespace UrlParser

open UrlLexer

variable {D t rest : Octets} {as : List ObjectAddress}

/-- What a location with well taken addresses comes to. -/
theorem corbaloc_settles (h : Entries t as rest) (loc : CorbaLocation) (hD : t <:+ D) :
    (∃ loc' rest', rest' <:+ D ∧ corbaloc loc (facing D t) = .ok loc' (facing D rest')) ∨
      Undefines (corbaloc loc) (facing D t) := by
  rcases corbaloc_decodes h loc hD with ⟨-, loc', -, hD', hrun⟩ | ⟨-, hundefined⟩
  · exact Or.inl ⟨loc', _, hD', hrun⟩
  · exact Or.inr hundefined

/-- What a name with well taken addresses comes to. -/
theorem corbaname_settles (h : Entries t as rest) (name : CorbaName) (hD : t <:+ D) :
    Settles (outcome (corbaname name (facing D t))) := by
  rcases corbaname_decodes h name hD with ⟨-, name', -, hrun⟩ | ⟨-, u, hrun⟩
  · exact Or.inl ⟨name', hrun⟩
  · exact Or.inr ⟨u, hrun⟩

theorem raises_corbaloc (h : Breaks t) (loc : CorbaLocation) (hD : t <:+ D) :
    Raises (corbaloc loc) (facing D t) := by
  rw [corbaloc]
  refine Raises.of_rest (get_run _) ?_
  exact (objAddrList_breaks h hD (Nat.lt_succ_of_le hD.length_le)).bind

theorem raises_corbaname (h : Breaks t) (name : CorbaName) (hD : t <:+ D) :
    Raises (corbaname name) (facing D t) := by
  rw [corbaname]
  exact (raises_corbaloc h _ hD).bind

theorem undefines_corbaloc (h : ListOversized t) (loc : CorbaLocation) (hD : t <:+ D) :
    Undefines (corbaloc loc) (facing D t) := by
  rw [corbaloc]
  refine Undefines.of_rest (get_run _) ?_
  exact (objAddrList_oversized h hD (Nat.lt_succ_of_le hD.length_le)).bind

theorem undefines_corbaname (h : ListOversized t) (name : CorbaName) (hD : t <:+ D) :
    Undefines (corbaname name) (facing D t) := by
  rw [corbaname]
  exact (undefines_corbaloc h _ hD).bind

end UrlParser

/-! ### Whole texts -/

/-- Only URIs are accepted, and all other texts are answered with an exception. -/
def OnlyWhole [Platform] (s : Octets) : Prop :=
  (∀ v, decodeURI s = .ok v → s ∈ uris) ∧ (s ∉ uris → ∃ x, decodeURI s = .error (.thrown x))

/-- The addresses are followed by what is not in the language of what should follow them. -/
def Leftover (l : Language UInt8) (t : Octets) : Prop := ∃ as rest, Entries t as rest ∧ rest ∉ l

/-- How a text is answered with the addresses `t` and what follows them. -/
structure Answers [Platform] (s t : Octets) (l : Language UInt8) : Prop where
  mem : s ∈ uris ↔ t ∈ addresses * l
  ends : ∀ w ∈ l, Ends "/#" w
  entries : ∀ as rest, Entries t as rest → Settles (decodeURI s)
  breaks : Breaks t → ∃ x, decodeURI s = .error (.thrown x)
  oversized : ListOversized t → ∃ u, decodeURI s = .error (.undefined u)

section Answers

variable [Platform] {s t : Octets} {l : Language UInt8}

theorem Answers.whole_iff (h : Answers s t l) :
    OnlyWhole s ↔ ¬ Leftover l t ∧ (ListOversized t → t ∈ addresses * l) := by
  constructor
  · rintro ⟨-, hreject⟩
    refine ⟨?_, fun hlarge => ?_⟩
    · rintro ⟨as, rest, has, hrest⟩
      have hnot : s ∉ uris := by
        rw [h.mem, mem_iff_of_entries has h.ends]
        exact hrest
      obtain ⟨x, hx⟩ := hreject hnot
      exact (h.entries as rest has).not_thrown x hx
    · by_contra hnot
      rw [← h.mem] at hnot
      obtain ⟨x, hx⟩ := hreject hnot
      obtain ⟨u, hu⟩ := h.oversized hlarge
      rw [hu] at hx
      cases hx
  · rintro ⟨hleft, hlarge⟩
    -- of a URI nothing is claimed but that it is one
    have hmember : s ∈ uris → OnlyWhole s := fun hs => ⟨fun _ _ => hs, fun hnot => absurd hs hnot⟩
    rcases entries_cases t with ⟨as, rest, has⟩ | hbreaks | hover
    · refine hmember (h.mem.2 ((mem_iff_of_entries has h.ends).2 ?_))
      by_contra hrest
      exact hleft ⟨as, rest, has, hrest⟩
    · obtain ⟨x, hx⟩ := h.breaks hbreaks
      refine ⟨fun v hv => ?_, fun _ => ⟨x, hx⟩⟩
      rw [hx] at hv
      cases hv
    · exact hmember (h.mem.2 (hlarge hover))

theorem answers_corbaloc (t : Octets) : Answers (ascii "corbaloc:" ++ t) t (1 + key) where
  mem := corbaloc_mem_uris
  ends := fun _ hw => ends_key hw
  entries := by
    intro as rest has
    rw [UrlParser.decodeURI_corbaloc]
    rcases UrlParser.corbaloc_settles has {} (List.suffix_append _ t) with
      ⟨loc, rest', -, hrun⟩ | ⟨u, s, hrun⟩
    · rw [hrun]
      exact Or.inl ⟨_, rfl⟩
    · rw [hrun]
      exact Or.inr ⟨u, rfl⟩
  breaks := by
    intro hbreaks
    obtain ⟨x, s, hrun⟩ := UrlParser.raises_corbaloc hbreaks {} (List.suffix_append _ t)
    rw [UrlParser.decodeURI_corbaloc, hrun]
    exact ⟨x, rfl⟩
  oversized := by
    intro hlarge
    obtain ⟨u, s, hrun⟩ := UrlParser.undefines_corbaloc hlarge {} (List.suffix_append _ t)
    rw [UrlParser.decodeURI_corbaloc, hrun]
    exact ⟨u, rfl⟩

theorem answers_corbaname (t : Octets) :
    Answers (ascii "corbaname:" ++ t) t ((1 + key) * (1 + name)) where
  mem := corbaname_mem_uris
  ends := fun _ hw => ends_key_name hw
  entries := by
    intro as rest has
    rw [UrlParser.decodeURI_corbaname]
    exact (UrlParser.corbaname_settles has {} (List.suffix_append _ t)).map _
  breaks := by
    intro hbreaks
    obtain ⟨x, s, hrun⟩ := UrlParser.raises_corbaname hbreaks {} (List.suffix_append _ t)
    rw [UrlParser.decodeURI_corbaname, hrun]
    exact ⟨x, rfl⟩
  oversized := by
    intro hlarge
    obtain ⟨u, s, hrun⟩ := UrlParser.undefines_corbaname hlarge {} (List.suffix_append _ t)
    rw [UrlParser.decodeURI_corbaname, hrun]
    exact ⟨u, rfl⟩

end Answers

/-- **A text is told from the URIs unless something else follows the addresses**, or a number that
does not fit is met in a text that is none. -/
theorem onlyWhole_iff [Platform] (t : Octets) :
    (OnlyWhole (ascii "corbaloc:" ++ t) ↔
      ¬ Leftover (1 + key) t ∧ (ListOversized t → t ∈ addresses * (1 + key))) ∧
    (OnlyWhole (ascii "corbaname:" ++ t) ↔
      ¬ Leftover ((1 + key) * (1 + name)) t ∧
        (ListOversized t → t ∈ addresses * ((1 + key) * (1 + name)))) :=
  ⟨(answers_corbaloc t).whole_iff, (answers_corbaname t).whole_iff⟩

/-- The last character of `corbaloc:rir:x` is dropped. -/
theorem not_onlyWhole_x :
    letI : Platform := ⟨.little⟩
    ¬ ∀ t : Octets, OnlyWhole (ascii "corbaloc:" ++ t) ∧ OnlyWhole (ascii "corbaname:" ++ t) := by
  let platform : Platform := ⟨.little⟩
  intro h
  have hrun : decodeURI (ascii "corbaloc:" ++ ascii "rir:x") =
      .ok (.location ⟨[{ proto := ascii "rir" }], []⟩) := rfl
  have hmem := (h (ascii "rir:x")).1.1 _ hrun
  have hentries : Entries (ascii "rir:" ++ ascii "x") [{ proto := ascii "rir" }] (ascii "x") := by
    refine .last .rir ?_
    rintro ⟨t, heq⟩
    exact absurd (List.cons.inj heq).1 (by decide)
  have hx := (mem_iff_of_entries hentries fun _ hw => ends_key hw).1 (corbaloc_mem_uris.1 hmem)
  exact absurd (ends_key hx 120 rfl) (by decide)

end Corba
