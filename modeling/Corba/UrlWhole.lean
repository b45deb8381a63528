/-
What `decodeURI` makes of locations and names.

Behind the addresses a location has a key, and a name has a name behind that.  Both are taken up to
the first character that is none of a URI, but what is decoded is a stretch of the text that begins
where the key or the name begins and has as many characters as there are in the text up to where it
ends.  Whatever is left of the text after that is not looked at.

Main definitions:

* `Corba.UriChars` — the characters of a key or a name, as many as there are;
* `Corba.cut` — what is decoded of them.

Main results:

* `Corba.UrlParser.corbaloc_addr`, `Corba.UrlParser.corbaloc_key` — locations;
* `Corba.UrlParser.corbaname_plain`, `Corba.UrlParser.corbaname_name` — names;
* `Corba.UrlParser.decodeURI_corbaloc`, `Corba.UrlParser.decodeURI_corbaname` — URIs.
-/

import Corba.UrlGrammar

set_option relaxedAutoImplicit false
set_option autoImplicit false

namespace Corba

open Exec

/-! ### Keys and names -/

/-- Characters of a URI, as many as there are. -/
structure UriChars (k rest : Octets) : Prop where
  chars : ∀ c ∈ k, isUriChar c = true
  stop : ∀ c ∈ rest.head?, isUriChar c = false

/-- The characters in front of a lexer can be told from what stands behind them. -/
theorem exists_uriChars (t : Octets) : ∃ k rest, t = k ++ rest ∧ UriChars k rest :=
  ⟨t.takeWhile isUriChar, t.dropWhile isUriChar, List.takeWhile_append_dropWhile.symm,
    fun _ hc => List.mem_takeWhile_imp hc, dropWhile_head isUriChar t⟩

/-- What a key or a name is decoded from: it begins where it should, but it is cut off where the text
has had as many characters as there are in front of `rest`. -/
def cut (D k rest : Octets) : Except Fault Octets :=
  if k = [] then .ok [] else _decodeURI ((k ++ rest).take (D.length - rest.length))

theorem UrlLexer.lift_bind {α β : Type} {x : UrlM α} {url url' : UrlLexer} {r : Except Fault α}
    (h : x url = UrlLexer.lift url' r) (f : α → β) :
    (x >>= fun a => pure (f a)) url = UrlLexer.lift url' (r.map f) := by
  cases r with
  | ok a => exact bind_ok h _
  | error e => exact bind_error h _

@[simp] theorem UrlLexer.outcome_lift {α : Type} (url : UrlLexer) (r : Except Fault α) :
    UrlLexer.outcome (UrlLexer.lift url r) = r := by
  cases r <;> rfl

namespace UrlParser

open UrlLexer

variable {D t k rest : Octets}

theorem keyString_run (hD : k ++ rest <:+ D) (hk : UriChars k rest) :
    keyString (facing D (k ++ rest)) = lift (facing D rest) (cut D k rest) := by
  rw [keyString, cut]
  by_cases hnil : k = []
  · subst hnil
    rw [if_pos rfl, List.nil_append]
    exact bind_ok (uri_none hD hk.stop) _
  · rw [if_neg hnil, lift_bind (uri_run hD hnil hk.chars hk.stop)]
    cases _decodeURI ((k ++ rest).take (D.length - rest.length)) <;> rfl

/-- A location that ends with its addresses. -/
theorem corbaloc_addr {as : List ObjectAddress} (h : Entries t as rest)
    (hkey : ¬ ascii "/" <+: rest) (loc : CorbaLocation) (hD : t <:+ D) :
    corbaloc loc (facing D t) = .ok { loc with addr := loc.addr ++ as } (facing D rest) := by
  have hlist := objAddrList_run (n := D.length + 1) h hD (Nat.lt_succ_of_le hD.length_le)
  rw [corbaloc, get_bind, bind_ok hlist, bind_ok (matchText_miss (h.suffix.trans hD) hkey)]
  rfl

/-- A location with a key. -/
theorem corbaloc_key {as : List ObjectAddress} (h : Entries t as (ascii "/" ++ (k ++ rest)))
    (hk : UriChars k rest) (loc : CorbaLocation) (hD : t <:+ D) :
    corbaloc loc (facing D t) = lift (facing D rest) ((cut D k rest).map fun objectKey =>
      { loc with addr := loc.addr ++ as, objectKey }) := by
  have hD' := h.suffix.trans hD
  have hlist := objAddrList_run (n := D.length + 1) h hD (Nat.lt_succ_of_le hD.length_le)
  rw [corbaloc, get_bind, bind_ok hlist, bind_ok (matchText_run hD'), if_pos rfl]
  exact lift_bind (keyString_run (suffix_right hD') hk) _

/-- A name without a name. -/
theorem corbaname_plain {name : CorbaName} {loc : CorbaLocation}
    (h : corbaloc name.toCorbaLocation (facing D t) = .ok loc (facing D rest))
    (hname : ¬ ascii "#" <+: rest) (hD : rest <:+ D) :
    corbaname name (facing D t) =
      .ok { name with addr := loc.addr, objectKey := loc.objectKey } (facing D rest) := by
  rw [corbaname, bind_ok h, bind_ok (matchText_miss hD hname)]
  rfl

/-- The characters behind a location are the name. -/
theorem corbaname_name {name : CorbaName} {loc : CorbaLocation}
    (h : corbaloc name.toCorbaLocation (facing D t) =
      .ok loc (facing D (ascii "#" ++ (k ++ rest)))) (hk : UriChars k rest) (hne : k ≠ [])
    (hD : ascii "#" ++ (k ++ rest) <:+ D) :
    corbaname name (facing D t) = lift (facing D rest) ((cut D k rest).map fun uri =>
      { name with addr := loc.addr, objectKey := loc.objectKey, name := uri }) := by
  rw [corbaname, bind_ok h, bind_ok (matchText_run hD), if_pos rfl, cut, if_neg hne]
  have huri := uri_run (suffix_right hD) hne hk.chars hk.stop
  cases hret : _decodeURI ((k ++ rest).take (D.length - rest.length)) with
  | ok ret =>
      rw [hret] at huri
      exact bind_ok huri _
  | error f =>
      rw [hret] at huri
      exact bind_error huri _

variable [Platform]

omit [Platform] in
theorem outcome_bind_pure {α β : Type} (x : UrlM α) (f : α → β) (url : UrlLexer) :
    outcome ((x >>= fun a => pure (f a)) url) = (outcome (x url)).map f := by
  cases h : x url with
  | ok a url' => exact congrArg outcome (bind_ok h _)
  | error e url' => exact congrArg outcome (bind_error h _)

/-- Behind the scheme of a location. -/
theorem parse_corbaloc (t : Octets) : parse { data := ascii "corbaloc:" ++ t } =
    (corbaloc {} >>= fun loc => pure (Uri.location loc)) (facing (ascii "corbaloc:" ++ t) t) := by
  have hior : ¬ ascii "IOR:" <+: ascii "corbaloc:" ++ t := by
    rintro ⟨t', heq⟩
    exact absurd (List.cons.inj heq).1 (by decide)
  rw [← facing_self, parse, bind_ok (matchText_miss (List.suffix_refl _) hior),
    if_neg Bool.false_ne_true, bind_ok (matchText_run (List.suffix_refl _)), if_pos rfl]

/-- Behind the scheme of a name. -/
theorem parse_corbaname (t : Octets) : parse { data := ascii "corbaname:" ++ t } =
    (corbaname {} >>= fun name => pure (Uri.name name)) (facing (ascii "corbaname:" ++ t) t) := by
  have hior : ¬ ascii "IOR:" <+: ascii "corbaname:" ++ t := by
    rintro ⟨t', heq⟩
    exact absurd (List.cons.inj heq).1 (by decide)
  have hloc : ¬ ascii "corbaloc:" <+: ascii "corbaname:" ++ t := by
    rintro ⟨t', heq⟩
    have hfive := congrArg (List.take 6) heq
    rw [List.take_append_of_le_length (by decide), List.take_append_of_le_length (by decide)]
      at hfive
    exact absurd hfive (by decide)
  rw [← facing_self, parse, bind_ok (matchText_miss (List.suffix_refl _) hior),
    if_neg Bool.false_ne_true, bind_ok (matchText_miss (List.suffix_refl _) hloc),
    if_neg Bool.false_ne_true, bind_ok (matchText_run (List.suffix_refl _)), if_pos rfl]

theorem decodeURI_corbaloc (t : Octets) : decodeURI (ascii "corbaloc:" ++ t) =
    (outcome (corbaloc {} (facing (ascii "corbaloc:" ++ t) t))).map Uri.location := by
  rw [decodeURI, parse_corbaloc]
  exact outcome_bind_pure _ _ _

theorem decodeURI_corbaname (t : Octets) : decodeURI (ascii "corbaname:" ++ t) =
    (outcome (corbaname {} (facing (ascii "corbaname:" ++ t) t))).map Uri.name := by
  rw [decodeURI, parse_corbaname]
  exact outcome_bind_pure _ _ _

end UrlParser

end Corba
