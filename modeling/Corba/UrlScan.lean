/-
What the lexer does, wherever it stands in a text.

The lexer never leaves the text as long as whoever reads the terminating zero puts it back.  It then
stands in front of what is left of the text, and that is all its functions depend on, with one
exception: `uri` also depends on how far it has come.

Main definitions:

* `Corba.UrlLexer.facing` — the lexer in front of the end of a text;
* `Corba.Numeral`, `Corba.NoNumeral`, `Corba.Oversized` — what stands where a number is looked for.

Main results:

* `Corba.UrlLexer.skip_run`, `Corba.UrlLexer.number_run`, `Corba.UrlLexer.matchText_run`,
  `Corba.UrlLexer.uri_run` — what the functions of the lexer yield and where they leave it.
-/

import Corba.Url

set_option relaxedAutoImplicit false
set_option autoImplicit false

namespace Corba

open Exec

/-! ### Standing in front of the end of a text -/

/-- The lexer in front of `rest`, with which the text `D` ends. -/
@[reducible] def UrlLexer.facing (D rest : Octets) : UrlLexer := ⟨D, D.length - rest.length⟩

/-- The text and the position where it begins. -/
theorem UrlLexer.facing_self (D : Octets) : UrlLexer.facing D D = { data := D } := by
  rw [UrlLexer.facing, Nat.sub_self]

section Suffix

variable {D xs rest : Octets} {c : UInt8}

theorem suffix_tail (h : c :: rest <:+ D) : rest <:+ D := (List.suffix_cons c rest).trans h

theorem suffix_right (h : xs ++ rest <:+ D) : rest <:+ D := (List.suffix_append xs rest).trans h

/-- What the lexer faces is what is left of the text. -/
theorem drop_facing (h : rest <:+ D) : D.drop (D.length - rest.length) = rest :=
  (List.suffix_iff_eq_drop.1 h).symm

/-- The characters between two positions. -/
theorem slice_facing (h : xs ++ rest <:+ D) :
    (D.take (D.length - rest.length)).drop (D.length - (xs ++ rest).length) = xs := by
  obtain ⟨front, rfl⟩ := h
  have hto : (front ++ (xs ++ rest)).length - rest.length = (front ++ xs).length := by
    simp only [List.length_append]
    omega
  have hfrom : (front ++ (xs ++ rest)).length - (xs ++ rest).length = front.length := by
    simp only [List.length_append]
    omega
  rw [hto, hfrom, ← List.append_assoc, List.take_left, List.drop_left]

end Suffix

namespace UrlLexer

variable {D xs rest : Octets} {c : UInt8} {p : UInt8 → Bool}

/-! ### Characters -/

theorem getc_facing (h : c :: rest <:+ D) :
    getc (facing D (c :: rest)) = .ok c (facing D rest) := by
  have hlen := h.length_le
  have hpos : D.length - (c :: rest).length + 1 = D.length - rest.length := by
    rw [List.length_cons] at hlen ⊢
    omega
  have hin : ¬ D.length < D.length - (c :: rest).length := by omega
  have hget : D.getD (D.length - (c :: rest).length) 0 = c := by
    have hhead := congrArg List.head? (drop_facing h)
    rw [List.head?_drop, List.head?_cons] at hhead
    rw [List.getD_eq_getElem?_getD, hhead]
    rfl
  rw [getc, get_bind, if_neg hin]
  exact congrArg₂ EStateM.Result.ok hget (congrArg (UrlLexer.mk D) hpos)

/-- At the end of the text stands the zero that terminates it. -/
theorem getc_end (D : Octets) : getc (facing D []) = .ok 0 ⟨D, D.length + 1⟩ := by
  have hget : D.getD D.length 0 = 0 := by
    rw [List.getD_eq_getElem?_getD, List.getElem?_eq_none le_rfl]
    rfl
  rw [getc, get_bind, if_neg (by show ¬ D.length < D.length - 0; omega)]
  exact congrArg₂ EStateM.Result.ok hget rfl

/-- A loop that takes characters stops behind the first one it does not want. -/
theorem skipWhile_run (hp : p 0 = false) {n : ℕ} (h : xs ++ rest <:+ D)
    (hxs : ∀ c ∈ xs, p c = true) (hrest : ∀ c ∈ rest.head?, p c = false) (hn : xs.length < n) :
    skipWhile p n (facing D (xs ++ rest)) = .ok () ⟨D, D.length - rest.length + 1⟩ := by
  induction xs generalizing n with
  | nil =>
      obtain ⟨n, rfl⟩ : ∃ m, n = m + 1 := ⟨n - 1, by simp at hn; omega⟩
      rw [List.nil_append] at h ⊢
      cases rest with
      | nil =>
          -- the terminating zero is taken, which `p` does not hold of
          rw [skipWhile, bind_ok (getc_end D), if_neg (by simp [hp])]
          rfl
      | cons c rest =>
          have hlen := h.length_le
          rw [List.length_cons] at hlen
          rw [skipWhile, bind_ok (getc_facing h), if_neg (by simp [hrest c rfl]), pure_run, facing,
            List.length_cons]
          congr 2
          omega
  | cons x xs ih =>
      obtain ⟨n, rfl⟩ : ∃ m, n = m + 1 := ⟨n - 1, by simp at hn; omega⟩
      rw [List.cons_append] at h ⊢
      rw [skipWhile, bind_ok (getc_facing h), if_pos (hxs x List.mem_cons_self)]
      exact ih (suffix_tail h) (fun c hc => hxs c (List.mem_cons_of_mem _ hc))
        (by rw [List.length_cons] at hn; omega)

theorem skip_run (hp : p 0 = false) (h : xs ++ rest <:+ D) (hxs : ∀ c ∈ xs, p c = true)
    (hrest : ∀ c ∈ rest.head?, p c = false) :
    skip p (facing D (xs ++ rest)) = .ok () (facing D rest) := by
  have hn : xs.length < D.length + 1 := by
    have hlen := h.length_le
    rw [List.length_append] at hlen
    omega
  rw [skip, get_bind]
  refine (bind_ok (skipWhile_run hp h hxs hrest hn) _).trans ?_
  rfl

/-! ### Literals -/

theorem matchText_run {s : Octets} (h : s ++ rest <:+ D) :
    matchText s (facing D (s ++ rest)) = .ok true (facing D rest) := by
  have hlen := h.length_le
  rw [List.length_append] at hlen
  have hpos : D.length - (s ++ rest).length + s.length = D.length - rest.length := by
    rw [List.length_append]
    omega
  have htake : (D.drop (D.length - (s ++ rest).length)).take s.length = s := by
    rw [drop_facing h, List.take_left]
  have hin : ¬ D.length < D.length - (s ++ rest).length + s.length := by omega
  rw [matchText, get_bind, if_neg hin, if_neg (not_not.2 htake)]
  exact congrArg (EStateM.Result.ok true) (congrArg (UrlLexer.mk D) hpos)

theorem matchText_miss {s t : Octets} (h : t <:+ D) (hs : ¬ s <+: t) :
    matchText s (facing D t) = .ok false (facing D t) := by
  by_cases hin : D.length < D.length - t.length + s.length
  · rw [matchText, get_bind, if_pos hin]
    rfl
  · have htake : (D.drop (D.length - t.length)).take s.length ≠ s := by
      intro heq
      rw [drop_facing h] at heq
      exact hs (heq ▸ List.take_prefix _ _)
    rw [matchText, get_bind, if_neg hin, if_pos htake]
    rfl

end UrlLexer

/-! ### Numbers -/

/-- Digits that are taken as a number: they are as many as there are, and the number fits. -/
structure Numeral (ds rest : Octets) : Prop where
  ne_nil : ds ≠ []
  digits : ∀ c ∈ ds, isdigit c = true
  stop : ∀ c ∈ rest.head?, isdigit c = false
  fits : ofDigits 10 ds < 2 ^ 32

/-- There is no number to be taken. -/
def NoNumeral (rest : Octets) : Prop := ∀ c ∈ rest.head?, isdigit c = false

/-- Digits that make a number that does not fit. -/
structure Oversized (ds rest : Octets) : Prop where
  ne_nil : ds ≠ []
  digits : ∀ c ∈ ds, isdigit c = true
  stop : NoNumeral rest
  large : 2 ^ 32 ≤ ofDigits 10 ds

/-- There is a number, which fits or not, or there is none. -/
theorem numeral_cases (t : Octets) :
    NoNumeral t ∨ (∃ ds rest, t = ds ++ rest ∧ Numeral ds rest) ∨
      ∃ ds rest, t = ds ++ rest ∧ Oversized ds rest := by
  have hstop : NoNumeral (t.dropWhile isdigit) := dropWhile_head isdigit t
  have hsplit : t.takeWhile isdigit ++ t.dropWhile isdigit = t := List.takeWhile_append_dropWhile
  have hdigits : ∀ c ∈ t.takeWhile isdigit, isdigit c = true := fun c hc => List.mem_takeWhile_imp hc
  by_cases hnil : t.takeWhile isdigit = []
  · rw [hnil, List.nil_append] at hsplit
    exact Or.inl (hsplit ▸ hstop)
  · right
    by_cases hfits : ofDigits 10 (t.takeWhile isdigit) < 2 ^ 32
    · exact Or.inl ⟨_, _, hsplit.symm, hnil, hdigits, hstop, hfits⟩
    · exact Or.inr ⟨_, _, hsplit.symm, hnil, hdigits, hstop, not_lt.1 hfits⟩

namespace UrlLexer

variable {D ds rest : Octets}

theorem number_none (h : rest <:+ D) (hrest : NoNumeral rest) :
    number (facing D rest) = .ok none (facing D rest) := by
  have hskip : skip isdigit (facing D rest) = .ok () (facing D rest) :=
    skip_run rfl (List.nil_append rest ▸ h) (by simp) hrest
  rw [number, get_bind, bind_ok hskip, get_bind, if_pos rfl]
  rfl

/-- The digits in front of the lexer, all of which are taken. -/
theorem number_digits (h : ds ++ rest <:+ D) (hne : ds ≠ []) (hds : ∀ c ∈ ds, isdigit c = true)
    (hrest : NoNumeral rest) :
    number (facing D (ds ++ rest)) =
      if ofDigits 10 ds < 2 ^ 32 then .ok (some (ofDigits 10 ds)) (facing D rest)
      else .error (.undefined .uninitialized) (facing D rest) := by
  have hlen := h.length_le
  have hpos := List.length_pos_iff.2 hne
  have hmoved : ¬ D.length - (ds ++ rest).length = D.length - rest.length := by
    rw [List.length_append] at hlen ⊢
    omega
  rw [number, get_bind, bind_ok (skip_run rfl h hds hrest), get_bind]
  -- what `from_chars` is given are the digits between the two positions
  simp only [facing, hmoved, if_false, slice_facing h]
  by_cases hfits : ofDigits 10 ds < 2 ^ 32
  · have hchars : fromChars 10 (2 ^ 32) (ds ++ []) = _ := fromChars_digits hne hds (by simp) hfits
    rw [List.append_nil] at hchars
    rw [hchars, if_pos hfits]
    rfl
  · have htake : ds.takeWhile (isDigit 10) = ds := List.takeWhile_eq_self_iff.2 hds
    have hchars : fromChars 10 (2 ^ 32) ds = none :=
      fromChars_eq_none.2 (Or.inr (by rw [htake]; omega))
    rw [hchars, if_neg hfits]
    rfl

theorem number_run (h : ds ++ rest <:+ D) (hds : Numeral ds rest) :
    number (facing D (ds ++ rest)) = .ok (some (ofDigits 10 ds)) (facing D rest) := by
  rw [number_digits h hds.ne_nil hds.digits hds.stop, if_pos hds.fits]

/-- What is returned for a number that does not fit has not been set. -/
theorem number_oversized (h : ds ++ rest <:+ D) (hds : Oversized ds rest) :
    number (facing D (ds ++ rest)) = .error (.undefined .uninitialized) (facing D rest) := by
  rw [number_digits h hds.ne_nil hds.digits hds.stop, if_neg (not_lt.2 hds.large)]

/-! ### Parts of a URI -/

/-- The characters the lexer faced, of which it has taken as many. -/
theorem substr_facing {xs t : Octets} {n : ℕ} (ht : t = xs ++ rest) (h : t <:+ D)
    (hn : n = xs.length) (url : UrlLexer) :
    substr D (D.length - t.length) n url = .ok xs url := by
  have hin : ¬ D.length < D.length - t.length := by omega
  rw [substr, if_neg hin, pure_run, drop_facing h, ht, hn, List.take_left]

theorem uriLoop_run {xs : Octets} {n : ℕ} (h : xs ++ rest <:+ D)
    (hxs : ∀ c ∈ xs, isUriChar c = true) (hrest : ∀ c ∈ rest.head?, isUriChar c = false)
    (hn : (xs ++ rest).length ≤ n) :
    uriLoop n (facing D (xs ++ rest)) = .ok () (facing D rest) := by
  induction xs generalizing n with
  | nil =>
      rw [List.nil_append] at h hn ⊢
      cases rest with
      | nil =>
          cases n with
          | zero => rfl
          | succ n =>
              have heof : eof (facing D []) = .ok true (facing D []) := by simp [eof, facing]
              rw [uriLoop, bind_ok heof]
              rfl
      | cons c rest =>
          obtain ⟨n, rfl⟩ : ∃ m, n = m + 1 := ⟨n - 1, by rw [List.length_cons] at hn; omega⟩
          have hlen := h.length_le
          rw [List.length_cons] at hlen
          have heof : eof (facing D (c :: rest)) = .ok false (facing D (c :: rest)) := by
            have hin : ¬ D.length - (c :: rest).length ≥ D.length := by
              rw [List.length_cons]
              omega
            simp only [eof, facing, get_bind, pure_run, hin, decide_false]
          have hnot : ¬ isUriChar c = true := by simp [hrest c rfl]
          rw [uriLoop, bind_ok heof, if_neg Bool.false_ne_true, bind_ok (getc_facing h), if_pos hnot,
            ungetc, modify_run, facing, facing, List.length_cons]
          congr 2
  | cons x xs ih =>
      obtain ⟨n, rfl⟩ : ∃ m, n = m + 1 := ⟨n - 1, by simp at hn; omega⟩
      rw [List.cons_append] at h hn ⊢
      have hlen := h.length_le
      rw [List.length_cons] at hlen hn
      have heof : eof (facing D (x :: (xs ++ rest))) = .ok false (facing D (x :: (xs ++ rest))) := by
        have hin : ¬ D.length - (x :: (xs ++ rest)).length ≥ D.length := by
          rw [List.length_cons]
          omega
        simp only [eof, facing, get_bind, pure_run, hin, decide_false]
      have hchar : ¬ ¬ isUriChar x = true := not_not.2 (hxs x List.mem_cons_self)
      rw [uriLoop, bind_ok heof, if_neg Bool.false_ne_true, bind_ok (getc_facing h), if_neg hchar]
      exact ih (suffix_tail h) (fun c hc => hxs c (List.mem_cons_of_mem _ hc)) (by omega)

theorem uri_none (h : rest <:+ D) (hrest : ∀ c ∈ rest.head?, isUriChar c = false) :
    uri (facing D rest) = .ok none (facing D rest) := by
  have hloop : uriLoop D.length (facing D ([] ++ rest)) = .ok () (facing D rest) :=
    uriLoop_run h (by simp) hrest h.length_le
  rw [uri, get_bind, get_bind]
  refine (bind_ok hloop _).trans ?_
  rw [get_bind, if_pos rfl]
  rfl

/-- What a computation without a lexer yields, in front of a lexer. -/
def lift {α : Type} (url : UrlLexer) : Except Fault α → EStateM.Result Fault UrlLexer α
  | .ok a => .ok a url
  | .error f => .error f url

/-- What is decoded begins where the lexer stands, but it has as many characters as there are in the
text up to where the lexer stops. -/
theorem uri_run {xs : Octets} (h : xs ++ rest <:+ D) (hne : xs ≠ [])
    (hxs : ∀ c ∈ xs, isUriChar c = true) (hrest : ∀ c ∈ rest.head?, isUriChar c = false) :
    uri (facing D (xs ++ rest)) = lift (facing D rest)
      ((_decodeURI ((xs ++ rest).take (D.length - rest.length))).map some) := by
  have hlen := h.length_le
  have hpos := List.length_pos_iff.2 hne
  have hmoved : ¬ D.length - rest.length = D.length - (xs ++ rest).length := by
    rw [List.length_append] at hlen ⊢
    omega
  have hin : ¬ D.length < D.length - (xs ++ rest).length := by omega
  rw [uri, get_bind, get_bind]
  refine (bind_ok (uriLoop_run h hxs hrest hlen) _).trans ?_
  rw [get_bind]
  -- the second argument of `substr` is the position, which leaves `D.length - rest.length` characters
  simp only [facing, hmoved, if_false, substr, hin, drop_facing h]
  rw [bind_ok (pure_run _ _)]
  cases hret : _decodeURI ((xs ++ rest).take (D.length - rest.length)) with
  | ok ret => rfl
  | error f => rfl

end UrlLexer

end Corba
