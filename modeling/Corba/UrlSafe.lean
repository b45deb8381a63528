/-
Parsing an object URL is safe.

The lexer does not check that there is a character left: it may take the zero that terminates the text,
and the position is then behind the end until that zero is put back.  Every function of the parser puts
it back before it returns, so that the position is in the text between them, nothing behind the zero is
looked at, and the loops end.

Main definitions:

* `Corba.UrlLexer.skipBody`, …, `Corba.decodeBody` — the bodies of the loops of the source;
* `Corba.UrlSafe` — a program that stays in the text;
* `Corba.Production` — the functions of the parser.

Main results:

* `Corba.loopsEnd` — **the loops end**, with what the model makes of them;
* `Corba.Production.safe` — every function of the parser stays in the text;
* `Corba.parsing_is_safe` — parsing is safe.
-/

import Corba.UrlAccept

set_option relaxedAutoImplicit false
set_option autoImplicit false

namespace Corba

open Exec

/-! ### The loops of the source -/

namespace UrlLexer

/-- `while (p(getc()))`, and `do { c = getc(); } while (p(c))`. -/
def skipBody (p : UInt8 → Bool) (_ : Unit) : UrlM (Unit ⊕ Unit) := do
  let c ← getc
  return if p c then .inl () else .inr ()

/-- The loop of `uri`. -/
def uriBody (_ : Unit) : UrlM (Unit ⊕ Unit) := do
  if ← eof then return .inr ()
  else
    let c ← getc
    if ¬ isUriChar c then
      ungetc
      return .inr ()
    else return .inl ()

end UrlLexer

namespace UrlParser

open UrlLexer

/-- `do { label(addr); } while (url.match("."))`. -/
def labelsBody (_ : Unit) : UrlM (Unit ⊕ Unit) := do
  label
  return if ← matchText (ascii ".") then .inl () else .inr ()

/-- The loop of `obj_addr_list`, with the list that has been filled so far. -/
def addrBody (list : List ObjectAddress) : UrlM (List ObjectAddress ⊕ List ObjectAddress) := do
  let some addr ← objAddr {} | runtimeError expectedAddress
  return if ← matchText (ascii ",") then .inl (list ++ [addr]) else .inr (list ++ [addr])

end UrlParser

/-- The loop of `_decodeURI`, with the index, `ii` and what has been decoded. -/
def decodeBody (SRC : Octets) : ℕ × Option ℤ × Octets → UrlM ((ℕ × Option ℤ × Octets) ⊕ Octets)
  | (i, ii, ret) => do
      if i < SRC.length then
        if SRC.getD i 0 = 37 then
          let two ← UrlLexer.substr SRC (i + 1) 2
          match (scanHex two).or ii with
          | none => throw (.undefined .uninitialized)
          | some v => return .inl (i + 2 + 1, some v, ret ++ [UInt8.ofInt v])
        else return .inl (i + 1, ii, ret ++ [SRC.getD i 0])
      else return .inr ret

/-! ### Taking a character -/

namespace UrlLexer

variable {D : Octets} {pos : ℕ} {p : UInt8 → Bool}

/-- A character is taken, or the zero behind the last one. -/
theorem getc_run (h : pos ≤ D.length) : getc ⟨D, pos⟩ = .ok (D.getD pos 0) ⟨D, pos + 1⟩ := by
  rw [getc, get_bind, if_neg (by show ¬ D.length < pos; omega)]
  rfl

/-- What `p` holds of is not the zero behind the last character. -/
theorem lt_of_holds (hp : p 0 = false) (h : p (D.getD pos 0) = true) : pos < D.length := by
  by_contra hge
  rw [List.getD_eq_getElem?_getD, List.getElem?_eq_none (not_lt.1 hge)] at h
  rw [Option.getD_none, hp] at h
  cases h

/-- Every position in the text is in front of some end of it. -/
theorem eq_facing (h : pos ≤ D.length) : (⟨D, pos⟩ : UrlLexer) = facing D (D.drop pos) := by
  rw [facing, List.length_drop]
  congr 1
  omega

/-! ### The loops end -/

theorem skipWhile_loop (hp : p 0 = false) {n : ℕ} (h : pos ≤ D.length) (hn : D.length - pos < n) :
    Loop (skipBody p) () ⟨D, pos⟩ (skipWhile p n ⟨D, pos⟩) := by
  induction n generalizing pos with
  | zero => exact absurd hn (Nat.not_lt_zero _)
  | succ n ih =>
      have hc := getc_run h
      rw [skipWhile, bind_ok hc]
      by_cases hholds : p (D.getD pos 0) = true
      · have hlt := lt_of_holds hp hholds
        have hbody : skipBody p () ⟨D, pos⟩ = .ok (.inl ()) ⟨D, pos + 1⟩ := by
          rw [skipBody, bind_ok hc, if_pos hholds]
          rfl
        rw [if_pos hholds]
        exact .next hbody (ih hlt (by omega))
      · rw [if_neg hholds]
        refine .done ?_
        rw [skipBody, bind_ok hc, if_neg hholds]
        rfl

theorem uriLoop_loop {n : ℕ} (h : pos ≤ D.length) (hn : D.length - pos ≤ n) :
    Loop uriBody () ⟨D, pos⟩ (uriLoop n ⟨D, pos⟩) := by
  induction n generalizing pos with
  | zero =>
      have heof : eof ⟨D, pos⟩ = .ok true ⟨D, pos⟩ := by
        rw [eof, get_bind, pure_run, decide_eq_true (by show pos ≥ D.length; omega)]
      refine .done ?_
      rw [uriBody, bind_ok heof, if_pos rfl]
      rfl
  | succ n ih =>
      rcases Nat.lt_or_ge pos D.length with hlt | hge
      · have heof : eof ⟨D, pos⟩ = .ok false ⟨D, pos⟩ := by
          rw [eof, get_bind, pure_run, decide_eq_false (by show ¬ pos ≥ D.length; omega)]
        have hc := getc_run h
        rw [uriLoop, bind_ok heof, if_neg Bool.false_ne_true, bind_ok hc]
        by_cases hchar : isUriChar (D.getD pos 0) = true
        · have hbody : uriBody () ⟨D, pos⟩ = .ok (.inl ()) ⟨D, pos + 1⟩ := by
            rw [uriBody, bind_ok heof, if_neg Bool.false_ne_true, bind_ok hc, if_neg (not_not.2 hchar)]
            rfl
          rw [if_neg (not_not.2 hchar)]
          exact .next hbody (ih hlt (by omega))
        · rw [if_pos hchar]
          refine .done ?_
          rw [uriBody, bind_ok heof, if_neg Bool.false_ne_true, bind_ok hc, if_pos hchar]
          rfl
      · have heof : eof ⟨D, pos⟩ = .ok true ⟨D, pos⟩ := by
          rw [eof, get_bind, pure_run, decide_eq_true hge]
        rw [uriLoop, bind_ok heof, if_pos rfl]
        refine .done ?_
        rw [uriBody, bind_ok heof, if_pos rfl]
        rfl

end UrlLexer

namespace UrlParser

open UrlLexer

variable {D t rest : Octets} {a : ObjectAddress} {s : UrlLexer}

/-- Every round but the last one takes a dot. -/
theorem labels_loop {n : ℕ} (hD : t <:+ D) (hn : t.length ≤ n) :
    Loop labelsBody () (facing D t) (labels n (facing D t)) := by
  induction n generalizing t with
  | zero =>
      obtain rfl : t = [] := List.eq_nil_of_length_eq_zero (by omega)
      have hlabel := label_run (.empty (by simp)) hD
      have hdot : ¬ ascii "." <+: ([] : Octets) := by decide
      rw [labels, hlabel]
      refine .done ?_
      rw [labelsBody, bind_ok hlabel, bind_ok (matchText_miss hD hdot)]
      rfl
  | succ n ih =>
      obtain ⟨l, rest, hl⟩ := exists_label t
      have hlabel := label_run hl hD
      have hD' : l ++ rest <:+ D := hl.split ▸ hD
      have hlen := congrArg List.length hl.split
      rw [List.length_append] at hlen
      rw [labels, bind_ok hlabel]
      by_cases hdot : ascii "." <+: rest
      · obtain ⟨t', rfl⟩ := hdot
        have hmatch := matchText_run (suffix_right hD')
        have hbody : labelsBody () (facing D t) = .ok (.inl ()) (facing D t') := by
          rw [labelsBody, bind_ok hlabel, bind_ok hmatch]
          rfl
        have hone : (ascii ".").length = 1 := rfl
        rw [List.length_append] at hlen
        rw [bind_ok hmatch, if_pos rfl]
        exact .next hbody (ih (suffix_right (suffix_right hD')) (by omega))
      · have hmatch := matchText_miss (suffix_right hD') hdot
        rw [bind_ok hmatch, if_neg Bool.false_ne_true]
        refine .done ?_
        rw [labelsBody, bind_ok hlabel, bind_ok hmatch]
        rfl

/-- An address that is found has been taken from the text. -/
theorem objAddr_some (h : objAddr {} (facing D t) = .ok (some a) s) (hD : t <:+ D) :
    ∃ rest, Entry t a rest ∧ s = facing D rest := by
  rcases entry_cases t with ⟨a', rest, hentry⟩ | hbreaks | hlarge
  · rw [objAddr_run hentry hD] at h
    cases h
    exact ⟨rest, hentry, rfl⟩
  · rcases objAddr_breaks hbreaks hD with ⟨s', hrun⟩ | ⟨x, s', hrun⟩ <;> rw [hrun] at h <;> cases h
  · obtain ⟨u, s', hrun⟩ := objAddr_oversized {} hlarge hD
    rw [hrun] at h
    cases h

/-- Every round takes an address, and every one but the last a comma. -/
theorem objAddrList_loop {n : ℕ} (hD : t <:+ D) (hn : t.length < n) (list : List ObjectAddress) :
    Loop addrBody list (facing D t)
      ((objAddrList n >>= fun as => pure (list ++ as)) (facing D t)) := by
  induction n generalizing t list with
  | zero => exact absurd hn (Nat.not_lt_zero _)
  | succ n ih =>
      cases hrun : objAddr {} (facing D t) with
      | error e s =>
          have hlist : objAddrList (n + 1) (facing D t) = .error e s := by
            rw [objAddrList, bind_error hrun]
          rw [bind_error hlist]
          refine .fault ?_
          rw [addrBody, bind_error hrun]
      | ok found s =>
          cases found with
          | none =>
              have hlist : objAddrList (n + 1) (facing D t) =
                  .error (.thrown (.runtimeError expectedAddress)) s := by
                rw [objAddrList, bind_ok hrun]
                rfl
              rw [bind_error hlist]
              refine .fault ?_
              rw [addrBody, bind_ok hrun]
              rfl
          | some a =>
              obtain ⟨rest, hentry, rfl⟩ := objAddr_some hrun hD
              have hD' := hentry.suffix.trans hD
              have hlen := hentry.length_lt
              by_cases hcomma : ascii "," <+: rest
              · obtain ⟨t', rfl⟩ := hcomma
                have hmatch := matchText_run hD'
                have hbody : addrBody list (facing D t) = .ok (.inl (list ++ [a])) (facing D t') := by
                  rw [addrBody, bind_ok hrun]
                  exact bind_ok hmatch _
                have hrest : (objAddrList (n + 1) >>= fun as => pure (list ++ as)) (facing D t) =
                    (objAddrList n >>= fun as => pure (list ++ [a] ++ as)) (facing D t') := by
                  have hlist : objAddrList (n + 1) (facing D t) =
                      (objAddrList n >>= fun as => pure (a :: as)) (facing D t') := by
                    rw [objAddrList, bind_ok hrun]
                    exact (bind_ok hmatch _).trans (if_pos rfl ▸ rfl)
                  cases hmore : objAddrList n (facing D t') with
                  | ok as s' =>
                      rw [bind_ok hmore] at hlist ⊢
                      rw [bind_ok hlist, List.append_assoc]
                      rfl
                  | error e s' =>
                      rw [bind_error hmore] at hlist ⊢
                      rw [bind_error hlist]
                rw [List.length_append] at hlen
                rw [hrest]
                exact .next hbody (ih (suffix_right hD') (by omega) _)
              · have hmatch := matchText_miss hD' hcomma
                have hlist : objAddrList (n + 1) (facing D t) = .ok [a] (facing D rest) := by
                  rw [objAddrList, bind_ok hrun]
                  exact bind_ok hmatch _
                rw [bind_ok hlist]
                refine .done ?_
                rw [addrBody, bind_ok hrun]
                exact bind_ok hmatch _

end UrlParser

/-- Behind a percent sign two characters are skipped, as far as they are there. -/
theorem decodeEscapes_percent (cs : Octets) (ii : Option ℤ) :
    decodeEscapes (37 :: cs) ii =
      match (scanHex (cs.take 2)).or ii with
      | none => .error (.undefined .uninitialized)
      | some v => (decodeEscapes (cs.drop 2) (some v)).map (UInt8.ofInt v :: ·) := by
  rw [decodeEscapes, if_pos rfl]
  cases (scanHex (cs.take 2)).or ii with
  | none => rfl
  | some v =>
      match cs with
      | [] => rfl
      | [_] => rfl
      | _ :: _ :: cs => rfl

theorem decodeEscapes_char {c : UInt8} (hc : c ≠ 37) (cs : Octets) (ii : Option ℤ) :
    decodeEscapes (c :: cs) ii = (decodeEscapes cs ii).map (c :: ·) := by
  rw [decodeEscapes, if_neg hc]
  rfl

theorem append_map_cons (ret : Octets) (c : UInt8) (x : Except Fault Octets) :
    (x.map (c :: ·)).map (ret ++ ·) = x.map (ret ++ [c] ++ ·) := by
  cases x with
  | error f => rfl
  | ok xs =>
      show Except.ok (ret ++ c :: xs) = Except.ok (ret ++ [c] ++ xs)
      rw [List.append_assoc]
      rfl

/-- Every round takes a character, or a percent sign and what is skipped with it.  What `substr` is
asked for begins in the text or at its end. -/
theorem decodeEscapes_loop (SRC : Octets) (url : UrlLexer) (i : ℕ) (ii : Option ℤ) (ret : Octets) :
    Loop (decodeBody SRC) (i, ii, ret) url
      (UrlLexer.lift url ((decodeEscapes (SRC.drop i) ii).map (ret ++ ·))) := by
  induction hn : SRC.length - i using Nat.strong_induction_on generalizing i ii ret with
  | _ n ih =>
      rcases Nat.lt_or_ge i SRC.length with hlt | hge
      · have hdrop : SRC.drop i = SRC.getD i 0 :: SRC.drop (i + 1) := by
          rw [List.drop_eq_getElem_cons hlt, List.getD_eq_getElem?_getD, List.getElem?_eq_getElem hlt]
          rfl
        rw [hdrop]
        by_cases hpercent : SRC.getD i 0 = 37
        · have htwo : UrlLexer.substr SRC (i + 1) 2 url = .ok ((SRC.drop (i + 1)).take 2) url := by
            rw [UrlLexer.substr, if_neg (by omega)]
            rfl
          have hskip : (SRC.drop (i + 1)).drop 2 = SRC.drop (i + 2 + 1) := by
            rw [List.drop_drop]
          rw [hpercent, decodeEscapes_percent, hskip]
          cases hscan : (scanHex ((SRC.drop (i + 1)).take 2)).or ii with
          | none =>
              have hbody : decodeBody SRC (i, ii, ret) url =
                  .error (.undefined .uninitialized) url := by
                rw [decodeBody, if_pos hlt, if_pos hpercent, bind_ok htwo]
                simp only [hscan]
                rfl
              exact .fault hbody
          | some v =>
              have hbody : decodeBody SRC (i, ii, ret) url =
                  .ok (.inl (i + 2 + 1, some v, ret ++ [UInt8.ofInt v])) url := by
                rw [decodeBody, if_pos hlt, if_pos hpercent, bind_ok htwo]
                simp only [hscan]
                rfl
              rw [append_map_cons]
              exact .next hbody (ih _ (by omega) _ _ _ rfl)
        · have hbody : decodeBody SRC (i, ii, ret) url =
              .ok (.inl (i + 1, ii, ret ++ [SRC.getD i 0])) url := by
            rw [decodeBody, if_pos hlt, if_neg hpercent]
            rfl
          rw [decodeEscapes_char hpercent, append_map_cons]
          exact .next hbody (ih _ (by omega) _ _ _ rfl)
      · rw [List.drop_eq_nil_of_le hge]
        show Loop _ _ _ (.ok (ret ++ []) url)
        rw [List.append_nil]
        refine .done ?_
        rw [decodeBody, if_neg (not_lt.2 hge)]
        rfl

/-- The loops of the source end in a text, wherever they begin, with what the model makes of them. -/
structure LoopsEnd (D : Octets) : Prop where
  skip : ∀ p pos, p 0 = false → pos ≤ D.length →
    RunsTo (UrlLexer.skipBody p) () ⟨D, pos⟩ (UrlLexer.skipWhile p (D.length + 1) ⟨D, pos⟩)
  uri : ∀ pos ≤ D.length,
    RunsTo UrlLexer.uriBody () ⟨D, pos⟩ (UrlLexer.uriLoop D.length ⟨D, pos⟩)
  labels : ∀ pos ≤ D.length,
    RunsTo UrlParser.labelsBody () ⟨D, pos⟩ (UrlParser.labels D.length ⟨D, pos⟩)
  addresses : ∀ pos ≤ D.length,
    RunsTo UrlParser.addrBody [] ⟨D, pos⟩ (UrlParser.objAddrList (D.length + 1) ⟨D, pos⟩)
  decode : ∀ SRC url,
    RunsTo (decodeBody SRC) (0, none, []) url (UrlLexer.lift url (_decodeURI SRC))

/-- **The loops end.** -/
theorem loopsEnd (D : Octets) : LoopsEnd D where
  skip p pos hp h := (UrlLexer.skipWhile_loop hp h (by omega)).runsTo
  uri pos h := (UrlLexer.uriLoop_loop h (by omega)).runsTo
  labels pos h := by
    rw [UrlLexer.eq_facing h]
    exact (UrlParser.labels_loop (List.drop_suffix pos D) (by rw [List.length_drop]; omega)).runsTo
  addresses pos h := by
    have hloop := UrlParser.objAddrList_loop (n := D.length + 1) (List.drop_suffix pos D)
      (by rw [List.length_drop]; omega) []
    rw [UrlLexer.eq_facing h]
    have hsame : (UrlParser.objAddrList (D.length + 1) >>= fun as => pure ([] ++ as)) =
        UrlParser.objAddrList (D.length + 1) := bind_pure _
    rw [hsame] at hloop
    exact hloop.runsTo
  decode SRC url := by
    have hloop := decodeEscapes_loop SRC url 0 none []
    have hsame : (decodeEscapes (SRC.drop 0) none).map ([] ++ ·) = _decodeURI SRC := by
      rw [List.drop_zero, _decodeURI]
      cases decodeEscapes SRC none <;> rfl
    rw [hsame] at hloop
    exact hloop.runsTo

/-! ### Staying in the text -/

/-- A fault that is neither a read behind the terminating zero nor a position that `substr` refuses. -/
def Fault.Harmless : Fault → Prop
  | .undefined (.overread _ _) => False
  | .thrown (.outOfRange _) => False
  | _ => True

/-- The position is in the text, or at its end. -/
def StaysInText {α : Type} (D : Octets) : EStateM.Result Fault UrlLexer α → Prop
  | .ok _ url => url.data = D ∧ url.pos ≤ D.length
  | .error f _ => f.Harmless

/-- From a position in the text, the program comes to one. -/
def UrlSafe {α : Type} (D : Octets) (x : UrlM α) : Prop :=
  ∀ pos ≤ D.length, StaysInText D (x ⟨D, pos⟩)

namespace UrlSafe

variable {α β : Type} {D : Octets} {x : UrlM α} {f : α → UrlM β}

theorem result {url : UrlLexer} (h : UrlSafe D x) (hdata : url.data = D) (hpos : url.pos ≤ D.length) :
    StaysInText D (x url) := by
  obtain ⟨data, pos⟩ := url
  subst hdata
  exact h pos hpos

protected theorem pure (a : α) : UrlSafe D (pure a) := fun _ hpos => ⟨rfl, hpos⟩

protected theorem throw {e : Fault} (h : e.Harmless) : UrlSafe D (throw e : UrlM α) := fun _ _ => h

/-- What follows begins where the first part has come to. -/
theorem of_result {s : UrlLexer} (hx : StaysInText D (x s)) (hf : ∀ a, UrlSafe D (f a)) :
    StaysInText D ((x >>= f) s) := by
  cases hrun : x s with
  | ok a s' =>
      rw [hrun] at hx
      rw [bind_ok hrun]
      exact (hf a).result hx.1 hx.2
  | error e s' =>
      rw [hrun] at hx
      rw [bind_error hrun]
      exact hx

protected theorem bind (hx : UrlSafe D x) (hf : ∀ a, UrlSafe D (f a)) : UrlSafe D (x >>= f) :=
  fun pos hpos => of_result (hx pos hpos) hf

/-- What follows a look at the lexer knows that it is in the text. -/
theorem get_bind {f : UrlLexer → UrlM α} (hf : ∀ pos ≤ D.length, UrlSafe D (f ⟨D, pos⟩)) :
    UrlSafe D (get >>= f) := fun pos hpos => hf pos hpos pos hpos

protected theorem map {g : α → β} (hx : UrlSafe D x) : UrlSafe D (x >>= fun a => pure (g a)) :=
  hx.bind fun _ => UrlSafe.pure _

end UrlSafe

/-! ### The functions of the parser -/

/-- What can be undefined about escapes is a variable. -/
theorem decodeEscapes_error (s : Octets) (ii : Option ℤ) {f : Fault}
    (h : decodeEscapes s ii = .error f) : f = .undefined .uninitialized := by
  have hmap : ∀ {x : Except Fault Octets} {b : UInt8}, x.map (b :: ·) = .error f → x = .error f := by
    intro x b hx
    cases x with
    | error e => exact congrArg Except.error (Except.error.inj hx)
    | ok xs => cases hx
  fun_induction decodeEscapes s ii with
  | case1 => cases h
  | case2 => exact (Except.error.inj h).symm
  | case3 _ _ _ _ _ _ _ ih => exact ih (hmap h)
  | case4 => cases h
  | case5 _ _ _ _ ih => exact ih (hmap h)

namespace UrlLexer

variable {D : Octets} {p : UInt8 → Bool}

theorem matchText_safe (s : Octets) : UrlSafe D (matchText s) := by
  refine UrlSafe.get_bind fun pos hpos => ?_
  split
  · exact UrlSafe.pure false
  · rename_i hin
    split
    · exact UrlSafe.pure false
    · intro pos' _
      exact ⟨rfl, not_lt.1 hin⟩

theorem substr_safe {s : Octets} {pos : ℕ} (h : pos ≤ s.length) (n : ℕ) : UrlSafe D (substr s pos n) := by
  rw [substr, if_neg (not_lt.2 h)]
  exact UrlSafe.pure _

/-- The zero behind the text is put back. -/
theorem skip_safe (hp : p 0 = false) : UrlSafe D (skip p) := by
  intro pos hpos
  have hsplit : (D.drop pos).takeWhile p ++ (D.drop pos).dropWhile p = D.drop pos :=
    List.takeWhile_append_dropWhile
  have hrun := skip_run (D := D) hp (hsplit ▸ List.drop_suffix pos D)
    (fun _ hc => List.mem_takeWhile_imp hc) (dropWhile_head p (D.drop pos))
  rw [hsplit] at hrun
  rw [eq_facing hpos, hrun]
  exact ⟨rfl, Nat.sub_le _ _⟩

theorem number_safe : UrlSafe D number := by
  refine UrlSafe.get_bind fun start _ => (skip_safe rfl).bind fun _ => UrlSafe.get_bind fun pos _ => ?_
  split
  · exact UrlSafe.pure none
  · split
    · exact UrlSafe.pure _
    · exact UrlSafe.throw trivial

theorem uriLoop_safe (n : ℕ) : UrlSafe D (uriLoop n) := by
  induction n with
  | zero => exact UrlSafe.pure ()
  | succ n ih =>
      intro pos hpos
      rcases Nat.lt_or_ge pos D.length with hlt | hge
      · have heof : eof ⟨D, pos⟩ = .ok false ⟨D, pos⟩ := by
          rw [eof, get_bind, pure_run, decide_eq_false (by show ¬ pos ≥ D.length; omega)]
        rw [uriLoop, bind_ok heof, if_neg Bool.false_ne_true, bind_ok (getc_run hpos)]
        split
        · exact ⟨rfl, hpos⟩
        · exact ih (pos + 1) hlt
      · have heof : eof ⟨D, pos⟩ = .ok true ⟨D, pos⟩ := by
          rw [eof, get_bind, pure_run, decide_eq_true hge]
        rw [uriLoop, bind_ok heof, if_pos rfl]
        exact ⟨rfl, hpos⟩

theorem uri_safe : UrlSafe D uri := by
  refine UrlSafe.get_bind fun start hstart => UrlSafe.get_bind fun _ _ =>
    (uriLoop_safe D.length).bind fun _ => UrlSafe.get_bind fun pos _ => ?_
  split
  · exact UrlSafe.pure none
  · refine (substr_safe hstart pos).bind fun SRC => ?_
    rw [_decodeURI]
    cases hret : decodeEscapes SRC none with
    | ok ret => exact UrlSafe.pure (some ret)
    | error f =>
        rw [decodeEscapes_error SRC none hret]
        exact UrlSafe.throw trivial

end UrlLexer

namespace UrlParser

open UrlLexer

variable {D : Octets}

theorem runtimeError_safe {α : Type} (what : String) : UrlSafe D (runtimeError what : UrlM α) :=
  UrlSafe.throw trivial

theorem keyString_safe : UrlSafe D keyString := uri_safe.map

theorem port_safe (addr : ObjectAddress) : UrlSafe D (port addr) := number_safe.map

/-- A label takes as many characters as it has. -/
theorem label_safe : UrlSafe D label := by
  intro pos hpos
  obtain ⟨l, rest, hl⟩ := exists_label (D.drop pos)
  rw [eq_facing hpos, label_run hl (List.drop_suffix pos D)]
  exact ⟨rfl, Nat.sub_le _ _⟩

theorem labels_safe (n : ℕ) : UrlSafe D (labels n) := by
  induction n with
  | zero => exact label_safe
  | succ n ih =>
      refine label_safe.bind fun _ => (matchText_safe _).bind fun dot => ?_
      split
      · exact ih
      · exact UrlSafe.pure ()

/-- The bracket that is found is in the text, and the position is set behind it. -/
theorem host_safe (addr : ObjectAddress) : UrlSafe D (host addr) := by
  refine UrlSafe.get_bind fun start hstart => (matchText_safe _).bind fun bracket => ?_
  split
  · refine UrlSafe.get_bind fun pos hpos => ?_
    split
    · exact runtimeError_safe _
    · rename_i i hfind
      have hlt := (List.findIdx?_eq_some_iff_getElem.1 hfind).1
      rw [List.length_drop] at hlt
      have hin : i < D.length - start := hlt
      refine (substr_safe hstart _).bind fun h pos' _ => ?_
      refine ⟨rfl, ?_⟩
      show start + i + 1 ≤ D.length
      omega
  · refine UrlSafe.get_bind fun _ _ => (labels_safe _).bind fun _ => UrlSafe.get_bind fun pos _ => ?_
    split
    · exact UrlSafe.pure addr
    · exact (substr_safe hstart _).map

theorem noVersion_safe {start : ℕ} (h : start ≤ D.length) (addr : ObjectAddress) :
    UrlSafe D (noVersion start addr) := fun _ _ => ⟨rfl, h⟩

theorem version_safe (addr : ObjectAddress) : UrlSafe D (version addr) := by
  refine UrlSafe.get_bind fun start hstart => number_safe.bind fun major => ?_
  split
  · refine (matchText_safe _).bind fun dot => ?_
    split
    · exact noVersion_safe hstart addr
    · refine number_safe.bind fun minor => ?_
      split
      · refine (matchText_safe _).bind fun sign => ?_
        split
        · exact noVersion_safe hstart addr
        · exact UrlSafe.pure _
      · exact noVersion_safe hstart addr
  · exact UrlSafe.pure addr

theorem iiopAddr_safe (addr : ObjectAddress) : UrlSafe D (iiopAddr addr) := by
  refine (version_safe addr).bind fun addr => (host_safe addr).bind fun addr =>
    (matchText_safe _).bind fun colon => ?_
  split
  · refine (port_safe addr).bind fun found => ?_
    split
    · exact UrlSafe.pure _
    · exact runtimeError_safe _
  · exact UrlSafe.pure addr

theorem iiopId_safe : UrlSafe D iiopId := by
  refine (matchText_safe _).bind fun iiop => ?_
  split
  · exact UrlSafe.pure true
  · exact matchText_safe _

theorem iiopProtAddr_safe (addr : ObjectAddress) : UrlSafe D (iiopProtAddr addr) := by
  refine iiopId_safe.bind fun iiop => ?_
  split
  · exact (iiopAddr_safe addr).map
  · exact UrlSafe.pure none

theorem rirProtAddr_safe (addr : ObjectAddress) : UrlSafe D (rirProtAddr addr) := by
  refine (matchText_safe _).bind fun rir => ?_
  split
  · exact UrlSafe.pure _
  · exact UrlSafe.pure none

theorem protAddr_safe (addr : ObjectAddress) : UrlSafe D (protAddr addr) := by
  refine (rirProtAddr_safe addr).bind fun found => ?_
  split
  · exact UrlSafe.pure _
  · exact iiopProtAddr_safe addr

theorem objAddrList_safe (n : ℕ) : UrlSafe D (objAddrList n) := by
  induction n with
  | zero => exact runtimeError_safe _
  | succ n ih =>
      refine (protAddr_safe {}).bind fun found => ?_
      split
      · refine (matchText_safe _).bind fun comma => ?_
        split
        · exact ih.map
        · exact UrlSafe.pure _
      · exact runtimeError_safe _

theorem corbaloc_safe (loc : CorbaLocation) : UrlSafe D (corbaloc loc) := by
  refine UrlSafe.get_bind fun _ _ => (objAddrList_safe _).bind fun addr =>
    (matchText_safe _).bind fun slash => ?_
  split
  · exact keyString_safe.map
  · exact UrlSafe.pure _

theorem corbaname_safe (name : CorbaName) : UrlSafe D (corbaname name) := by
  refine (corbaloc_safe _).bind fun loc => (matchText_safe _).bind fun hash => ?_
  split
  · refine uri_safe.bind fun found => ?_
    split <;> exact UrlSafe.pure _
  · exact UrlSafe.pure _

/-! ### Addresses -/

/-- There is an address in every list that is returned. -/
theorem objAddrList_ne_nil (n : ℕ) : Yields (· ≠ []) (objAddrList n) := by
  cases n with
  | zero => exact Yields.throw _
  | succ n =>
      refine Yields.of_rest fun found => ?_
      split
      · refine Yields.of_rest fun comma => ?_
        split
        · exact Yields.of_rest fun as => Yields.pure (List.cons_ne_nil _ _)
        · exact Yields.pure (List.cons_ne_nil _ _)
      · exact Yields.throw _

theorem corbaloc_ne_nil (loc : CorbaLocation) :
    Yields (fun loc : CorbaLocation => loc.addr ≠ []) (corbaloc loc) := by
  refine Yields.of_rest fun url => (objAddrList_ne_nil _).bind fun addr haddr =>
    Yields.of_rest fun slash => ?_
  have hne : loc.addr ++ addr ≠ [] := List.append_ne_nil_of_right_ne_nil _ haddr
  split
  · exact Yields.of_rest fun key => Yields.pure hne
  · exact Yields.pure hne

theorem corbaname_ne_nil (name : CorbaName) :
    Yields (fun name : CorbaName => name.addr ≠ []) (corbaname name) := by
  refine (corbaloc_ne_nil _).bind fun loc hloc => Yields.of_rest fun hash => ?_
  split
  · refine Yields.of_rest fun found => ?_
    split <;> exact Yields.pure hloc
  · exact Yields.pure hloc

end UrlParser

/-- The functions of the parser. -/
inductive Production where
  | number | uri | matchText (s : Octets)
  | keyString | port (addr : ObjectAddress) | label | host (addr : ObjectAddress)
  | version (addr : ObjectAddress) | iiopAddr (addr : ObjectAddress) | iiopId
  | iiopProtAddr (addr : ObjectAddress) | rirProtAddr (addr : ObjectAddress)
  | protAddr (addr : ObjectAddress) | objAddr (addr : ObjectAddress) | objAddrList
  | corbaloc (loc : CorbaLocation) | corbaname (name : CorbaName)

/-- What a function of the parser does to the lexer, without what it returns. -/
def Production.run (D : Octets) : Production → UrlM Unit
  | .number => do let _ ← UrlLexer.number
  | .uri => do let _ ← UrlLexer.uri
  | .matchText s => do let _ ← UrlLexer.matchText s
  | .keyString => do let _ ← UrlParser.keyString
  | .port addr => do let _ ← UrlParser.port addr
  | .label => UrlParser.label
  | .host addr => do let _ ← UrlParser.host addr
  | .version addr => do let _ ← UrlParser.version addr
  | .iiopAddr addr => do let _ ← UrlParser.iiopAddr addr
  | .iiopId => do let _ ← UrlParser.iiopId
  | .iiopProtAddr addr => do let _ ← UrlParser.iiopProtAddr addr
  | .rirProtAddr addr => do let _ ← UrlParser.rirProtAddr addr
  | .protAddr addr => do let _ ← UrlParser.protAddr addr
  | .objAddr addr => do let _ ← UrlParser.objAddr addr
  | .objAddrList => do let _ ← UrlParser.objAddrList (D.length + 1)
  | .corbaloc loc => do let _ ← UrlParser.corbaloc loc
  | .corbaname name => do let _ ← UrlParser.corbaname name

/-- **Every function of the parser comes from a position in the text to one.** -/
theorem Production.safe (D : Octets) (f : Production) : UrlSafe D (f.run D) := by
  cases f with
  | number => exact UrlLexer.number_safe.map
  | uri => exact UrlLexer.uri_safe.map
  | matchText s => exact (UrlLexer.matchText_safe s).map
  | keyString => exact UrlParser.keyString_safe.map
  | port addr => exact (UrlParser.port_safe addr).map
  | label => exact UrlParser.label_safe
  | host addr => exact (UrlParser.host_safe addr).map
  | version addr => exact (UrlParser.version_safe addr).map
  | iiopAddr addr => exact (UrlParser.iiopAddr_safe addr).map
  | iiopId => exact UrlParser.iiopId_safe.map
  | iiopProtAddr addr => exact (UrlParser.iiopProtAddr_safe addr).map
  | rirProtAddr addr => exact (UrlParser.rirProtAddr_safe addr).map
  | protAddr addr => exact (UrlParser.protAddr_safe addr).map
  | objAddr addr => exact (UrlParser.protAddr_safe addr).map
  | objAddrList => exact (UrlParser.objAddrList_safe _).map
  | corbaloc loc => exact (UrlParser.corbaloc_safe loc).map
  | corbaname name => exact (UrlParser.corbaname_safe name).map

/-! ### The whole parser -/

/-- A text is parsed safely: the loops end, every function of the parser stays in the text and so does
the parser, and there is an address in what is returned. -/
structure ParsedSafely [Platform] (s : Octets) : Prop where
  loops : LoopsEnd s
  productions : ∀ f : Production, UrlSafe s (f.run s)
  parser : StaysInText s (UrlParser.parse { data := s })
  addresses : ∀ v, decodeURI s = .ok v → v.addr ≠ []

/-- What is behind the scheme is parsed by one function. -/
theorem ParsedSafely.of_rule [Platform] {α : Type} {s t : Octets} {rule : UrlM α} {uri : α → Uri}
    (hparse : UrlParser.parse { data := s } =
      (rule >>= fun a => pure (uri a)) (UrlLexer.facing s t))
    (hsafe : UrlSafe s rule) (haddr : Yields (fun a => (uri a).addr ≠ []) rule) :
    ParsedSafely s := by
  refine ⟨loopsEnd _, Production.safe _, ?_, fun v hv => ?_⟩
  · rw [hparse]
    exact hsafe.map.result rfl (Nat.sub_le _ _)
  · rw [decodeURI, hparse, UrlParser.outcome_bind_pure] at hv
    cases hrun : rule (UrlLexer.facing s t) with
    | ok a url =>
        rw [hrun] at hv
        cases hv
        exact haddr _ _ _ hrun
    | error f url =>
        rw [hrun] at hv
        cases hv

/-- **Parsing is safe for every text with one of the two schemes.** -/
theorem parsing_is_safe [Platform] (t : Octets) :
    ParsedSafely (ascii "corbaloc:" ++ t) ∧ ParsedSafely (ascii "corbaname:" ++ t) := by
  constructor
  · exact .of_rule (UrlParser.parse_corbaloc t) (UrlParser.corbaloc_safe {})
      (UrlParser.corbaloc_ne_nil {})
  · exact .of_rule (UrlParser.parse_corbaname t) (UrlParser.corbaname_safe {})
      (UrlParser.corbaname_ne_nil {})

end Corba
