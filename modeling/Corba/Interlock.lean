/-
Callers that wait for an answer.

A caller is parked under a key, and goes on when it is resumed under it.  It then runs up to its next
suspension before the one who has resumed it goes on, and may park further callers meanwhile.  When
the answers are not going to come, all parked callers are resumed one after the other, beginning with
whatever the container of the callers begins with.

Main definitions:

* `Interlock.suspend`, `Interlock.resume` — parking a caller, and taking it out again;
* `Interlock.round` — one round of the loop that resumes all callers;
* `Interlock.Quiet` — the callers that are resumed park nobody.

Main results:

* `Interlock.resume_eq_some`, `Interlock.resume_eq_none_iff` — who is resumed, and who stays;
* `Interlock.rounds_accounts` — nobody is lost, and nobody is resumed twice;
* `Interlock.ends_iff_quiet` — exactly when the loop ends and resumes those who were parked when it
  began.
-/

import Mathlib.Data.List.Perm.Basic
import Mathlib.Data.Nat.Notation
import Mathlib.Logic.Function.Iterate

set_option relaxedAutoImplicit false
set_option autoImplicit false

namespace Interlock

variable {κ γ σ : Type}

/-- The callers that are parked, with their keys. -/
abbrev Parked (κ γ : Type) := List (κ × γ)

def suspend (k : κ) (c : γ) (parked : Parked κ γ) : Parked κ γ := parked ++ [(k, c)]

/-! ### Resuming one caller -/

section Resume

variable [DecidableEq κ]

/-- The caller under a key, and those who stay. -/
def resume (k : κ) : Parked κ γ → Option (γ × Parked κ γ)
  | [] => none
  | e :: parked =>
      if e.1 = k then some (e.2, parked)
      else (resume k parked).map fun r => (r.1, e :: r.2)

theorem resume_eq_none_iff {k : κ} {parked : Parked κ γ} :
    resume k parked = none ↔ ∀ e ∈ parked, e.1 ≠ k := by
  induction parked with
  | nil => simp [resume]
  | cons e parked ih =>
      rw [resume, List.forall_mem_cons, ← ih]
      split
      · rename_i he
        simp [he]
      · rename_i he
        simp [he]

/-- Exactly one caller is taken out. -/
theorem resume_eq_some {k : κ} {c : γ} {parked rest : Parked κ γ}
    (h : resume k parked = some (c, rest)) : parked.Perm ((k, c) :: rest) := by
  induction parked generalizing rest with
  | nil => cases h
  | cons e parked ih =>
      rw [resume] at h
      split at h
      · rename_i he
        cases h
        rw [← he]
      · obtain ⟨⟨c', rest'⟩, hresume, heq⟩ := Option.map_eq_some_iff.1 h
        cases heq
        exact ((ih hresume).cons e).trans (List.Perm.swap _ _ _)

/-- A caller that is parked is resumed. -/
theorem resume_isSome {k : κ} {c : γ} {parked : Parked κ γ} (h : (k, c) ∈ parked) :
    (resume k parked).isSome := by
  rw [Option.isSome_iff_ne_none, ne_eq, resume_eq_none_iff]
  exact fun hall => hall _ h rfl

/-- The callers under other keys stay. -/
theorem mem_of_resume {k : κ} {c : γ} {parked rest : Parked κ γ} {e : κ × γ}
    (h : resume k parked = some (c, rest)) (he : e ∈ parked) (hk : e.1 ≠ k) : e ∈ rest := by
  rcases List.mem_cons.1 ((resume_eq_some h).subset he) with rfl | hmem
  · exact absurd rfl hk
  · exact hmem

end Resume

/-! ### Resuming all callers -/

/-- The caller an iteration over the parked callers begins with. -/
structure Begin (κ γ : Type) where
  first : (parked : Parked κ γ) → parked ≠ [] → κ × γ
  first_mem : ∀ parked h, first parked h ∈ parked

/-- An iteration that begins with the caller that has been parked first. -/
def Begin.oldest (κ γ : Type) : Begin κ γ where
  first := List.head
  first_mem := fun _ h => List.head_mem h

/-- How far the loop has come: the state of everything around the callers, the callers that are
parked, and those that have been resumed. -/
structure Unwinding (κ γ σ : Type) where
  ambient : σ
  parked : Parked κ γ
  resumed : Parked κ γ := []

/-- What the callers do that are resumed one after the other: each of them changes what is around
it, and parks further callers. -/
abbrev Reaction (κ γ σ : Type) := ℕ → σ → σ × Parked κ γ

section Loop

variable [DecidableEq κ] (first : Begin κ γ) (react : Reaction κ γ σ)

/-- One round of the loop, which ends when nobody is parked. -/
def round (u : Unwinding κ γ σ) : Unwinding κ γ σ :=
  if h : u.parked = [] then u
  else
    let e := first.first u.parked h
    match resume e.1 u.parked with
    | none => u
    | some (c, rest) =>
        let reaction := react u.resumed.length u.ambient
        { ambient := reaction.1
          parked := rest ++ reaction.2
          resumed := u.resumed ++ [(e.1, c)] }

/-- The loop after a number of rounds. -/
def rounds (n : ℕ) (s : σ) (parked : Parked κ γ) : Unwinding κ γ σ :=
  (round first react)^[n] { ambient := s, parked := parked }

theorem rounds_succ (n : ℕ) (s : σ) (parked : Parked κ γ) :
    rounds first react (n + 1) s parked = round first react (rounds first react n s parked) :=
  Function.iterate_succ_apply' _ _ _

/-- As long as somebody is parked, somebody is resumed. -/
theorem round_of_parked {u : Unwinding κ γ σ} (h : u.parked ≠ []) :
    ∃ k c rest, u.parked.Perm ((k, c) :: rest) ∧
      round first react u =
        { ambient := (react u.resumed.length u.ambient).1
          parked := rest ++ (react u.resumed.length u.ambient).2
          resumed := u.resumed ++ [(k, c)] } := by
  have hmem := first.first_mem u.parked h
  obtain ⟨⟨c, rest⟩, hresume⟩ := Option.isSome_iff_exists.1 (resume_isSome hmem)
  refine ⟨_, c, rest, resume_eq_some hresume, ?_⟩
  rw [round, dif_neg h]
  simp only [hresume]

theorem round_of_nobody {u : Unwinding κ γ σ} (h : u.parked = []) : round first react u = u :=
  dif_pos h

end Loop

/-! ### What the callers do -/

section Quiet

variable (react : Reaction κ γ σ) (s : σ)

/-- What is around the callers after a number of them have been resumed. -/
def after : ℕ → σ
  | 0 => s
  | k + 1 => (react k (after k)).1

/-- The callers that are parked by a caller that has been resumed. -/
def parkedBy (k : ℕ) : Parked κ γ := (react k (after react s k)).2

/-- The first callers that are resumed park nobody. -/
def Quiet (n : ℕ) : Prop := ∀ k < n, parkedBy react s k = []

end Quiet

variable [DecidableEq κ] (first : Begin κ γ) (react : Reaction κ γ σ) (s : σ)
  (parked : Parked κ γ)

/-- **Nobody is lost, and nobody is resumed twice**: those who have been resumed and those who are
parked are those who were parked at the beginning and those who have been parked since. -/
theorem rounds_accounts (n : ℕ) :
    let u := rounds first react n s parked
    u.ambient = after react s u.resumed.length ∧
      (u.resumed ++ u.parked).Perm
        (parked ++ (List.range u.resumed.length).flatMap (parkedBy react s)) := by
  induction n with
  | zero => simp [rounds, after]
  | succ n ih =>
      obtain ⟨hambient, hperm⟩ := ih
      rw [rounds_succ]
      generalize rounds first react n s parked = u at hambient hperm ⊢
      by_cases h : u.parked = []
      · rw [round_of_nobody first react h]
        exact ⟨hambient, hperm⟩
      · obtain ⟨k, c, rest, hrest, hround⟩ := round_of_parked first react h
        rw [hround]
        have hlast : (react u.resumed.length u.ambient).2 = parkedBy react s u.resumed.length := by
          rw [hambient, parkedBy]
        refine ⟨?_, ?_⟩
        · rw [List.length_append, List.length_singleton, after, ← hambient]
        · have hmove : (u.resumed ++ [(k, c)] ++ rest).Perm (u.resumed ++ u.parked) := by
            rw [List.append_assoc]
            exact hrest.symm.append_left u.resumed
          have hall := (hmove.trans hperm).append_right (parkedBy react s u.resumed.length)
          rw [List.append_assoc, List.append_assoc parked] at hall
          rw [List.length_append, List.length_singleton, List.range_succ, List.flatMap_append,
            List.flatMap_singleton, hlast]
          exact hall

/-- Every round resumes one more, until there have been as many as were parked. -/
theorem rounds_resumed {n : ℕ} (hn : n ≤ parked.length) :
    (rounds first react n s parked).resumed.length = n := by
  induction n with
  | zero => rfl
  | succ n ih =>
      have hlen := ih (by omega)
      obtain ⟨-, hperm⟩ := rounds_accounts first react s parked n
      rw [rounds_succ]
      generalize rounds first react n s parked = u at hlen hperm ⊢
      have hcount := hperm.length_eq
      rw [List.length_append, List.length_append, hlen] at hcount
      have hparked : u.parked ≠ [] := by
        intro hempty
        rw [hempty, List.length_nil] at hcount
        omega
      obtain ⟨k, c, rest, -, hround⟩ := round_of_parked first react hparked
      rw [hround, List.length_append, List.length_singleton, hlen]

/-- **The loop ends, and has resumed those who were parked when it began, exactly when none of them
parks anybody.** -/
theorem ends_iff_quiet :
    (∃ n, (rounds first react n s parked).parked = [] ∧
      (rounds first react n s parked).resumed.Perm parked) ↔ Quiet react s parked.length := by
  constructor
  · rintro ⟨n, hend, hall⟩ k hk
    obtain ⟨-, hperm⟩ := rounds_accounts first react s parked n
    have hcount := hperm.length_eq
    rw [hend, List.append_nil, List.length_append, hall.length_eq] at hcount
    have hnone : (List.range parked.length).flatMap (parkedBy react s) = [] :=
      List.length_eq_zero_iff.1 (by omega)
    exact List.flatMap_eq_nil_iff.1 hnone k (List.mem_range.2 hk)
  · intro h
    have hlen := rounds_resumed first react s parked (Nat.le_refl parked.length)
    obtain ⟨-, hperm⟩ := rounds_accounts first react s parked parked.length
    have hnone : (List.range parked.length).flatMap (parkedBy react s) = [] :=
      List.flatMap_eq_nil_iff.2 fun k hk => h k (List.mem_range.1 hk)
    rw [hlen, hnone, List.append_nil] at hperm
    have hcount := hperm.length_eq
    rw [List.length_append, hlen] at hcount
    have hend : (rounds first react parked.length s parked).parked = [] :=
      List.length_eq_zero_iff.1 (by omega)
    rw [hend, List.append_nil] at hperm
    exact ⟨parked.length, hend, hperm⟩

end Interlock
