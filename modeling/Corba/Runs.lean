/-
Runs of a machine and what holds all along them.

A machine takes one step for each event of a list.  What a development shows about a machine is that
something holds in every state of a run; where the machine has a defect, it holds as long as all
steps avoid it.

Main definitions:

* `Runs.Always` — a predicate holds in every state of a run;
* `Runs.Meets` — every step of a run meets a condition in the state before it.

Main results:

* `Runs.always_of_meets` — an invariant that is kept by the steps that meet a condition;
* `Runs.Meets.history` — the same for what holds of the events so far and the state they lead to;
* `Runs.Meets.simulates` — another machine that matches the steps matches the runs;
* `Runs.always_iff_meets`, `Runs.always_iff_meets_given`, `Runs.always_iff_meets_of` — a predicate
  that is kept by no other steps.
-/

import Mathlib.Data.List.Induction
import Mathlib.Data.Nat.Notation

set_option relaxedAutoImplicit false
set_option autoImplicit false

namespace Runs

variable {σ α : Type} {step : σ → α → σ}

/-- The predicate holds in every state of the run, from the first one on. -/
def Always (step : σ → α → σ) (P : σ → Prop) (s : σ) (as : List α) : Prop :=
  ∀ bs, bs <+: as → P (bs.foldl step s)

/-- Every step of the run meets the condition in the state before it. -/
def Meets (step : σ → α → σ) (C : σ → α → Prop) (s : σ) (as : List α) : Prop :=
  ∀ bs a, bs ++ [a] <+: as → C (bs.foldl step s) a

variable {P I : σ → Prop} {C : σ → α → Prop} {s : σ} {a : α} {as : List α}

@[simp] theorem always_nil : Always step P s [] ↔ P s := by
  constructor
  · intro h
    exact h [] List.prefix_rfl
  · intro h bs hbs
    obtain rfl := List.prefix_nil.1 hbs
    exact h

@[simp] theorem always_cons : Always step P s (a :: as) ↔ P s ∧ Always step P (step s a) as := by
  constructor
  · intro h
    refine ⟨h [] List.nil_prefix, ?_⟩
    intro bs hbs
    exact h (a :: bs) (List.cons_prefix_cons.2 ⟨rfl, hbs⟩)
  · rintro ⟨hs, h⟩ bs hbs
    cases bs with
    | nil => exact hs
    | cons b bs =>
        obtain ⟨rfl, hrest⟩ := List.cons_prefix_cons.1 hbs
        exact h bs hrest

@[simp] theorem meets_nil : Meets step C s [] := by
  intro bs a h
  exact absurd (List.prefix_nil.1 h) (by simp)

@[simp] theorem meets_cons :
    Meets step C s (a :: as) ↔ C s a ∧ Meets step C (step s a) as := by
  constructor
  · intro h
    refine ⟨h [] a (List.cons_prefix_cons.2 ⟨rfl, List.nil_prefix⟩), ?_⟩
    intro bs b hbs
    exact h (a :: bs) b (List.cons_prefix_cons.2 ⟨rfl, hbs⟩)
  · rintro ⟨ha, h⟩ bs b hbs
    cases bs with
    | nil =>
        obtain ⟨rfl, -⟩ := List.cons_prefix_cons.1 hbs
        exact ha
    | cons c bs =>
        obtain ⟨rfl, hrest⟩ := List.cons_prefix_cons.1 hbs
        exact h bs b hrest

instance instDecidableMeets [∀ s a, Decidable (C s a)] : (s : σ) → (as : List α) → Decidable (Meets step C s as)
  | _, [] => isTrue meets_nil
  | s, a :: as =>
      have : Decidable (Meets step C (step s a) as) := instDecidableMeets (step s a) as
      decidable_of_iff (C s a ∧ Meets step C (step s a) as) meets_cons.symm

theorem Always.first (h : Always step P s as) : P s := h [] List.nil_prefix

theorem Always.last (h : Always step P s as) : P (as.foldl step s) := h as List.prefix_rfl

theorem Always.mono {Q : σ → Prop} (h : Always step P s as) (hPQ : ∀ s, P s → Q s) :
    Always step Q s as := fun bs hbs => hPQ _ (h bs hbs)

/-- An invariant that is kept by the steps that meet the condition. -/
theorem always_of_meets (hstep : ∀ s a, I s → C s a → I (step s a)) (hs : I s)
    (h : Meets step C s as) : Always step I s as := by
  induction as generalizing s with
  | nil => exact always_nil.2 hs
  | cons a as ih =>
      obtain ⟨ha, has⟩ := meets_cons.1 h
      exact always_cons.2 ⟨hs, ih (hstep s a hs ha) has⟩

/-- What is kept by the steps that meet the condition, of the events so far and the state they lead
to. -/
theorem Meets.history {J : List α → σ → Prop} (hnil : J [] s)
    (hstep : ∀ as t a, J as t → C t a → J (as ++ [a]) (step t a)) (h : Meets step C s as) :
    J as (as.foldl step s) := by
  induction as using List.reverseRecOn with
  | nil => exact hnil
  | append_singleton as a ih =>
      rw [List.foldl_append]
      refine hstep as _ a (ih ?_) (h as a List.prefix_rfl)
      intro bs b hbs
      exact h bs b (hbs.trans (List.prefix_append _ _))

/-- Every step that meets the condition is matched by some steps of another machine, and so is every
run of such steps. -/
theorem Meets.simulates {τ β : Type} {step' : τ → β → τ} {R : σ → τ → Prop} {t : τ}
    (hstep : ∀ s t a, R s t → C s a → ∃ bs : List β, R (step s a) (bs.foldl step' t)) (hs : R s t)
    (h : Meets step C s as) : ∃ bs : List β, R (as.foldl step s) (bs.foldl step' t) := by
  induction as generalizing s t with
  | nil => exact ⟨[], hs⟩
  | cons a as ih =>
      obtain ⟨ha, has⟩ := meets_cons.1 h
      obtain ⟨bs, hbs⟩ := hstep s t a hs ha
      obtain ⟨cs, hcs⟩ := ih hbs has
      exact ⟨bs ++ cs, by rwa [List.foldl_append]⟩

/-- An invariant that is kept by every step. -/
theorem always_of_step (hstep : ∀ s a, I s → I (step s a)) (hs : I s) (as : List α) :
    Always step I s as :=
  always_of_meets (C := fun _ _ => True) (fun s a h _ => hstep s a h) hs fun _ _ _ => trivial

/-- A predicate that is kept by exactly the steps that meet the condition holds all along exactly
the runs whose steps do.  The steps may be known to meet something else, and what is invariant in
such runs may be used for it. -/
theorem always_iff_meets_given {D : σ → α → Prop} (hinv : ∀ s a, I s → D s a → I (step s a))
    (hstep : ∀ s a, I s → D s a → P s → (P (step s a) ↔ C s a)) (hI : I s) (hP : P s)
    (hD : Meets step D s as) : Always step P s as ↔ Meets step C s as := by
  induction as generalizing s with
  | nil => simp [hP]
  | cons a as ih =>
      obtain ⟨ha, hDs⟩ := meets_cons.1 hD
      rw [always_cons, meets_cons]
      constructor
      · rintro ⟨-, has⟩
        exact ⟨(hstep s a hI ha hP).1 has.first, (ih (hinv s a hI ha) has.first hDs).1 has⟩
      · rintro ⟨hC, has⟩
        have hP' := (hstep s a hI ha hP).2 hC
        exact ⟨hP, (ih (hinv s a hI ha) hP' hDs).2 has⟩

/-- The same for all runs. -/
theorem always_iff_meets (hinv : ∀ s a, I s → I (step s a))
    (hstep : ∀ s a, I s → P s → (P (step s a) ↔ C s a)) (hI : I s) (hP : P s) :
    Always step P s as ↔ Meets step C s as :=
  always_iff_meets_given (D := fun _ _ => True) (fun s a h _ => hinv s a h)
    (fun s a h _ => hstep s a h) hI hP fun _ _ _ => trivial

/-- The same where the steps that meet the condition keep more than what is asked for. -/
theorem always_iff_meets_of {J : σ → Prop} (hinv : ∀ s a, I s → I (step s a))
    (hkeep : ∀ s a, J s → C s a → J (step s a)) (hJ : ∀ s, J s → P s)
    (hneed : ∀ s a, I s → P (step s a) → C s a) (hI : I s) (hs : J s) :
    Always step P s as ↔ Meets step C s as := by
  constructor
  · intro h bs a hbs
    have hafter := h (bs ++ [a]) hbs
    rw [List.foldl_append] at hafter
    exact hneed _ a (always_of_step hinv hI bs).last hafter
  · intro h
    exact (always_of_meets hkeep hs h).mono hJ

end Runs
