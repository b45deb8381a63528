/-
Attempts and the timer that ends them.

A machine makes one attempt after the other, and a timer is to end those that do not succeed by
themselves.  The machine notes that it has started the timer, and does not start it again as long as
the note stands.  What runs is then not always a timer that has been started for the attempt.

Main definitions:

* `Attempts.Clock`, `Attempts.Clock.Moves` — what a machine shows of its attempts and of the timer, and
  what a step can do to it;
* `Attempts.Timing` — a machine that starts the timer with its attempts;
* `Attempts.Timing.Timed` — the timer has been started for the attempt that is under way.

Main results:

* `Attempts.Timing.timed_iff` — one step;
* `Attempts.Timing.timed_always_iff` — every attempt is timed exactly when none begins while the note
  stands.
-/

import Corba.Runs

set_option relaxedAutoImplicit false
set_option autoImplicit false

namespace Attempts

/-- How many attempts there have been, whether the last one is still under way, whether the timer is
noted as started, and whether it runs. -/
structure Clock where
  attempts : ℕ
  underway : Bool
  noted : Bool
  running : Bool

/-- The clock after an attempt has begun, which may be over at once. -/
def Clock.begun (c : Clock) (underway : Bool) : Clock :=
  { attempts := c.attempts + 1, underway, noted := true, running := c.running || !c.noted }

/-- What a step can do to the clock: it begins an attempt, leaves the clock alone, or leaves no
attempt under way. -/
inductive Clock.Moves (c : Clock) : Option Bool → Clock → Prop
  | begins (underway : Bool) : Moves c (some underway) (c.begun underway)
  | waits : Moves c none c
  | ended {c' : Clock} (hended : c'.underway = false) (hle : c.attempts ≤ c'.attempts) : Moves c none c'

theorem Clock.Moves.attempts_le {c c' : Clock} {begins : Option Bool} (h : c.Moves begins c') :
    c.attempts ≤ c'.attempts := by
  cases h with
  | begins underway => exact Nat.le_succ _
  | waits => exact Nat.le_refl _
  | ended hended hle => exact hle

/-- A machine that starts the timer when it begins an attempt. -/
structure Timing {σ α : Type} (step : σ → α → σ) (I : σ → Prop) where
  clock : σ → Clock
  /-- Whether the step begins an attempt, which is under way afterwards or over. -/
  begins : σ → α → Option Bool
  moves : ∀ s a, I s → (clock s).Moves (begins s a) (clock (step s a))

namespace Timing

variable {σ α : Type} {step : σ → α → σ} {I : σ → Prop} (t : Timing step I)

/-- One step, of the state together with the number of the attempt for which the timer has been
started last. -/
def recorded (s : σ × ℕ) (a : α) : σ × ℕ :=
  let next := step s.1 a
  (next, if (t.clock s.1).noted = false ∧ (t.clock next).noted = true then
    (t.clock next).attempts else s.2)

/-- **An attempt that is under way is timed**: the timer runs, and has been started for it. -/
def Timed (s : σ × ℕ) : Prop :=
  (t.clock s.1).underway = true → (t.clock s.1).running = true ∧ s.2 = (t.clock s.1).attempts

/-- No attempt that is under way afterwards begins while the timer is noted as started. -/
def BeginsUnnoted (s : σ × ℕ) (a : α) : Prop :=
  t.begins s.1 a = some true → (t.clock s.1).noted = false

/-- What holds in every state. -/
def Sound (s : σ × ℕ) : Prop := I s.1 ∧ s.2 ≤ (t.clock s.1).attempts

variable {t}

theorem Sound.recorded (hI : ∀ s a, I s → I (step s a)) {s : σ × ℕ} (h : t.Sound s) (a : α) :
    t.Sound (t.recorded s a) := by
  obtain ⟨hs, hle⟩ := h
  refine ⟨hI s.1 a hs, ?_⟩
  rw [Timing.recorded]
  dsimp only
  split
  · exact Nat.le_refl _
  · exact Nat.le_trans hle (t.moves s.1 a hs).attempts_le

/-- **After a step an attempt is timed exactly when the step does not begin it while the timer is
noted as started.** -/
theorem timed_iff {s : σ × ℕ} (hsound : t.Sound s) (h : t.Timed s) (a : α) :
    t.Timed (t.recorded s a) ↔ t.BeginsUnnoted s a := by
  obtain ⟨s, armed⟩ := s
  obtain ⟨hs, hle⟩ := hsound
  have hle : armed ≤ (t.clock s).attempts := hle
  have hmoves := t.moves s a hs
  rw [Timed, BeginsUnnoted, recorded]
  dsimp only
  generalize t.clock (step s a) = c', t.begins s a = begins at hmoves ⊢
  cases hmoves with
  | begins underway =>
      rw [Clock.begun]
      cases hnoted : (t.clock s).noted with
      | true =>
          -- the timer has been started for an earlier attempt, if at all
          have hne : armed ≠ (t.clock s).attempts + 1 := by omega
          simp [hne]
      | false => simp
  | waits =>
      refine iff_of_true (fun hunderway => ?_) nofun
      obtain ⟨hrunning, harmed⟩ := h hunderway
      refine ⟨hrunning, ?_⟩
      rw [if_neg (by simp)]
      exact harmed
  | ended hended hle =>
      refine iff_of_true (fun hunderway => ?_) nofun
      exact absurd (hended.symm.trans hunderway) Bool.false_ne_true

/-- **All attempts are timed exactly when none begins while the timer is noted as started.** -/
theorem timed_always_iff (hI : ∀ s a, I s → I (step s a)) {s : σ} (hs : I s)
    (hidle : (t.clock s).underway = false) (as : List α) :
    Runs.Always t.recorded t.Timed (s, 0) as ↔ Runs.Meets t.recorded t.BeginsUnnoted (s, 0) as := by
  refine Runs.always_iff_meets (I := t.Sound) (fun _ a h => h.recorded hI a)
    (fun _ a hsound h => timed_iff hsound h a) ⟨hs, Nat.zero_le _⟩ fun hunderway => ?_
  exact absurd (hidle.symm.trans hunderway) Bool.false_ne_true

end Timing

end Attempts
