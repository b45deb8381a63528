/-
Cutting a stream into messages.

A sender puts messages one behind the other, the stream arrives in chunks that have nothing to do
with them, and the receiver hands out the messages again.  What it has to hand out after each chunk
is determined by the messages and by the number of elements received.  Nothing here depends on what
a message looks like.

Main definitions:

* `Framing.handed`, `Framing.remaining`, `Framing.kept` — the messages that are handed out when a
  message is only looked at when there is enough of the stream, the other ones, and how much has been
  received of them;
* `Framing.arrived` — the messages of which everything has been received;
* `Framing.rest`, `Framing.left` — the other messages, and how much has been received of them;
* `Framing.feedAll` — a receiver is given one chunk after the other;
* `Framing.Delivers` — what it hands out after each chunk is what has arrived.

Main results:

* `Framing.handed_add`, `Framing.arrived_add` — what comes later is counted from what is left;
* `Framing.Receiver.delivers` — a receiver that is right about each chunk is right about all.
-/

import Corba.Exec
import Mathlib.Data.List.Basic

set_option relaxedAutoImplicit false
set_option autoImplicit false

namespace Framing

open Exec

variable {α : Type*}

/-! ### What is handed out -/

/-- The messages that are handed out when the first `n` elements of the stream are there, if a
message is only looked at when at least `least` elements are there. -/
def handed (least : ℕ) : List (List α) → ℕ → List (List α)
  | [], _ => []
  | m :: ms, n => if m.length ≤ n ∧ least ≤ n then m :: handed least ms (n - m.length) else []

/-- The messages that are not handed out. -/
def remaining (least : ℕ) (ms : List (List α)) (n : ℕ) : List (List α) :=
  ms.drop (handed least ms n).length

/-- What has been received of them. -/
def kept (least : ℕ) (ms : List (List α)) (n : ℕ) : ℕ :=
  n - (handed least ms n).flatten.length

section Handed

variable {least : ℕ}

@[simp] theorem handed_nil (n : ℕ) : handed least ([] : List (List α)) n = [] := rfl

theorem handed_cons_of_le {m : List α} {n : ℕ} (ms : List (List α)) (h : m.length ≤ n)
    (hleast : least ≤ n) :
    handed least (m :: ms) n = m :: handed least ms (n - m.length) := by
  rw [handed, if_pos ⟨h, hleast⟩]

theorem handed_cons_of_not {m : List α} {n : ℕ} (ms : List (List α))
    (h : ¬ (m.length ≤ n ∧ least ≤ n)) : handed least (m :: ms) n = [] := by
  rw [handed, if_neg h]

theorem handed_initial (least : ℕ) (ms : List (List α)) (n : ℕ) : handed least ms n <+: ms := by
  induction ms generalizing n with
  | nil => exact List.prefix_refl []
  | cons m ms ih =>
      by_cases h : m.length ≤ n ∧ least ≤ n
      · rw [handed_cons_of_le ms h.1 h.2]
        exact List.cons_prefix_cons.2 ⟨rfl, ih _⟩
      · rw [handed_cons_of_not ms h]
        exact List.nil_prefix

theorem length_flatten_handed_le (least : ℕ) (ms : List (List α)) (n : ℕ) :
    (handed least ms n).flatten.length ≤ n := by
  induction ms generalizing n with
  | nil => exact Nat.zero_le n
  | cons m ms ih =>
      by_cases h : m.length ≤ n ∧ least ≤ n
      · have hle := h.1
        have := ih (n - m.length)
        rw [handed_cons_of_le ms h.1 h.2, List.flatten_cons, List.length_append]
        omega
      · rw [handed_cons_of_not ms h]
        exact Nat.zero_le n

theorem handed_append_remaining (least : ℕ) (ms : List (List α)) (n : ℕ) :
    handed least ms n ++ remaining least ms n = ms :=
  List.prefix_iff_eq_append.1 (handed_initial least ms n)

theorem remaining_cons_of_le {m : List α} {n : ℕ} (ms : List (List α)) (h : m.length ≤ n)
    (hleast : least ≤ n) :
    remaining least (m :: ms) n = remaining least ms (n - m.length) := by
  rw [remaining, handed_cons_of_le ms h hleast]
  rfl

theorem remaining_of_handed_eq_nil {ms : List (List α)} {n : ℕ} (h : handed least ms n = []) :
    remaining least ms n = ms := by
  rw [remaining, h]
  rfl

theorem kept_cons_of_le {m : List α} {n : ℕ} (ms : List (List α)) (h : m.length ≤ n)
    (hleast : least ≤ n) : kept least (m :: ms) n = kept least ms (n - m.length) := by
  rw [kept, kept, handed_cons_of_le ms h hleast, List.flatten_cons, List.length_append]
  omega

theorem kept_of_handed_eq_nil {ms : List (List α)} {n : ℕ} (h : handed least ms n = []) :
    kept least ms n = n := by
  rw [kept, h]
  rfl

theorem kept_le (least : ℕ) (ms : List (List α)) (n : ℕ) : kept least ms n ≤ n := Nat.sub_le _ _

/-- **What is handed out later is counted from what is left.** -/
theorem handed_add (least : ℕ) (ms : List (List α)) (n k : ℕ) :
    handed least ms (n + k) =
      handed least ms n ++ handed least (remaining least ms n) (kept least ms n + k) := by
  induction ms generalizing n with
  | nil => rfl
  | cons m ms ih =>
      by_cases h : m.length ≤ n ∧ least ≤ n
      · obtain ⟨hle, hleast⟩ := h
        have hsub : n + k - m.length = n - m.length + k := by omega
        rw [handed_cons_of_le ms hle hleast, remaining_cons_of_le ms hle hleast,
          kept_cons_of_le ms hle hleast, handed_cons_of_le ms (by omega) (by omega), hsub,
          ih (n - m.length), List.cons_append]
      · have hnil := handed_cons_of_not ms h
        rw [hnil, remaining_of_handed_eq_nil hnil, kept_of_handed_eq_nil hnil, List.nil_append]

/-- Nothing of what is left is handed out. -/
theorem handed_remaining (least : ℕ) (ms : List (List α)) (n : ℕ) :
    handed least (remaining least ms n) (kept least ms n) = [] := by
  have h := handed_add least ms n 0
  rw [Nat.add_zero, Nat.add_zero] at h
  exact List.self_eq_append_right.1 h

/-- The stream goes on with what is left. -/
theorem drop_flatten_handed (least : ℕ) (ms : List (List α)) (n : ℕ) :
    ms.flatten.drop n = (remaining least ms n).flatten.drop (kept least ms n) := by
  have hle := length_flatten_handed_le least ms n
  have hflatten :
      ms.flatten = (handed least ms n).flatten ++ (remaining least ms n).flatten := by
    rw [← List.flatten_append, handed_append_remaining]
  rw [hflatten, List.drop_append, List.drop_eq_nil_of_le hle, List.nil_append, kept]

theorem remaining_add (least : ℕ) (ms : List (List α)) (n k : ℕ) :
    remaining least ms (n + k) =
      remaining least (remaining least ms n) (kept least ms n + k) := by
  rw [remaining, handed_add, List.length_append, ← List.drop_drop]
  rfl

theorem kept_add (least : ℕ) (ms : List (List α)) (n k : ℕ) :
    kept least ms (n + k) = kept least (remaining least ms n) (kept least ms n + k) := by
  have hle := length_flatten_handed_le least ms n
  rw [kept, handed_add, List.flatten_append, List.length_append, kept, kept]
  omega

/-- Nothing is handed out exactly when all that has been received is kept. -/
theorem handed_eq_nil_iff {ms : List (List α)} {n : ℕ} (h : ∀ m ∈ ms, m ≠ []) :
    handed least ms n = [] ↔ kept least ms n = n := by
  constructor
  · exact kept_of_handed_eq_nil
  · intro hkept
    have hle := length_flatten_handed_le least ms n
    have hlength : (handed least ms n).flatten.length = 0 := by
      rw [kept] at hkept
      omega
    rw [List.eq_nil_iff_forall_not_mem]
    intro m hm
    have hnil := List.flatten_eq_nil_iff.1 (List.length_eq_zero_iff.1 hlength) m hm
    exact h m ((handed_initial least ms n).subset hm) hnil

/-- A message that is not handed out is incomplete, or there is too little to look at it. -/
theorem lt_of_handed_eq_nil {m : List α} {ms : List (List α)} {n : ℕ}
    (h : handed least (m :: ms) n = []) : n < m.length ∨ n < least := by
  by_contra hnot
  rw [handed_cons_of_le ms (by omega) (by omega)] at h
  cases h

end Handed

/-! ### What has arrived -/

/-- The messages of which the first `n` elements of the stream contain everything. -/
def arrived : List (List α) → ℕ → List (List α)
  | [], _ => []
  | m :: ms, n => if m.length ≤ n then m :: arrived ms (n - m.length) else []

@[simp] theorem arrived_nil (n : ℕ) : arrived ([] : List (List α)) n = [] := rfl

theorem arrived_cons_of_le {m : List α} {n : ℕ} (ms : List (List α)) (h : m.length ≤ n) :
    arrived (m :: ms) n = m :: arrived ms (n - m.length) := by
  rw [arrived, if_pos h]

theorem arrived_cons_of_lt {m : List α} {n : ℕ} (ms : List (List α)) (h : n < m.length) :
    arrived (m :: ms) n = [] := by
  rw [arrived, if_neg (by omega)]

/-- **When all that has arrived is long enough to be looked at, it is handed out.** -/
theorem handed_eq_arrived {least : ℕ} {ms : List (List α)} {n : ℕ}
    (h : ∀ m ∈ arrived ms n, least ≤ m.length) : handed least ms n = arrived ms n := by
  induction ms generalizing n with
  | nil => rfl
  | cons m ms ih =>
      rcases Nat.lt_or_ge n m.length with hlt | hge
      · rw [arrived_cons_of_lt ms hlt, handed_cons_of_not ms fun hboth => by omega]
      · rw [arrived_cons_of_le ms hge] at h ⊢
        have hleast := h m (List.mem_cons_self ..)
        rw [handed_cons_of_le ms hge (Nat.le_trans hleast hge),
          ih fun m' hm' => h m' (List.mem_cons_of_mem _ hm')]

/-- What has arrived is handed out when everything is looked at. -/
theorem handed_zero (ms : List (List α)) (n : ℕ) : handed 0 ms n = arrived ms n :=
  handed_eq_arrived fun _ _ => Nat.zero_le _

theorem arrived_initial (ms : List (List α)) (n : ℕ) : arrived ms n <+: ms :=
  handed_zero ms n ▸ handed_initial 0 ms n

theorem mem_of_mem_arrived {ms : List (List α)} {n : ℕ} {m : List α} (h : m ∈ arrived ms n) :
    m ∈ ms := (arrived_initial ms n).subset h

/-- In the end, everything has arrived. -/
theorem arrived_all (ms : List (List α)) : arrived ms ms.flatten.length = ms := by
  induction ms with
  | nil => rfl
  | cons m ms ih =>
      rw [List.flatten_cons, List.length_append, arrived_cons_of_le ms (Nat.le_add_right ..),
        Nat.add_sub_cancel_left, ih]

/-! ### What is left -/

/-- The messages of which something is still missing. -/
def rest (ms : List (List α)) (n : ℕ) : List (List α) := ms.drop (arrived ms n).length

/-- What has been received of them. -/
def left (ms : List (List α)) (n : ℕ) : ℕ := n - (arrived ms n).flatten.length

theorem remaining_zero (ms : List (List α)) (n : ℕ) : remaining 0 ms n = rest ms n := by
  rw [remaining, handed_zero, rest]

theorem kept_zero (ms : List (List α)) (n : ℕ) : kept 0 ms n = left ms n := by
  rw [kept, handed_zero, left]

/-- **What arrives later is counted from what is left.** -/
theorem arrived_add (ms : List (List α)) (n k : ℕ) :
    arrived ms (n + k) = arrived ms n ++ arrived (rest ms n) (left ms n + k) := by
  have h := handed_add 0 ms n k
  rwa [handed_zero, handed_zero, handed_zero, remaining_zero, kept_zero] at h

/-- Nothing of what is left has arrived. -/
theorem arrived_rest (ms : List (List α)) (n : ℕ) : arrived (rest ms n) (left ms n) = [] := by
  have h := handed_remaining 0 ms n
  rwa [handed_zero, remaining_zero, kept_zero] at h

/-- The stream goes on with what is left. -/
theorem drop_flatten (ms : List (List α)) (n : ℕ) :
    ms.flatten.drop n = (rest ms n).flatten.drop (left ms n) := by
  rw [drop_flatten_handed 0, remaining_zero, kept_zero]

/-! ### Receivers -/

section Receivers

variable {ε σ : Type} {β : Type} (feed : List β → EStateM ε σ (List (List β)))

/-- Give the receiver one chunk after the other.  There is one list of messages for each of them. -/
def feedAll : List (List β) → EStateM ε σ (List (List (List β)))
  | [] => return []
  | chunk :: chunks => do
      let ms ← feed chunk
      return ms :: (← feedAll chunks)

variable {feed} in
/-- One more chunk. -/
theorem feedAll_concat {s s' s'' : σ} {chunks : List (List β)} {out : List (List (List β))}
    {chunk : List β} {ms : List (List β)} (hchunks : feedAll feed chunks s = .ok out s')
    (hchunk : feed chunk s' = .ok ms s'') :
    feedAll feed (chunks ++ [chunk]) s = .ok (out ++ [ms]) s'' := by
  induction chunks generalizing s out with
  | nil =>
      cases hchunks
      rw [List.nil_append, feedAll, bind_ok hchunk]
      rfl
  | cons c chunks ih =>
      rw [feedAll, bind_eq_ok] at hchunks
      obtain ⟨ms', s₁, hfirst, hchunks⟩ := hchunks
      rw [bind_eq_ok] at hchunks
      obtain ⟨out', s₂, hrest, hpure⟩ := hchunks
      cases hpure
      rw [List.cons_append, feedAll, bind_ok hfirst, bind_ok (ih hrest), pure_run]
      rfl

/-- Each chunk fits into the room the receiver has when it comes. -/
def Admissible (fits : List β → σ → Prop) : List (List β) → σ → Prop
  | [], _ => True
  | chunk :: chunks, s => fits chunk s ∧ Admissible fits chunks (State (feed chunk s))

/-- After each chunk, what has been handed out so far is what has arrived. -/
def Delivers (ms : List (List β)) (n : ℕ) (chunks : List (List β)) (out : List (List (List β))) :
    Prop :=
  out.length = chunks.length ∧
    ∀ k, (out.take k).flatten = arrived ms (n + (chunks.take k).flatten.length)

/-- A receiver that keeps its state related to the messages of which something is missing and to
what it has received of them, as long as all that arrives is acceptable. -/
structure Receiver (fits : List β → σ → Prop) (accepts : List β → Prop)
    (Holds : σ → List (List β) → ℕ → Prop) : Prop where
  quiet : ∀ {s ms n}, Holds s ms n → arrived ms n = []
  step : ∀ {s ms n chunk}, Holds s ms n → fits chunk s → chunk <+: ms.flatten.drop n →
    (∀ m ∈ arrived ms (n + chunk.length), accepts m) →
    ∃ s', feed chunk s = .ok (arrived ms (n + chunk.length)) s' ∧
      Holds s' (rest ms (n + chunk.length)) (left ms (n + chunk.length))

variable {feed} {fits : List β → σ → Prop} {accepts : List β → Prop}
  {Holds : σ → List (List β) → ℕ → Prop}

/-- **A receiver that is right about each chunk is right about all of them.** -/
theorem Receiver.delivers (h : Receiver feed fits accepts Holds) {s : σ} {ms : List (List β)}
    {n : ℕ} {chunks : List (List β)} (hs : Holds s ms n) (hfits : Admissible feed fits chunks s)
    (hstream : chunks.flatten <+: ms.flatten.drop n)
    (haccepts : ∀ m ∈ arrived ms (n + chunks.flatten.length), accepts m) :
    ∃ out s', feedAll feed chunks s = .ok out s' ∧ Delivers ms n chunks out := by
  induction chunks generalizing s ms n with
  | nil =>
      refine ⟨[], s, rfl, rfl, fun k => ?_⟩
      rw [List.take_nil, List.take_nil]
      exact (h.quiet hs).symm
  | cons chunk chunks ih =>
      obtain ⟨hchunk, hchunks⟩ := hfits
      rw [List.flatten_cons] at hstream haccepts
      rw [List.length_append, ← Nat.add_assoc, arrived_add] at haccepts
      obtain ⟨s', hfeed, hs'⟩ := h.step hs hchunk ((List.prefix_append _ _).trans hstream)
        fun m hm => haccepts m (List.mem_append_left _ hm)
      rw [hfeed] at hchunks
      -- the chunks that follow go on where this one ends
      have hrest : chunks.flatten <+:
          (rest ms (n + chunk.length)).flatten.drop (left ms (n + chunk.length)) := by
        rw [← drop_flatten, ← List.drop_drop]
        obtain ⟨tail, htail⟩ := hstream
        rw [← htail, List.append_assoc, List.drop_left]
        exact List.prefix_append _ _
      obtain ⟨out, s'', hall, hlen, hout⟩ := ih hs' hchunks hrest
        fun m hm => haccepts m (List.mem_append_right _ hm)
      refine ⟨arrived ms (n + chunk.length) :: out, s'', ?_, by simp [hlen], ?_⟩
      · rw [feedAll, bind_ok hfeed, bind_ok hall, pure_run]
      · intro k
        cases k with
        | zero => exact (h.quiet hs).symm
        | succ k =>
            rw [List.take_succ_cons, List.take_succ_cons, List.flatten_cons, List.flatten_cons,
              hout k, List.length_append, ← Nat.add_assoc, arrived_add ms (n + chunk.length)]

end Receivers

end Framing
