/-
Descriptors the event loop watches.

When a connection has closed its descriptor, the event loop must not watch it any more: the number
can belong to something else soon, and `ev_io_init` must not be called for a watcher that is active.
Four paths close the descriptor, and which watchers are active then depends on what has happened
before.

Main definitions:

* `Corba.TcpConnection.Unwatched` — no descriptor that has been closed is watched;
* `Corba.TcpConnection.MeetsEpipe` — one of the answers to `::send` is `EPIPE`;
* `Corba.TcpConnection.ClosesUnwatched` — the steps that leave no closed descriptor watched.

Main results:

* `Corba.TcpConnection.flush_dead_iff` — when the loop over the queue finds the transport gone;
* `Corba.TcpConnection.step_unwatched_iff` — one step;
* `Corba.unwatched_always_iff` — no closed descriptor is watched exactly when all steps are of these
  kinds.
-/

import Corba.TcpRuns

set_option relaxedAutoImplicit false
set_option autoImplicit false

namespace Corba

open Exec

namespace TcpConnection

/-! ### Writing to a broken pipe -/

/-- One of the answers to `::send` that are used for these packets is `EPIPE`. -/
def MeetsEpipe : List SendResult → List Octets → ℕ → Prop
  | .epipe :: _, _ :: _, _ => True
  | .sent n :: results, packet :: packets, bytesSend =>
      packet.length - bytesSend ≤ n ∧ MeetsEpipe results packets 0
  | _, _, _ => False

/-- The loop over the queue finds the transport gone exactly when it meets `EPIPE`. -/
theorem flush_dead_iff {results : List SendResult} {c c' : TcpConnection} {alive : Bool}
    (h : flush results c = .ok alive c') :
    alive = false ↔ c.fd ≠ none ∧ MeetsEpipe results c.sendBuffer c.bytesSend := by
  induction results generalizing c with
  | nil =>
      cases h
      simp [MeetsEpipe]
  | cons result results ih =>
      cases hqueue : c.sendBuffer with
      | nil =>
          rw [flush, get_bind, hqueue] at h
          cases h
          simp [MeetsEpipe]
      | cons packet packets =>
          cases hfd : c.fd with
          | none =>
              rw [flush, get_bind, hqueue, hfd] at h
              cases h
              simp
          | some fd =>
              cases result with
              | epipe =>
                  rw [flush, get_bind, hqueue, hfd] at h
                  cases h
                  simp [MeetsEpipe]
              | failed =>
                  rw [flush, get_bind, hqueue, hfd] at h
                  cases h
                  simp [MeetsEpipe]
              | sent n =>
                  rw [flush_cons hqueue (by rw [hfd]; rfl), List.length_drop] at h
                  split at h
                  · rename_i hpart
                    cases h
                    simp only [MeetsEpipe]
                    simp
                    omega
                  · rename_i hall
                    have hfd' : (c.wrote (packet.drop c.bytesSend)).fd = some fd := hfd
                    rw [ih h, MeetsEpipe]
                    simp [hfd', Nat.not_lt.1 hall]

/-! ### Closed descriptors -/

/-- **A descriptor that has been closed is not watched.** -/
def Unwatched (c : TcpConnection) : Prop :=
  c.fd = none → c.readWatcher = false ∧ c.writeWatcher = false

/-- A connection with a socket reads from it. -/
structure Reading (c : TcpConnection) : Prop where
  sound : c.Sound
  watcher : c.fd ≠ none → c.readWatcher = true

theorem reading_initial : ({} : TcpConnection).Reading := ⟨sound_initial, by simp⟩

/-- The steps that leave no closed descriptor watched: the transport is not found gone while the
socket can be written to, and otherwise only while nobody waits for that. -/
def ClosesUnwatched (c : TcpConnection) : TcpEvent → Prop
  | .send _ _ => True
  | .up _ => True
  | .accept _ => True
  | .canWrite peer results =>
      if c.fd = none then c.sendBuffer = []
      else ¬ c.NotConnected peer ∧ ¬ MeetsEpipe results c.sendBuffer c.bytesSend
  | .canRead result _ => result = .failed → c.writeWatcher = false
  | .timer => c.state = .inprogress → c.writeWatcher = false

/-- What a call of `up` can do to the descriptor and its watchers. -/
theorem up_watched (connect : ConnectResult) (c : TcpConnection) :
    let c' := State (up connect c)
    c'.fd = c.fd ∧ c'.readWatcher = c.readWatcher ∧ c'.writeWatcher = c.writeWatcher ∨
      c'.fd ≠ none ∧ c'.readWatcher = true := by
  by_cases hfd : c.fd = none
  · cases connect with
    | failed peer error =>
        rw [up_failed hfd]
        exact .inl ⟨rfl, rfl, rfl⟩
    | opened fd inProgress =>
        rw [up_opened hfd]
        exact .inr ⟨Option.some_ne_none fd, rfl⟩
  · rw [up_of_socket hfd]
    exact .inl ⟨rfl, rfl, rfl⟩

theorem Reading.up {c : TcpConnection} (h : c.Reading) (connect : ConnectResult) :
    (State (up connect c)).Reading := by
  refine ⟨h.sound.up connect, ?_⟩
  rcases up_watched connect c with ⟨hfd, hread, -⟩ | ⟨-, hread⟩
  · rw [hfd, hread]
    exact h.watcher
  · exact fun _ => hread

theorem Unwatched.up {c : TcpConnection} (h : c.Unwatched) (connect : ConnectResult) :
    (State (TcpConnection.up connect c)).Unwatched := by
  rcases up_watched connect c with ⟨hfd, hread, hwrite⟩ | ⟨hfd, -⟩
  · rw [Unwatched, hfd, hread, hwrite]
    exact h
  · exact fun hnone => absurd hnone hfd

/-- A packet that is queued does not matter to the watchers. -/
theorem Reading.queued {c : TcpConnection} (h : c.Reading) (packet : Octets) :
    (c.queued packet).Reading := ⟨h.sound.queued packet, h.watcher⟩

/-- A connection that has lost its socket. -/
theorem reading_of_no_socket {c : TcpConnection} (hsound : c.Sound) (hfd : c.fd = none) :
    c.Reading := ⟨hsound, fun hsome => absurd hfd hsome⟩

section Step

variable [Platform] {c : TcpConnection}

theorem Reading.step (h : c.Reading) (event : TcpEvent) : (c.step event).Reading := by
  have hsound := h.sound.step event
  cases event with
  | send packet connect =>
      rw [TcpConnection.step, send_run] at hsound ⊢
      cases hstate : c.state with
      | idle => exact (h.queued packet).up connect
      | established =>
          rw [hstate] at hsound
          exact ⟨hsound, h.watcher⟩
      | pending => exact h.queued packet
      | inprogress => exact h.queued packet
  | up connect => exact h.up connect
  | accept client =>
      rw [TcpConnection.step, accept_run] at hsound ⊢
      split at hsound
      · rename_i hfd
        rw [if_pos hfd]
        exact ⟨hsound, fun _ => rfl⟩
      · rename_i hfd
        rw [if_neg hfd]
        exact h
  | canWrite peer results =>
      obtain ⟨c', out, hflushed, hrun⟩ := canWrite_spec peer results h.sound.fronted
      rw [TcpConnection.step] at hsound ⊢
      rcases hrun with hrun | hrun
      · rw [hrun] at hsound ⊢
        refine ⟨hsound, ?_⟩
        show c'.fd ≠ none → c'.readWatcher = true
        rw [hflushed.eq]
        exact h.watcher
      · rw [hrun] at hsound ⊢
        exact reading_of_no_socket hsound rfl
  | canRead result recv =>
      rw [TcpConnection.step] at hsound ⊢
      rcases canRead_spec result recv c with hreceived | hlost
      · refine ⟨hsound, ?_⟩
        rw [hreceived.fd, hreceived.readWatcher]
        exact h.watcher
      · rw [hlost] at hsound ⊢
        exact reading_of_no_socket hsound rfl
  | timer =>
      rw [TcpConnection.step] at hsound ⊢
      by_cases hstate : c.state = .inprogress
      · rw [timer_inprogress hstate] at hsound ⊢
        exact reading_of_no_socket hsound rfl
      · rw [timer_idle hstate] at hsound ⊢
        exact ⟨hsound, h.watcher⟩

omit [Platform] in
/-- A socket that can be written to is still watched when it is closed. -/
theorem canWrite_unwatched_iff (hreading : c.Reading) (h : c.Unwatched) (peer : Bool)
    (results : List SendResult) :
    (State (canWrite peer results c)).Unwatched ↔ c.ClosesUnwatched (.canWrite peer results) := by
  rw [ClosesUnwatched]
  have hwatched : c.fd ≠ none → ∀ c' : TcpConnection, c'.readWatcher = c.readWatcher →
      ¬ c'.broken.Unwatched := by
    intro hfd c' hsame hunwatched
    have hread : c'.readWatcher = false := (hunwatched rfl).1
    rw [hsame, hreading.watcher hfd] at hread
    cases hread
  by_cases hpeer : c.NotConnected peer
  · have hfd : c.fd ≠ none := by
      intro hnone
      rcases hreading.sound.attached.1 hnone with hstate | hstate <;>
        exact absurd (hpeer.1.symm.trans hstate) (by decide)
    rw [canWrite_notConnected hpeer, if_neg hfd]
    exact iff_of_false (hwatched hfd c.quiet rfl) fun hkeeps => hkeeps.1 hpeer
  · obtain ⟨alive, c', out, hflush, hflushed⟩ :=
      flush_spec results (c := c.quiet) hreading.sound.fronted
    have hdead := flush_dead_iff hflush
    have hfd' : c'.fd = c.fd := by
      rw [hflushed.eq]
      rfl
    rw [canWrite_run hpeer hflush, State_ok]
    by_cases hfd : c.fd = none
    · have halive : alive = true := by
        cases alive with
        | true => rfl
        | false => exact absurd hfd (hdead.1 rfl).1
      rw [if_pos hfd, if_pos halive, hflushed.socket hfd]
      have hread := (h hfd).1
      simp [Unwatched, quiet, hfd, hread]
    · rw [if_neg hfd]
      cases alive with
      | true =>
          rw [if_pos rfl]
          refine iff_of_true ?_ ⟨hpeer, fun hepipe => ?_⟩
          · intro hnone
            exact absurd (hfd'.symm.trans hnone) hfd
          · exact absurd (hdead.2 ⟨hfd, hepipe⟩) (by decide)
      | false =>
          rw [if_neg Bool.false_ne_true]
          refine iff_of_false (hwatched hfd c' ?_) fun hkeeps => hkeeps.2 (hdead.1 rfl).2
          rw [hflushed.eq]
          rfl

/-- **After a step no closed descriptor is watched exactly when it is one of these.** -/
theorem step_unwatched_iff (hreading : c.Reading) (h : c.Unwatched) (event : TcpEvent) :
    (c.step event).Unwatched ↔ c.ClosesUnwatched event := by
  cases event with
  | send packet connect =>
      refine iff_of_true ?_ trivial
      have hqueued : (c.queued packet).Unwatched := h
      rw [step, send_run]
      cases hstate : c.state with
      | idle => exact hqueued.up connect
      | established =>
          intro hnone
          rcases hreading.sound.attached.1 hnone with hother | hother <;>
            exact absurd (hstate.symm.trans hother) (by decide)
      | pending => exact h
      | inprogress => exact h
  | up connect => exact iff_of_true (h.up connect) trivial
  | accept client =>
      refine iff_of_true ?_ trivial
      rw [step, accept_run]
      split
      · intro hnone
        cases hnone
      · exact h
  | canWrite peer results => exact canWrite_unwatched_iff hreading h peer results
  | canRead result recv =>
      rw [step, ClosesUnwatched]
      by_cases hlost : c.fd = none ∨ result = .failed
      · rw [canRead_lost hlost]
        constructor
        · intro hunwatched _
          exact (hunwatched rfl).2
        · intro hwrite _
          refine ⟨rfl, ?_⟩
          rcases hlost with hfd | hfailed
          · exact (h hfd).2
          · exact hwrite hfailed
      · push Not at hlost
        refine iff_of_true ?_ fun hfailed => absurd hfailed hlost.2
        intro hnone
        exact absurd ((canRead_kept hlost.1 hlost.2 recv).fd.symm.trans hnone) hlost.1
  | timer =>
      rw [step, ClosesUnwatched]
      by_cases hstate : c.state = .inprogress
      · rw [timer_inprogress hstate]
        constructor
        · intro hunwatched _
          exact (hunwatched rfl).2
        · intro hwrite _
          exact ⟨rfl, hwrite hstate⟩
      · rw [timer_idle hstate]
        exact iff_of_true h fun hyes => absurd hyes hstate

end Step

end TcpConnection

/-- **No closed descriptor is watched exactly when all steps are of these kinds.**  In such a run,
`up` never calls `ev_io_init` for a watcher that is active. -/
theorem unwatched_always_iff [Platform] (events : List TcpEvent) :
    (Runs.Always TcpConnection.step TcpConnection.Unwatched {} events ↔
      Runs.Meets TcpConnection.step TcpConnection.ClosesUnwatched {} events) ∧
    (Runs.Meets TcpConnection.step TcpConnection.ClosesUnwatched {} events →
      Runs.Meets TcpConnection.step
        (fun c event => c.Opens event → c.readWatcher = false ∧ c.writeWatcher = false) {}
        events) := by
  have hiff : Runs.Always TcpConnection.step TcpConnection.Unwatched {} events ↔
      Runs.Meets TcpConnection.step TcpConnection.ClosesUnwatched {} events :=
    Runs.always_iff_meets (I := TcpConnection.Reading) (fun _ event h => h.step event)
      (fun _ event hreading h => TcpConnection.step_unwatched_iff hreading h event)
      TcpConnection.reading_initial fun _ => ⟨rfl, rfl⟩
  refine ⟨hiff, fun hmeets bs event hbs hopens => ?_⟩
  refine (hiff.2 hmeets) bs ((List.prefix_append _ _).trans hbs) ?_
  have hsound := TcpConnection.sound_run bs
  cases event with
  | send packet connect =>
      cases connect with
      | failed peer error => cases hopens
      | opened fd inProgress => exact hsound.attached.2 (.inl hopens)
  | up connect =>
      cases connect with
      | failed peer error => cases hopens
      | opened fd inProgress => exact hopens
  | _ => cases hopens

/-- The far end cannot be reached, and the descriptor that has been closed is still read from.  The
timer expires before the socket can be written to, and the descriptor is still waited for. -/
theorem closed_still_watched :
    letI : Platform := ⟨.little⟩
    (∃ events : List TcpEvent,
      let c := events.foldl TcpConnection.step {}
      c.fd = none ∧ c.readWatcher = true ∧ ¬ c.Unwatched) ∧
    ∃ events : List TcpEvent,
      let c := events.foldl TcpConnection.step {}
      c.fd = none ∧ c.writeWatcher = true ∧ ¬ c.Unwatched := by
  let : Platform := ⟨.little⟩
  constructor
  · refine ⟨[.send [1] (.opened 3 true), .canWrite false []], rfl, rfl, fun h => ?_⟩
    exact absurd (h rfl).1 (by decide)
  · refine ⟨[.send [1] (.opened 3 true), .timer], rfl, rfl, fun h => ?_⟩
    exact absurd (h rfl).2 (by decide)

end Corba
