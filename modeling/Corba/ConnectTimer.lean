/-
The timer of an attempt to connect.

`up()` of both kinds of connections starts a timer that is to end the attempt when the far end does
not answer.  `timer_active` says whether it has been started, and keeps it from being started twice.

Main definitions:

* `Corba.TcpConnection.timing`, `Corba.WsConnection.timing` — what a connection does with the timer.

Main results:

* `Corba.TcpConnection.canRead_clock`, `Corba.WsConnection.canWrite_clock`, … — what the handlers do
  with it;
* `Corba.attempts_timed_iff` — every attempt is timed exactly when none begins while `timer_active`
  is set.
-/

import Corba.Attempts
import Corba.ConnectionLoss

set_option relaxedAutoImplicit false
set_option autoImplicit false

namespace Corba

open Exec Attempts

/-- The clock after an attempt to connect. -/
def ConnectResult.clock (k : Clock) : ConnectResult → Clock
  | .failed _ _ => { k with underway := false }
  | .opened _ inProgress => k.begun inProgress

/-- Whether there is a socket, the connection of which may be in progress. -/
def ConnectResult.begins : ConnectResult → Option Bool
  | .failed _ _ => none
  | .opened _ inProgress => some inProgress

theorem ConnectResult.moves (k : Clock) (connect : ConnectResult) :
    k.Moves connect.begins (connect.clock k) := by
  cases connect with
  | failed peer error => exact .ended rfl (Nat.le_refl _)
  | opened fd inProgress => exact .begins inProgress

namespace TcpConnection

/-! ### TCP -/

/-- A socket is an attempt that is over when it comes from a client. -/
def clock (c : TcpConnection) : Clock where
  attempts := c.sockets.length
  underway := c.state == .inprogress
  noted := c.timerActive
  running := c.timerRunning

/-- Whether the step opens a socket, the connection of which may be in progress. -/
def begins (c : TcpConnection) : TcpEvent → Option Bool
  | .send _ connect => if c.state = .idle ∧ c.fd = none then connect.begins else none
  | .up connect => if c.fd = none then connect.begins else none
  | _ => none

theorem up_clock (connect : ConnectResult) (c : TcpConnection) :
    (State (up connect c)).clock = if c.fd = none then connect.clock c.clock else c.clock := by
  split
  · rename_i hfd
    cases connect with
    | failed peer error =>
        rw [up_failed hfd]
        rfl
    | opened fd inProgress =>
        rw [up_opened hfd]
        cases inProgress <;> rfl
  · rename_i hfd
    rw [up_of_socket hfd]
    rfl

theorem send_clock (packet : Octets) (connect : ConnectResult) (c : TcpConnection) :
    (State (send packet connect c)).clock =
      if c.state = .idle then (State (up connect c)).clock else c.clock := by
  rw [send_run]
  cases hstate : c.state with
  | idle =>
      rw [if_pos rfl]
      exact (up_clock connect (c.queued packet)).trans (up_clock connect c).symm
  | _ => rfl

theorem accept_moves (client : ℕ) (c : TcpConnection) :
    c.clock.Moves none (State (accept client c)).clock := by
  rw [accept_run]
  split
  · exact .ended rfl (Nat.le_succ _)
  · exact .waits

/-- A connection whose transport has not been found gone still waits. -/
theorem canWrite_moves {c : TcpConnection} (h : c.Fronted) (peer : Bool)
    (results : List SendResult) :
    c.clock.Moves none (State (canWrite peer results c)).clock := by
  obtain ⟨c', out, hflushed, hrun⟩ := canWrite_spec peer results h
  have hclock : c'.clock = c.clock := by
    rw [hflushed.eq, clock, clock]
    simp [wrote, quiet]
  rw [← hclock]
  rcases hrun with hrun | hrun
  · rw [hrun]
    exact .waits
  · rw [hrun]
    exact .ended rfl List.length_modifyHead.ge

section Receiving

variable [Platform]

/-- What has been received ends an attempt, and stops its timer. -/
theorem receive_inprogress {c : TcpConnection} (h : c.state = .inprogress) (octets : Octets)
    (recv : ℕ → Option Thrown) :
    receive octets recv c =
      receive octets recv (State (stopTimer { c with state := .established })) := by
  obtain ⟨state, fd, r, w, active, running, stream, buffer, bytes, sockets, inflows⟩ := c
  obtain rfl : state = .inprogress := h
  cases active <;> rfl

omit [Platform] in
theorem Received.not_inprogress {c c' : TcpConnection} (h : c.Received c')
    (hc : c.state ≠ .inprogress) : c'.state ≠ .inprogress := by
  rcases h.state with hstate | ⟨hstate, -⟩
  · rw [hstate]
    exact hc
  · exact absurd hstate hc

/-- After octets have been received, no attempt is under way. -/
theorem receive_not_inprogress (octets : Octets) (recv : ℕ → Option Thrown) (c : TcpConnection) :
    (State (receive octets recv c)).state ≠ .inprogress := by
  by_cases hstate : c.state = .inprogress
  · rw [receive_inprogress hstate]
    refine Received.not_inprogress (preserves_receive _ octets recv _ (.refl _)) ?_
    obtain ⟨state, fd, r, w, active, running, stream, buffer, bytes, sockets, inflows⟩ := c
    cases active <;> nofun
  · exact Received.not_inprogress (preserves_receive c octets recv c (.refl c)) hstate

/-- An attempt that is still under way after reading has not been touched. -/
theorem canRead_moves (result : RecvResult) (recv : ℕ → Option Thrown) (c : TcpConnection) :
    c.clock.Moves none (State (canRead result recv c)).clock := by
  by_cases hlost : c.fd = none ∨ result = .failed
  · rw [canRead_lost hlost]
    exact .ended rfl List.length_modifyHead.ge
  · push Not at hlost
    obtain ⟨hfd, hresult⟩ := hlost
    cases result with
    | failed => exact absurd rfl hresult
    | again =>
        rw [canRead_again hfd]
        exact .waits
    | received octets =>
        have hreceived := (received_canRead hfd octets recv).1
        have hnot : (State (canRead (.received octets) recv c)).state ≠ .inprogress := by
          rw [canRead_received hfd]
          have hstate := receive_not_inprogress octets recv c.roomy
          cases hrun : receive octets recv c.roomy with
          | ok u c' =>
              rw [bind_ok hrun]
              rwa [hrun] at hstate
          | error f c' =>
              rw [bind_error hrun]
              rwa [hrun] at hstate
        exact .ended (beq_eq_false_iff_ne.2 hnot) (congrArg List.length hreceived.sockets).ge

end Receiving

theorem timer_moves (c : TcpConnection) : c.clock.Moves none (State (timer c)).clock := by
  by_cases hstate : c.state = .inprogress
  · rw [timer_inprogress hstate]
    exact .ended rfl List.length_modifyHead.ge
  · rw [timer_idle hstate]
    exact .ended (beq_eq_false_iff_ne.2 hstate) (Nat.le_refl _)

theorem up_moves (connect : ConnectResult) (c : TcpConnection) :
    c.clock.Moves (c.begins (.up connect)) (State (up connect c)).clock := by
  rw [begins, up_clock]
  split
  · exact connect.moves c.clock
  · exact .waits

theorem send_moves (packet : Octets) (connect : ConnectResult) (c : TcpConnection) :
    c.clock.Moves (c.begins (.send packet connect)) (State (send packet connect c)).clock := by
  rw [begins, send_clock]
  by_cases hidle : c.state = .idle
  · simp only [hidle, true_and, if_true]
    exact up_moves connect c
  · simp only [hidle, false_and, if_false]
    exact .waits

/-- **What a TCP connection does with the timer.** -/
def timing [Platform] : Timing step Sound where
  clock := clock
  begins := begins
  moves c event hsound := by
    cases event with
    | send packet connect => exact send_moves packet connect c
    | up connect => exact up_moves connect c
    | accept client => exact accept_moves client c
    | canWrite peer results => exact canWrite_moves hsound.fronted peer results
    | canRead result recv => exact canRead_moves result recv c
    | timer => exact timer_moves c

end TcpConnection

namespace WsConnection

/-! ### WebSockets -/

/-- A socket is an attempt that is over when it comes from a client. -/
def clock (c : WsConnection) : Clock where
  attempts := c.sockets.length
  underway := c.state == .inprogress
  noted := c.timerActive
  running := c.timerRunning

/-- Whether the step opens a socket, the connection of which may be in progress. -/
def begins (c : WsConnection) : WsEvent → Option Bool
  | .send _ connect _ => if c.state = .idle ∧ c.fd = none then connect.begins else none
  | .up connect => if c.fd = none then connect.begins else none
  | _ => none

theorem up_clock (connect : ConnectResult) (c : WsConnection) :
    (State (up connect c)).clock = if c.fd = none then connect.clock c.clock else c.clock := by
  obtain ⟨l, upgrade, state, fd, r, w, active, running, headers, key, ctx, buffer, sockets, uses⟩ := c
  cases fd with
  | some fd => cases connect <;> rfl
  | none =>
      cases connect with
      | failed peer error => rfl
      | opened fd inProgress => cases inProgress <;> cases active <;> cases running <;> rfl

theorem accept_moves (client : ℕ) (c : WsConnection) :
    c.clock.Moves none (State (accept client c)).clock := by
  obtain ⟨l, upgrade, state, fd, r, w, active, running, headers, key, ctx, buffer, sockets, uses⟩ := c
  cases fd with
  | some fd => exact .waits
  | none => exact .ended rfl (Nat.le_succ _)

theorem timer_moves (c : WsConnection) : c.clock.Moves none (State (timer c)).clock := by
  by_cases hstate : c.state = .inprogress
  · rw [timer_inprogress hstate]
    exact .ended rfl List.length_modifyHead.ge
  · rw [timer, modify_bind, get_bind, if_neg hstate]
    exact .ended (beq_eq_false_iff_ne.2 hstate) (Nat.le_refl _)

/-- What is written to a socket does not matter to the timer. -/
theorem wrote_clock (octets : Octets) (c : WsConnection) : (c.wrote octets).clock = c.clock := by
  simp [wrote, clock]

section Handlers

variable {k : Clock}

theorem clock_flushSendBuffer (answer : WslayAnswer) :
    Preserves (fun c => c.clock = k) (flushSendBuffer answer) :=
  preserves_flushSendBuffer (fun _ _ h => h) (fun _ _ h => h) (fun _ h => h) (fun _ h => h) answer

theorem clock_startWSMode (initialized : Bool) (answer : WslayAnswer) :
    Preserves (fun c => c.clock = k) (startWSMode initialized answer) := by
  intro c h
  rw [startWSMode_run]
  exact clock_flushSendBuffer answer _ h

theorem clock_httpClientSend (key : Octets) (result : SendResult) :
    Preserves (fun c => c.clock = k) (httpClientSend key result) := by
  refine (Preserves.modify fun c h => by exact h).bind fun _ => Preserves.get_bind fun c _ => ?_
  dsimp only
  split
  · refine (Preserves.modify fun c h => (wrote_clock _ c).trans h).bind fun _ => ?_
    split
    · exact Preserves.throw _
    · exact Preserves.pure _
  · exact Preserves.throw _

theorem clock_httpRcvd (result : RecvResult) :
    Preserves (fun c => c.clock = k) (httpRcvd result) := by
  refine Preserves.get_bind fun c _ => ?_
  split
  · refine (Preserves.modify fun c h => by exact h).bind fun _ => Preserves.get_bind fun c _ => ?_
    exact Preserves.pure _
  · exact Preserves.pure _

/-- Reading never begins or ends an attempt. -/
theorem clock_canRead [Nettle] (result : RecvResult) (reply : SendResult) (initialized : Bool)
    (answer : WslayAnswer) :
    Preserves (fun c => c.clock = k) (canRead result reply initialized answer) := by
  refine Preserves.get_bind fun c _ => ?_
  cases c.wsstate with
  | httpServer =>
      refine (clock_httpRcvd result).bind fun complete => ?_
      split
      · refine Preserves.get_bind fun c _ => ?_
        split
        · exact Preserves.pure _
        · refine (Preserves.modify fun c h => (wrote_clock _ c).trans h).bind fun _ => ?_
          exact clock_startWSMode initialized answer
      · exact Preserves.pure _
  | httpClient =>
      refine (clock_httpRcvd result).bind fun complete => ?_
      split
      · refine Preserves.get_bind fun c _ => ?_
        split
        · exact clock_startWSMode initialized answer
        · exact Preserves.pure _
      · exact Preserves.pure _
  | ws => exact Preserves.modify fun _ h => h

/-- What is written does not touch the clock of a connection for which no attempt is in progress. -/
theorem canWrite_clock_of_ne (key : Octets) (result : SendResult) (answer : WslayAnswer)
    {c : WsConnection} (h : c.state ≠ .inprogress) :
    (State (canWrite key result answer c)).clock = c.clock := by
  rw [canWrite, get_bind, if_neg h]
  refine (Preserves.get_bind (P := fun c' => c'.clock = c.clock) fun c' _ => ?_) c rfl
  cases c'.wsstate with
  | httpServer => exact Preserves.pure _
  | httpClient =>
      refine (Preserves.modify fun _ h => ?_).bind fun _ => clock_httpClientSend key result
      exact h
  | ws =>
      refine (preserves_eventSend (fun _ _ h => h) (fun _ _ h => h) answer).bind fun r => ?_
      split
      · exact Preserves.modify fun _ h => h
      · exact Preserves.pure _

/-- A socket that can be written to ends an attempt. -/
theorem canWrite_clock (key : Octets) (result : SendResult) (answer : WslayAnswer)
    (c : WsConnection) :
    (State (canWrite key result answer c)).clock = { c.clock with underway := false } := by
  by_cases hstate : c.state = .inprogress
  · have hrun : canWrite key result answer c =
        canWrite key result answer { c with state := .established } := by
      rw [canWrite, get_bind, get_bind, if_pos hstate, if_neg (by simp)]
      rfl
    rw [hrun, canWrite_clock_of_ne key result answer (by simp)]
    rfl
  · rw [canWrite_clock_of_ne key result answer hstate]
    simp [clock, hstate]

theorem send_clock (packet : Octets) (connect : ConnectResult) (answer : WslayAnswer)
    (c : WsConnection) :
    (State (send packet connect answer c)).clock =
      if c.state = .idle then (State (up connect c)).clock else c.clock := by
  obtain ⟨l, upgrade, state, fd, r, w, active, running, headers, k, ctx, buffer, sockets, uses⟩ := c
  cases state with
  | idle =>
      rw [if_pos rfl, up_clock]
      exact up_clock connect _
  | established =>
      rw [if_neg (by simp)]
      exact clock_flushSendBuffer answer _ rfl
  | pending => rfl
  | inprogress => rfl

end Handlers

theorem up_moves (connect : ConnectResult) (c : WsConnection) :
    c.clock.Moves (c.begins (.up connect)) (State (up connect c)).clock := by
  rw [begins, up_clock]
  split
  · exact connect.moves c.clock
  · exact .waits

theorem send_moves (packet : Octets) (connect : ConnectResult) (answer : WslayAnswer)
    (c : WsConnection) :
    c.clock.Moves (c.begins (.send packet connect answer))
      (State (send packet connect answer c)).clock := by
  rw [begins, send_clock]
  by_cases hidle : c.state = .idle
  · simp only [hidle, true_and, if_true]
    exact up_moves connect c
  · simp only [hidle, false_and, if_false]
    exact .waits

/-- **What a connection over WebSockets does with the timer.** -/
def timing [Nettle] : Timing step fun _ => True where
  clock := clock
  begins := begins
  moves c event _ := by
    cases event with
    | send packet connect answer => exact send_moves packet connect answer c
    | up connect => exact up_moves connect c
    | accept client => exact accept_moves client c
    | canWrite key result answer =>
        rw [step, canWrite_clock]
        exact .ended rfl (Nat.le_refl _)
    | canRead result reply initialized answer =>
        rw [step, clock_canRead result reply initialized answer c rfl]
        exact .waits
    | timer => exact timer_moves c

end WsConnection

/-- **Every attempt to connect is timed exactly when none that is in progress begins while
`timer_active` is set.**  This holds of all runs of both kinds of connections.  An attempt that does
not succeed is then ended by its timer. -/
theorem attempts_timed_iff [Platform] [Nettle] :
    (∀ events : List TcpEvent,
      Runs.Always TcpConnection.timing.recorded TcpConnection.timing.Timed ({}, 0) events ↔
        Runs.Meets TcpConnection.timing.recorded TcpConnection.timing.BeginsUnnoted ({}, 0)
          events) ∧
    (∀ (protocolLocal : HostAndPort) (initialState : WsConnectionState) (events : List WsEvent),
      Runs.Always WsConnection.timing.recorded WsConnection.timing.Timed
          (.new protocolLocal initialState, 0) events ↔
        Runs.Meets WsConnection.timing.recorded WsConnection.timing.BeginsUnnoted
          (.new protocolLocal initialState, 0) events) ∧
    (∀ c : TcpConnection, c.state = .inprogress → (c.step .timer).state = .idle) ∧
    ∀ c : WsConnection, c.state = .inprogress → (c.step .timer).state = .idle := by
  refine ⟨fun events => ?_, fun protocolLocal initialState events => ?_, fun c h => ?_,
    fun c h => ?_⟩
  · exact Timing.timed_always_iff (fun _ event h => h.step event) TcpConnection.sound_initial rfl
      events
  · exact Timing.timed_always_iff (fun _ _ _ => trivial) trivial rfl events
  · rw [TcpConnection.step, TcpConnection.timer_inprogress h]
    rfl
  · rw [WsConnection.step, WsConnection.timer_inprogress h]
    rfl

/-- The first attempt has timed out, and the second one is not timed. -/
theorem second_attempt_untimed :
    letI : Platform := ⟨.little⟩
    letI : Nettle := ⟨id, id⟩
    (∃ events : List TcpEvent,
      let c := events.foldl TcpConnection.step {}
      c.state = .inprogress ∧ c.fd = some 4 ∧ c.timerRunning = false ∧
        ¬ Runs.Always TcpConnection.timing.recorded TcpConnection.timing.Timed ({}, 0) events) ∧
    ∃ events : List WsEvent,
      let c := events.foldl WsConnection.step (.new ⟨ascii "near", 2810⟩ .httpClient)
      c.state = .inprogress ∧ c.fd = some 4 ∧ c.timerRunning = false ∧
        ¬ Runs.Always WsConnection.timing.recorded WsConnection.timing.Timed
          (.new ⟨ascii "near", 2810⟩ .httpClient, 0) events := by
  let : Platform := ⟨.little⟩
  let : Nettle := ⟨id, id⟩
  constructor
  · refine ⟨[.send [1] (.opened 3 true), .timer, .send [2] (.opened 4 true)], rfl, rfl, rfl,
      fun h => ?_⟩
    exact absurd (h.last rfl).1 (by decide)
  · refine ⟨[.send [1] (.opened 3 true) {}, .timer, .send [2] (.opened 4 true) {}], rfl, rfl, rfl,
      fun h => ?_⟩
    exact absurd (h.last rfl).1 (by decide)

end Corba
