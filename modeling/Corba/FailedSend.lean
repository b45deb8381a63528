/-
Packets whose `send` has thrown.

When `send` throws, the caller is told that the request has not been sent.  `TcpConnection::send` and
`WsConnection::send` put the packet into the queue before they attempt to connect, and it stays there
when the attempt fails.  The connection is pending from then on, and while it is, `send` does nothing
but to queue more packets.

Main definitions:

* `Corba.LeavesNothing` — a call that has thrown has left nothing behind;
* `Corba.Refuses` — the attempt to connect fails.

Main results:

* `Corba.TcpConnection.send_refused`, `Corba.WsConnection.send_refused` — what a `send` that throws
  leaves behind;
* `Corba.TcpConnection.sends_pending`, `Corba.WsConnection.sends_pending` — no later `send` attempts
  to connect;
* `Corba.failed_send_leaves_nothing_iff` — nothing is left behind exactly when `send` does not throw.
-/

import Corba.TcpOutflow
import Corba.WsProgress

set_option relaxedAutoImplicit false
set_option autoImplicit false

namespace Corba

open Exec

/-- A call that has thrown has left nothing behind: the packets that wait are the ones that have
waited before, whatever happens from then on gives out what it gives out without the call, and the
next packet is a reason to connect. -/
structure LeavesNothing {τ α ω : Type} (step : τ → α → τ) (sendBuffer : τ → List Octets)
    (output : τ → ω) (Connects : τ → Prop) (before after : τ) : Prop where
  sendBuffer : sendBuffer after = sendBuffer before
  output : ∀ events : List α, output (events.foldl step after) = output (events.foldl step before)
  connects : Connects after

/-- There is no socket, and `connect_to` returns none. -/
def Refuses (state : ConnectionState) (fd : Option ℕ) (connect : ConnectResult) : Prop :=
  state = .idle ∧ fd = none ∧ ∃ peer error, connect = .failed peer error

/-! ### Over TCP -/

namespace TcpConnection

/-- The next packet is a reason to connect. -/
def Connects (c : TcpConnection) : Prop :=
  ∀ packet connect, send packet connect c = up connect (queued packet c)

/-- When `send` throws, it leaves nothing behind. -/
def FailsClean [Platform] (c : TcpConnection) (packet : Octets) (connect : ConnectResult) : Prop :=
  ∀ f c', send packet connect c = .error f c' →
    LeavesNothing step TcpConnection.sendBuffer TcpConnection.transmitted Connects c c'

/-- What a `send` that throws leaves behind. -/
theorem send_refused {c : TcpConnection} {connect : ConnectResult}
    (h : Refuses c.state c.fd connect) (packet : Octets) :
    ∃ f, send packet connect c = .error f { c.queued packet with state := .pending } := by
  obtain ⟨hstate, hfd, peer, error, rfl⟩ := h
  have hsend : send packet (.failed peer error) c = up (.failed peer error) (c.queued packet) := by
    rw [send_run, hstate]
  exact ⟨_, hsend.trans (up_failed (c := c.queued packet) hfd peer error)⟩

/-- `send` throws only when the attempt to connect fails. -/
theorem refuses_of_send {c c' : TcpConnection} {packet : Octets} {connect : ConnectResult} {f : Fault}
    (h : send packet connect c = .error f c') : Refuses c.state c.fd connect := by
  rw [send_run] at h
  cases hstate : c.state with
  | idle =>
      rw [hstate] at h
      by_cases hfd : c.fd = none
      · cases connect with
        | failed peer error => exact ⟨rfl, hfd, peer, error, rfl⟩
        | opened fd inProgress =>
            rw [up_opened (c := c.queued packet) hfd] at h
            cases h
      · rw [up_of_socket (c := c.queued packet) hfd] at h
        cases h
  | _ =>
      rw [hstate] at h
      cases h

/-- A connection that is pending is no reason to connect. -/
theorem not_connects_of_pending {c : TcpConnection} (hfd : c.fd = none) (hstate : c.state = .pending) :
    ¬ c.Connects := by
  intro h
  have hidle := (send_calls_up_iff hfd).1 h
  rw [hstate] at hidle
  cases hidle

/-- **Nothing is left behind exactly when `send` does not throw.** -/
theorem failsClean_iff [Platform] (c : TcpConnection) (packet : Octets) (connect : ConnectResult) :
    c.FailsClean packet connect ↔ ¬ Refuses c.state c.fd connect := by
  constructor
  · intro h hrefuses
    obtain ⟨f, hrun⟩ := send_refused hrefuses packet
    have hbuffer := (h f _ hrun).sendBuffer
    exact absurd hbuffer (by simp [queued])
  · intro h f c' hrun
    exact absurd (refuses_of_send hrun) h

/-- While a connection is pending, no packet is a reason to connect. -/
theorem sends_pending {c : TcpConnection} (hstate : c.state = .pending)
    (sends : List (Octets × ConnectResult)) :
    sends.foldl (fun c s => State (send s.1 s.2 c)) c =
      { c with sendBuffer := c.sendBuffer ++ sends.map Prod.fst } := by
  induction sends generalizing c with
  | nil => simp
  | cons s sends ih =>
      have hsend : State (send s.1 s.2 c) = c.queued s.1 := by
        rw [send_run, hstate]
        rfl
      rw [List.foldl_cons, hsend, ih (c := c.queued s.1) hstate]
      simp [queued]

end TcpConnection

/-! ### Over WebSockets -/

namespace WsConnection

/-- The next packet is a reason to connect. -/
def Connects (c : WsConnection) : Prop :=
  ∀ packet connect answer, send packet connect answer c = up connect (buffered packet c)

/-- What has been written to the sockets, and what has been handed to wslay. -/
def output (c : WsConnection) : List Socket × Option WslayContext := (c.sockets, c.ctx)

/-- When `send` throws, it leaves nothing behind. -/
def FailsClean [Nettle] (c : WsConnection) (packet : Octets) (connect : ConnectResult)
    (answer : WslayAnswer) : Prop :=
  ∀ f c', send packet connect answer c = .error f c' →
    LeavesNothing step WsConnection.sendBuffer output Connects c c'

/-- `up` throws only when there is no socket and the attempt to connect fails. -/
theorem up_run (connect : ConnectResult) (c : WsConnection) :
    (∃ c', up connect c = .ok () c' ∧ ¬ (c.fd = none ∧ ∃ peer error, connect = .failed peer error)) ∨
      ∃ f, up connect c = .error f { c with state := .pending } ∧ c.fd = none ∧
        ∃ peer error, connect = .failed peer error := by
  obtain ⟨l, upgrade, state, fd, r, w, active, running, headers, key, ctx, buffer, sockets, uses⟩ := c
  cases fd with
  | some fd => exact .inl ⟨_, rfl, by simp⟩
  | none =>
      cases connect with
      | failed peer error => exact .inr ⟨_, rfl, rfl, peer, error, rfl⟩
      | opened fd inProgress => cases inProgress <;> cases active <;> exact .inl ⟨_, rfl, by simp⟩

/-- Flushing does not throw. -/
theorem flushSendBuffer_throws (answer : WslayAnswer) :
    Throws (fun _ => False) (flushSendBuffer answer) := by
  have huse : ∀ call, Throws (fun _ => False) (use call) := fun call => Throws.modify _
  have hqueue : ∀ packets n, Throws (fun _ => False) (queueMsgs answer packets n) := by
    intro packets
    induction packets with
    | nil => exact fun n => Throws.pure _
    | cons packet packets ih =>
        intro n
        rw [queueMsgs]
        refine (huse _).bind fun _ => ?_
        split
        · exact (Throws.modify _).bind fun _ => ih _
        · exact ih _
  refine Throws.get_bind fun c => ?_
  split
  · refine (hqueue _ _).bind fun _ => ?_
    refine Throws.bind ((huse _).bind fun _ => (Throws.modify _).bind fun _ => Throws.pure _) fun r => ?_
    refine (Throws.modify _).bind fun _ => ?_
    split
    · exact Throws.modify _
    · exact Throws.pure _
  · exact Throws.pure _

/-- What a `send` that throws leaves behind. -/
theorem send_refused {c : WsConnection} {connect : ConnectResult}
    (h : Refuses c.state c.fd connect) (packet : Octets) (answer : WslayAnswer) :
    ∃ f, send packet connect answer c =
      .error f { c.buffered packet with state := .pending } := by
  obtain ⟨hstate, hfd, hconnect⟩ := h
  rw [(send_run packet connect answer).1 hstate]
  rcases up_run connect (c.buffered packet) with ⟨c', -, hopened⟩ | ⟨f, hrun, -⟩
  · exact absurd ⟨hfd, hconnect⟩ hopened
  · exact ⟨f, hrun⟩

/-- `send` throws only when the attempt to connect fails. -/
theorem refuses_of_send {c c' : WsConnection} {packet : Octets} {connect : ConnectResult}
    {answer : WslayAnswer} {f : Fault} (h : send packet connect answer c = .error f c') :
    Refuses c.state c.fd connect := by
  obtain ⟨hidle, hwaits, hestablished⟩ := send_run (c := c) packet connect answer
  cases hstate : c.state with
  | idle =>
      rw [hidle hstate] at h
      rcases up_run connect (c.buffered packet) with ⟨c'', hrun, -⟩ | ⟨f, -, hfd, hconnect⟩
      · rw [hrun] at h
        cases h
      · exact ⟨rfl, hfd, hconnect⟩
  | pending =>
      rw [hwaits (.inl hstate)] at h
      cases h
  | inprogress =>
      rw [hwaits (.inr hstate)] at h
      cases h
  | established =>
      rw [hestablished hstate] at h
      exact absurd h fun h => flushSendBuffer_throws answer _ _ _ h

/-- **Nothing is left behind exactly when `send` does not throw.** -/
theorem failsClean_iff [Nettle] (c : WsConnection) (packet : Octets) (connect : ConnectResult)
    (answer : WslayAnswer) : c.FailsClean packet connect answer ↔ ¬ Refuses c.state c.fd connect := by
  constructor
  · intro h hrefuses
    obtain ⟨f, hrun⟩ := send_refused hrefuses packet answer
    have hbuffer := (h f _ hrun).sendBuffer
    exact absurd hbuffer (by simp [buffered])
  · intro h f c' hrun
    exact absurd (refuses_of_send hrun) h

/-- While a connection is pending, no packet is a reason to connect. -/
theorem sends_pending {c : WsConnection} (hstate : c.state = .pending)
    (sends : List (Octets × ConnectResult × WslayAnswer)) :
    sends.foldl (fun c s => State (send s.1 s.2.1 s.2.2 c)) c =
      { c with sendBuffer := c.sendBuffer ++ sends.map Prod.fst } := by
  induction sends generalizing c with
  | nil => simp
  | cons s sends ih =>
      have hsend : State (send s.1 s.2.1 s.2.2 c) = c.buffered s.1 := by
        rw [(send_run s.1 s.2.1 s.2.2).2.1 (.inl hstate), State_ok]
      rw [List.foldl_cons, hsend, ih (c := c.buffered s.1) hstate]
      simp [buffered]

end WsConnection

/-- **A `send` that throws leaves nothing behind exactly when it does not throw**: when there is
already a socket or a reason to wait, or when `connect_to` returns a socket. -/
theorem failed_send_leaves_nothing_iff [Platform] [Nettle] :
    (∀ (c : TcpConnection) packet connect,
      c.FailsClean packet connect ↔ ¬ Refuses c.state c.fd connect) ∧
    ∀ (c : WsConnection) packet connect answer,
      c.FailsClean packet connect answer ↔ ¬ Refuses c.state c.fd connect :=
  ⟨TcpConnection.failsClean_iff, WsConnection.failsClean_iff⟩

/-- Nobody listens when the first request is sent, and its `send` throws.  It is in the queue, the
`send` of the second request does not attempt to connect, and once there is a socket both of them are
transmitted. -/
theorem failed_send_transmitted :
    letI : Platform := ⟨.little⟩
    letI : Nettle := ⟨id, id⟩
    let c : TcpConnection := {}
    let w : WsConnection := .new ⟨ascii "frontend", 3000⟩ .httpClient
    let refused : ConnectResult := .failed "backend:8080" "Connection refused"
    let c' := State (TcpConnection.send [1] refused c)
    let w' := State (WsConnection.send [1] refused {} w)
    ¬ c.FailsClean [1] refused ∧ c'.sendBuffer = [[1]] ∧
      (c'.step (.send [2] (.opened 3 true))).fd = none ∧
      ([TcpEvent.send [2] (.opened 3 true), .up (.opened 3 true), .canWrite true [.sent 1, .sent 1]].foldl
        TcpConnection.step c').transmitted = [1, 2] ∧
      ¬ w.FailsClean [1] refused {} ∧ w'.sendBuffer = [[1]] ∧
      (w'.step (.send [2] (.opened 3 true) {})).fd = none := by
  let : Platform := ⟨.little⟩
  let : Nettle := ⟨id, id⟩
  intro c w refused c' w'
  refine ⟨fun h => ?_, rfl, rfl, by decide, fun h => ?_, rfl, rfl⟩
  · have hbuffer := (h _ c' rfl).sendBuffer
    exact absurd hbuffer (by decide)
  · have hbuffer := (h _ w' rfl).sendBuffer
    exact absurd hbuffer (by decide)

end Corba
