/-
Connections over TCP.

`TcpConnection` of `src/corba/net/tcp/connection.cc` queues the packets it is given, opens a socket
when there is something to send, and is called by the event loop when the socket can be written to
or read from and when the timer of an attempt to connect has expired.  Everything the operating
system answers is an input.  What the callers do that are resumed by a handler happens after the
handler has done everything else, so a handler ends with what they are resumed with.

Main definitions:

* `Corba.ConnectionState`, `Corba.TcpConnection` — the connection;
* `Corba.ConnectResult`, `Corba.SendResult`, `Corba.RecvResult` — what the operating system answers;
* `Corba.TcpConnection.send`, `up`, `accept`, `canWrite`, `canRead`, `timer` — the functions of the
  connection;
* `Corba.TcpEvent`, `Corba.TcpConnection.step` — what happens to a connection.

Main results:

* `Corba.TcpConnection.up_run`, `flush_cons`, `canWrite_run`, `canRead_run`, … — what each of them
  does;
* `Corba.TcpConnection.send_calls_up_iff` — when `send` attempts to connect.
-/

import Corba.Stream2Packet

set_option relaxedAutoImplicit false
set_option autoImplicit false

namespace Corba

open Layout Exec

/-! ### The connection -/

/-- How far a connection has come. -/
inductive ConnectionState where
  | idle | pending | inprogress | established
  deriving DecidableEq, Repr

/-- A socket a connection has had, with what has been written to it. -/
structure Socket where
  incoming : Bool
  written : Octets := []
  closed : Bool := false
  deriving DecidableEq, Repr

/-- What has been received from a socket, and what has been made of it. -/
structure Inflow where
  received : Octets := []
  messages : List Octets := []
  deriving DecidableEq, Repr

/-- `TcpConnection`, without the part that is used by calls.  No file descriptor is `-1` there.
`timerRunning` is what the event loop knows of the timer, and `sockets` and `inflows` are a record of
all sockets, the last one first. -/
structure TcpConnection where
  state : ConnectionState := .idle
  fd : Option ℕ := none
  readWatcher : Bool := false
  writeWatcher : Bool := false
  timerActive : Bool := false
  timerRunning : Bool := false
  stream2packet : IIOPStream2Packet := {}
  sendBuffer : List Octets := []
  bytesSend : ℕ := 0
  sockets : List Socket := []
  inflows : List Inflow := []
  deriving DecidableEq, Repr

abbrev TcpM := EStateM Fault TcpConnection

/-! ### The operating system -/

/-- `connect_to`: there is a socket, the connection of which may still be in progress, or none, with
what the text of the exception says about it. -/
inductive ConnectResult where
  | failed (peer error : String)
  | opened (fd : ℕ) (inProgress : Bool)
  deriving DecidableEq

/-- `::send`: some octets have been taken, `EPIPE`, or another error, of which `EAGAIN` is one. -/
inductive SendResult where
  | sent (n : ℕ)
  | epipe
  | failed
  deriving DecidableEq

/-- `::recv`: octets, none of them at the end of the stream, `EAGAIN`, or another error. -/
inductive RecvResult where
  | received (octets : Octets)
  | again
  | failed
  deriving DecidableEq

namespace TcpConnection

/-- Some octets have been written to the socket. -/
def wrote (octets : Octets) (c : TcpConnection) : TcpConnection :=
  { c with
    sockets := c.sockets.modifyHead fun k => { k with written := k.written ++ octets } }

/-- Some octets have been received from the socket. -/
def arrived (octets : Octets) (c : TcpConnection) : TcpConnection :=
  { c with
    stream2packet := c.stream2packet.received octets
    inflows := c.inflows.modifyHead fun k => { k with received := k.received ++ octets } }

/-- A message is handed to `recv`. -/
def delivered (message : Octets) (c : TcpConnection) : TcpConnection :=
  { c with
    inflows := c.inflows.modifyHead fun k => { k with messages := k.messages ++ [message] } }

/-- `::close(fd); fd = -1;` -/
def closed (c : TcpConnection) : TcpConnection :=
  { c with fd := none, sockets := c.sockets.modifyHead ({ · with closed := true }) }

/-- A packet is put at the end of the queue. -/
def queued (packet : Octets) (c : TcpConnection) : TcpConnection :=
  { c with sendBuffer := c.sendBuffer ++ [packet] }

/-! ### Watchers and the timer -/

def startReadHandler : TcpM Unit := modify ({ · with readWatcher := true })

def stopReadHandler : TcpM Unit := modify ({ · with readWatcher := false })

def startWriteHandler : TcpM Unit := modify ({ · with writeWatcher := true })

def stopWriteHandler : TcpM Unit := modify ({ · with writeWatcher := false })

def startTimer : TcpM Unit := do
  if !(← get).timerActive then
    modify ({ · with timerActive := true, timerRunning := true })

def stopTimer : TcpM Unit := do
  if (← get).timerActive then
    modify ({ · with timerActive := false, timerRunning := false })

/-! ### Opening a socket -/

/-- The connection has got a socket, and `ev_io_init` has been called for both watchers. -/
def attached (fd : ℕ) (incoming : Bool) (c : TcpConnection) : TcpConnection :=
  { c with
    fd := some fd
    readWatcher := false
    writeWatcher := false
    sockets := { incoming } :: c.sockets
    inflows := {} :: c.inflows }

def up (connect : ConnectResult) : TcpM Unit := do
  if (← get).fd.isNone then
    match connect with
    | .failed peer error =>
        modify ({ · with state := .pending })
        throw (.thrown (.runtimeError ("TcpConnection()::up(): " ++ peer ++ ": " ++ error)))
    | .opened fd inProgress =>
        modify (attached fd false)
        startTimer
        if inProgress then
          modify ({ · with state := .inprogress })
          startWriteHandler
        else
          modify ({ · with state := .established })
        startReadHandler

def accept (client : ℕ) : TcpM Unit := do
  if (← get).fd.isSome then
    throw (.thrown (.runtimeError "TcpConnection::accept(int fd): fd is already set"))
  modify (attached client true)
  startReadHandler
  modify ({ · with state := .established })

/-! ### Sending -/

def send (packet : Octets) (connect : ConnectResult) : TcpM Unit := do
  modify (queued packet)
  match (← get).state with
  | .idle => up connect
  | .established => startWriteHandler
  | .pending => return
  | .inprogress => return

/-- What has not been sent of the first packet, and the packets behind it. -/
def unsent (c : TcpConnection) : Octets := c.sendBuffer.flatten.drop c.bytesSend

/-- The loop over the queue, which ends with whether the socket is still there.  When there are no
more results, the socket would block. -/
def flush : List SendResult → TcpM Bool
  | [] => return true
  | result :: results => do
      let c ← get
      match c.sendBuffer with
      | [] => return true
      | packet :: packets =>
          let rest := packet.drop c.bytesSend
          -- without a socket there is an error
          match if c.fd.isSome then result else .failed with
          | .epipe => return false
          | .failed => return true
          | .sent n =>
              modify (wrote (rest.take n))
              if n < rest.length then
                modify ({ · with bytesSend := c.bytesSend + n })
                return true
              else
                modify ({ · with sendBuffer := packets, bytesSend := 0 })
                flush results

/-- `getpeername` does not find the far end of a connection in progress. -/
def NotConnected (peer : Bool) (c : TcpConnection) : Prop :=
  c.state = .inprogress ∧ ¬ (peer ∧ c.fd.isSome)

instance (peer : Bool) (c : TcpConnection) : Decidable (NotConnected peer c) :=
  inferInstanceAs (Decidable (_ ∧ _))

/-- `peer` is whether `getpeername` finds the far end. -/
def canWrite (peer : Bool) (results : List SendResult) : TcpM Unit := do
  stopWriteHandler
  if (← get).NotConnected peer then
    modify fun c => { c with state := .idle }.closed
  else
    if ← flush results then
      if (← get).sendBuffer ≠ [] then
        startWriteHandler
    else
      modify fun c => { c with state := .idle }.closed

/-! ### Receiving -/

section Receiving

variable [Platform]

def nextMessage : TcpM Octets := fun c =>
  match IIOPStream2Packet.message c.stream2packet with
  | .ok m s => .ok m { c with stream2packet := s }
  | .error f s => .error f { c with stream2packet := s }

/-- The loop over the messages, for at most `n` rounds.  What `recv` throws, when it does, is an
input. -/
def messages (recv : ℕ → Option Thrown) : ℕ → TcpM Unit
  | 0 => return
  | n + 1 => do
      let m ← nextMessage
      if !m.isEmpty then
        modify (delivered m)
        if let some t := recv 0 then
          throw (.thrown t)
        messages (fun k => recv (k + 1)) n

/-- `::recv` has returned octets: not more than there is room for, and not more messages than
octets. -/
def receive (octets : Octets) (recv : ℕ → Option Thrown) : TcpM Unit := do
  if (← get).state = .inprogress then
    modify ({ · with state := .established })
    stopTimer
  let octets := octets.take (← get).stream2packet.length
  if octets ≠ [] then
    modify (arrived octets)
    messages recv ((← get).stream2packet.size + 1)

/-- The callers that are parked are resumed with the exception it ends with. -/
def canRead (result : RecvResult) (recv : ℕ → Option Thrown) : TcpM (Option SystemException) := do
  modify fun c => { c with stream2packet := c.stream2packet.buffer }
  let c ← get
  -- without a socket there is an error
  match if c.fd.isSome then result else .failed with
  | .again => return none
  | .failed =>
      stopReadHandler
      modify closed
      modify ({ · with state := .idle })
      return some ⟨.transient, 0, .no⟩
  | .received octets =>
      receive octets recv
      return none

end Receiving

/-- The timer expires once after it has been started. -/
def timer : TcpM (Option SystemException) := do
  modify ({ · with timerRunning := false })
  if (← get).state = .inprogress then
    stopReadHandler
    modify closed
    modify ({ · with state := .idle })
    return some ⟨.timeout, 0, .no⟩
  return none

end TcpConnection

/-! ### What happens to a connection -/

/-- What is called, and what the operating system answers meanwhile. -/
inductive TcpEvent where
  | send (packet : Octets) (connect : ConnectResult)
  | up (connect : ConnectResult)
  | accept (client : ℕ)
  | canWrite (peer : Bool) (results : List SendResult)
  | canRead (result : RecvResult) (recv : ℕ → Option Thrown)
  | timer

/-- The connection after the call.  An exception leaves it as it is at that point. -/
def TcpConnection.step [Platform] (c : TcpConnection) : TcpEvent → TcpConnection
  | .send packet connect => State (send packet connect c)
  | .up connect => State (up connect c)
  | .accept client => State (accept client c)
  | .canWrite peer results => State (canWrite peer results c)
  | .canRead result recv => State (canRead result recv c)
  | .timer => State (timer c)

namespace TcpConnection

/-! ### Opening and sending, run by run -/

/-- The connection after a socket has been opened. -/
def opened (fd : ℕ) (inProgress : Bool) (c : TcpConnection) : TcpConnection :=
  { attached fd false c with
    state := if inProgress then .inprogress else .established
    readWatcher := true
    writeWatcher := inProgress
    timerActive := true
    timerRunning := c.timerRunning || !c.timerActive }

theorem up_of_socket {c : TcpConnection} (h : c.fd ≠ none) (connect : ConnectResult) :
    up connect c = .ok () c := by
  obtain ⟨state, fd, r, w, active, running, stream, buffer, bytes, sockets, inflows⟩ := c
  cases fd with
  | none => exact absurd rfl h
  | some fd => cases connect <;> rfl

theorem up_failed {c : TcpConnection} (h : c.fd = none) (peer error : String) :
    up (.failed peer error) c = .error
      (.thrown (.runtimeError ("TcpConnection()::up(): " ++ peer ++ ": " ++ error)))
      { c with state := .pending } := by
  obtain ⟨state, fd, r, w, active, running, stream, buffer, bytes, sockets, inflows⟩ := c
  obtain rfl : fd = none := h
  rfl

theorem up_opened {c : TcpConnection} (h : c.fd = none) (fd : ℕ) (inProgress : Bool) :
    up (.opened fd inProgress) c = .ok () (opened fd inProgress c) := by
  obtain ⟨state, fd', r, w, active, running, stream, buffer, bytes, sockets, inflows⟩ := c
  obtain rfl : fd' = none := h
  cases active <;> cases inProgress <;> cases running <;> rfl

theorem accept_run (client : ℕ) (c : TcpConnection) :
    State (accept client c) = if c.fd = none then
      { attached client true c with readWatcher := true, state := .established } else c := by
  obtain ⟨state, fd, r, w, active, running, stream, buffer, bytes, sockets, inflows⟩ := c
  cases fd <;> rfl

theorem send_run (packet : Octets) (connect : ConnectResult) (c : TcpConnection) :
    send packet connect c = match c.state with
      | .idle => up connect (queued packet c)
      | .established => .ok () { queued packet c with writeWatcher := true }
      | .pending => .ok () (queued packet c)
      | .inprogress => .ok () (queued packet c) := by
  obtain ⟨state, fd, r, w, active, running, stream, buffer, bytes, sockets, inflows⟩ := c
  cases state <;> rfl

/-- **`send` attempts to connect exactly when the connection is idle.** -/
theorem send_calls_up_iff {c : TcpConnection} (h : c.fd = none) :
    (∀ packet connect, send packet connect c = up connect (queued packet c)) ↔
      c.state = .idle := by
  constructor
  · intro hup
    have hfailed := hup [] (.failed "" "")
    rw [up_failed (show (queued [] c).fd = none from h), send_run] at hfailed
    cases hstate : c.state with
    | idle => rfl
    | _ =>
        rw [hstate] at hfailed
        cases hfailed
  · intro hstate packet connect
    rw [send_run, hstate]

/-! ### Writing to the socket -/

theorem wrote_nil (c : TcpConnection) : c.wrote [] = c := by
  have hid : (fun k : Socket => { k with written := k.written ++ [] }) = id := by
    funext k
    simp
  rw [wrote, hid]
  simp

theorem modifyHead_wrote (sockets : List Socket) (xs ys : Octets) :
    (sockets.modifyHead fun k => { k with written := k.written ++ xs }).modifyHead
        (fun k => { k with written := k.written ++ ys }) =
      sockets.modifyHead fun k => { k with written := k.written ++ (xs ++ ys) } := by
  cases sockets with
  | nil => rfl
  | cons k rest => simp

/-- What has been sent of the first packet is a part of it. -/
def Fronted (c : TcpConnection) : Prop := c.bytesSend ≤ (c.sendBuffer.headD []).length

/-- What the loop over the queue can do: it writes what is to be sent, in its order. -/
structure Flushed (c c' : TcpConnection) (out : Octets) : Prop where
  eq : c' = { c.wrote out with sendBuffer := c'.sendBuffer, bytesSend := c'.bytesSend }
  queue : c'.sendBuffer <:+ c.sendBuffer
  fronted : c'.Fronted
  order : out ++ c'.unsent = c.unsent
  socket : c.fd = none → c' = c

theorem Flushed.refl {c : TcpConnection} (h : c.Fronted) : c.Flushed c [] where
  eq := by rw [wrote_nil]
  queue := List.suffix_rfl
  fronted := h
  order := rfl
  socket _ := rfl

/-- The loop over the queue, when there is something in it. -/
theorem flush_cons {c : TcpConnection} {packet : Octets} {packets : List Octets}
    (hqueue : c.sendBuffer = packet :: packets) (hfd : c.fd.isSome = true) (n : ℕ)
    (results : List SendResult) :
    flush (.sent n :: results) c =
      if n < (packet.drop c.bytesSend).length then
        .ok true { c.wrote ((packet.drop c.bytesSend).take n) with bytesSend := c.bytesSend + n }
      else
        flush results { c.wrote (packet.drop c.bytesSend) with
          sendBuffer := packets, bytesSend := 0 } := by
  rw [flush, get_bind]
  simp only [hqueue, hfd, if_true]
  rw [modify_bind]
  split
  · rfl
  · rename_i hall
    rw [modify_bind, List.take_of_length_le (Nat.le_of_not_lt hall)]

/-- What is to be sent is the rest of the first packet and the other packets. -/
theorem unsent_cons {c : TcpConnection} {packet : Octets} {packets : List Octets}
    (h : c.Fronted) (hqueue : c.sendBuffer = packet :: packets) :
    c.bytesSend ≤ packet.length ∧ c.unsent = packet.drop c.bytesSend ++ packets.flatten := by
  rw [Fronted, hqueue] at h
  have hle : c.bytesSend ≤ packet.length := h
  refine ⟨hle, ?_⟩
  rw [unsent, hqueue, List.flatten_cons, List.drop_append_of_le_length hle]

/-- A part of the first packet has been written. -/
theorem Flushed.part {c : TcpConnection} {packet : Octets} {packets : List Octets} {n : ℕ}
    (h : c.Fronted) (hqueue : c.sendBuffer = packet :: packets) (hfd : c.fd ≠ none)
    (hpart : n < (packet.drop c.bytesSend).length) :
    c.Flushed { c.wrote ((packet.drop c.bytesSend).take n) with bytesSend := c.bytesSend + n }
      ((packet.drop c.bytesSend).take n) := by
  obtain ⟨hle, hunsent⟩ := unsent_cons h hqueue
  rw [List.length_drop] at hpart
  have hfronted : TcpConnection.Fronted
      { c.wrote ((packet.drop c.bytesSend).take n) with bytesSend := c.bytesSend + n } := by
    show c.bytesSend + n ≤ (c.sendBuffer.headD []).length
    rw [hqueue]
    show c.bytesSend + n ≤ packet.length
    omega
  refine ⟨rfl, List.suffix_rfl, hfronted, ?_, fun hnone => absurd hnone hfd⟩
  rw [(unsent_cons hfronted hqueue).2, hunsent, ← List.append_assoc]
  show _ ++ packet.drop (c.bytesSend + n) ++ _ = _
  rw [← List.drop_drop, List.take_append_drop]

/-- The first packet has been written, and then what follows it. -/
theorem Flushed.whole {c c' : TcpConnection} {packet out : Octets} {packets : List Octets}
    (h : c.Fronted) (hqueue : c.sendBuffer = packet :: packets) (hfd : c.fd ≠ none)
    (hrest : Flushed { c.wrote (packet.drop c.bytesSend) with
      sendBuffer := packets, bytesSend := 0 } c' out) :
    c.Flushed c' (packet.drop c.bytesSend ++ out) := by
  refine ⟨?_, ?_, hrest.fronted, ?_, fun hnone => absurd hnone hfd⟩
  · rw [hrest.eq]
    simp only [wrote, modifyHead_wrote]
  · rw [hqueue]
    exact hrest.queue.trans (List.suffix_cons _ _)
  · rw [List.append_assoc, hrest.order, (unsent_cons h hqueue).2]
    rfl

/-- **The loop over the queue ends, and writes a part of what is to be sent.** -/
theorem flush_spec (results : List SendResult) {c : TcpConnection} (h : c.Fronted) :
    ∃ alive c' out, flush results c = .ok alive c' ∧ c.Flushed c' out := by
  induction results generalizing c with
  | nil => exact ⟨true, c, [], rfl, .refl h⟩
  | cons result results ih =>
      cases hqueue : c.sendBuffer with
      | nil =>
          refine ⟨true, c, [], ?_, .refl h⟩
          rw [flush, get_bind, hqueue]
          rfl
      | cons packet packets =>
          cases hfd : c.fd.isSome with
          | false =>
              refine ⟨true, c, [], ?_, .refl h⟩
              rw [flush, get_bind, hqueue, hfd]
              rfl
          | true =>
              have hsome : c.fd ≠ none := Option.isSome_iff_ne_none.1 hfd
              cases result with
              | epipe =>
                  refine ⟨false, c, [], ?_, .refl h⟩
                  rw [flush, get_bind, hqueue, hfd]
                  rfl
              | failed =>
                  refine ⟨true, c, [], ?_, .refl h⟩
                  rw [flush, get_bind, hqueue, hfd]
                  rfl
              | sent n =>
                  rw [flush_cons hqueue hfd]
                  split
                  next hpart => exact ⟨true, _, _, rfl, .part h hqueue hsome hpart⟩
                  next hall =>
                    obtain ⟨alive, c', out, hrun, hrest⟩ := ih (c := { c.wrote
                      (packet.drop c.bytesSend) with sendBuffer := packets, bytesSend := 0 })
                      (Nat.zero_le _)
                    exact ⟨alive, c', _, hrun, .whole h hqueue hsome hrest⟩

/-- The connection after the transport has been found gone. -/
def broken (c : TcpConnection) : TcpConnection := { c.closed with state := .idle }

/-- The connection before anything has been written. -/
def quiet (c : TcpConnection) : TcpConnection := { c with writeWatcher := false }

theorem canWrite_notConnected {peer : Bool} {c : TcpConnection} (h : c.NotConnected peer)
    (results : List SendResult) : canWrite peer results c = .ok () c.quiet.broken := by
  rw [canWrite, stopWriteHandler, modify_bind, get_bind]
  split
  · rfl
  · rename_i hnot
    exact absurd h hnot

theorem canWrite_run {peer : Bool} {c c' : TcpConnection} {results : List SendResult} {alive : Bool}
    (h : ¬ c.NotConnected peer) (hflush : flush results c.quiet = .ok alive c') :
    canWrite peer results c = .ok () (if alive = true then
      { c' with writeWatcher := c'.writeWatcher || !c'.sendBuffer.isEmpty } else c'.broken) := by
  rw [canWrite, stopWriteHandler, modify_bind, get_bind]
  split
  · rename_i hnot
    exact absurd hnot h
  · refine (bind_ok hflush _).trans ?_
    cases alive with
    | false => rfl
    | true =>
        obtain ⟨state, fd, r, w, active, running, stream, buffer, bytes, sockets, inflows⟩ := c'
        cases buffer with
        | nil => cases w <;> rfl
        | cons packet packets => cases w <;> rfl

/-- What `canWrite` can do: it writes a part of what is to be sent, and either waits until the rest
of it can be written or finds the transport gone. -/
theorem canWrite_spec (peer : Bool) (results : List SendResult) {c : TcpConnection}
    (h : c.Fronted) :
    ∃ c' out, c.quiet.Flushed c' out ∧
      (State (canWrite peer results c) = { c' with writeWatcher := !c'.sendBuffer.isEmpty } ∨
        State (canWrite peer results c) = c'.broken) := by
  by_cases hpeer : c.NotConnected peer
  · refine ⟨c.quiet, [], .refl h, .inr ?_⟩
    rw [canWrite_notConnected hpeer]
    rfl
  · obtain ⟨alive, c', out, hflush, hflushed⟩ := flush_spec results (c := c.quiet) h
    refine ⟨c', out, hflushed, ?_⟩
    have hquiet : c'.writeWatcher = false := by
      rw [hflushed.eq]
      rfl
    rw [canWrite_run hpeer hflush, hquiet]
    cases alive with
    | true => exact .inl (by simp)
    | false => exact .inr (by simp)

/-! ### Reading from the socket -/

/-- The connection after room has been made for what is going to be received. -/
def roomy (c : TcpConnection) : TcpConnection :=
  { c with stream2packet := c.stream2packet.buffer }

/-- What is received leaves alone what is sent. -/
structure Received (c c' : TcpConnection) : Prop where
  fd : c'.fd = c.fd
  readWatcher : c'.readWatcher = c.readWatcher
  writeWatcher : c'.writeWatcher = c.writeWatcher
  sendBuffer : c'.sendBuffer = c.sendBuffer
  bytesSend : c'.bytesSend = c.bytesSend
  state : c'.state = c.state ∨ c.state = .inprogress ∧ c'.state = .established
  sockets : c'.sockets = c.sockets

theorem Received.refl (c : TcpConnection) : c.Received c :=
  ⟨rfl, rfl, rfl, rfl, rfl, .inl rfl, rfl⟩

theorem Received.stream {c c' : TcpConnection} (h : c.Received c') (s : IIOPStream2Packet)
    (inflows : List Inflow) : c.Received { c' with stream2packet := s, inflows := inflows } :=
  ⟨h.fd, h.readWatcher, h.writeWatcher, h.sendBuffer, h.bytesSend, h.state, h.sockets⟩

section Receiving

variable [Platform]

theorem preserves_nextMessage (c : TcpConnection) : Preserves c.Received nextMessage := by
  intro c' h
  rw [nextMessage]
  split
  · exact h.stream _ _
  · exact h.stream _ _

theorem preserves_messages (c : TcpConnection) (n : ℕ) (recv : ℕ → Option Thrown) :
    Preserves c.Received (messages recv n) := by
  induction n generalizing recv with
  | zero => exact Preserves.pure _
  | succ n ih =>
      rw [messages]
      refine (preserves_nextMessage c).bind fun m => ?_
      split
      · refine (Preserves.modify fun c' h => h.stream _ _).bind fun _ => ?_
        dsimp only
        split
        · exact Preserves.throw_bind _ _
        · exact ih _
      · exact Preserves.pure _

theorem canRead_lost {c : TcpConnection} {result : RecvResult} (h : c.fd = none ∨ result = .failed)
    (recv : ℕ → Option Thrown) :
    canRead result recv c =
      .ok (some ⟨.transient, 0, .no⟩) { c.roomy.broken with readWatcher := false } := by
  obtain ⟨state, fd, r, w, active, running, stream, buffer, bytes, sockets, inflows⟩ := c
  rcases h with hfd | rfl
  · obtain rfl : fd = none := hfd
    rfl
  · cases fd <;> rfl

theorem canRead_again {c : TcpConnection} (h : c.fd ≠ none) (recv : ℕ → Option Thrown) :
    canRead .again recv c = .ok none c.roomy := by
  obtain ⟨state, fd, r, w, active, running, stream, buffer, bytes, sockets, inflows⟩ := c
  cases fd with
  | none => exact absurd rfl h
  | some fd => rfl

theorem preserves_receive (c : TcpConnection) (octets : Octets) (recv : ℕ → Option Thrown) :
    Preserves c.Received (receive octets recv) := by
  have hrest : Preserves c.Received (do
      let octets := octets.take (← get).stream2packet.length
      if octets ≠ [] then
        modify (arrived octets)
        messages recv ((← get).stream2packet.size + 1)) := by
    refine Preserves.get_bind fun c' _ => ?_
    dsimp only
    split
    · refine (Preserves.modify fun c' h => h.stream _ _).bind fun _ => ?_
      exact Preserves.get_bind fun c' _ => preserves_messages c _ _
    · exact Preserves.pure _
  intro c' h
  rw [receive, get_bind]
  split
  · rename_i hprogress
    have hstopped : Preserves c.Received stopTimer := by
      refine Preserves.get_bind fun c' _ => ?_
      split
      · refine Preserves.modify fun c' h => ?_
        exact ⟨h.fd, h.readWatcher, h.writeWatcher, h.sendBuffer, h.bytesSend, h.state, h.sockets⟩
      · exact Preserves.pure _
    refine (hstopped.bind fun _ => hrest) _ ?_
    refine ⟨h.fd, h.readWatcher, h.writeWatcher, h.sendBuffer, h.bytesSend, .inr ⟨?_, rfl⟩,
      h.sockets⟩
    rcases h.state with hstate | ⟨hstate, -⟩
    · exact hstate.symm.trans hprogress
    · exact hstate
  · exact hrest c' h

theorem canRead_received {c : TcpConnection} (h : c.fd ≠ none) (octets : Octets)
    (recv : ℕ → Option Thrown) :
    canRead (.received octets) recv c =
      (do receive octets recv; return none : TcpM (Option SystemException)) c.roomy := by
  obtain ⟨state, fd, r, w, active, running, stream, buffer, bytes, sockets, inflows⟩ := c
  cases fd with
  | none => exact absurd rfl h
  | some fd => rfl

/-- What has been received leaves alone what is sent, and resumes nobody with an exception. -/
theorem received_canRead {c : TcpConnection} (h : c.fd ≠ none) (octets : Octets)
    (recv : ℕ → Option Thrown) :
    c.Received (State (canRead (.received octets) recv c)) ∧
      ∀ e c', canRead (.received octets) recv c = .ok e c' → e = none := by
  rw [canRead_received h]
  constructor
  · refine ((preserves_receive c octets recv).bind fun _ => Preserves.pure _) c.roomy ?_
    exact (Received.refl c).stream _ _
  · have hyields : Yields (· = none)
        (do receive octets recv; return none : TcpM (Option SystemException)) :=
      Yields.of_rest fun _ => Yields.pure rfl
    exact hyields c.roomy

/-- A connection that is not lost is left alone, but for what has been received. -/
theorem canRead_kept {c : TcpConnection} {result : RecvResult} (hfd : c.fd ≠ none)
    (hresult : result ≠ .failed) (recv : ℕ → Option Thrown) :
    c.Received (State (canRead result recv c)) := by
  cases result with
  | failed => exact absurd rfl hresult
  | again =>
      rw [canRead_again hfd]
      exact (Received.refl c).stream _ _
  | received octets => exact (received_canRead hfd octets recv).1

/-- What `canRead` can do. -/
theorem canRead_spec (result : RecvResult) (recv : ℕ → Option Thrown) (c : TcpConnection) :
    c.Received (State (canRead result recv c)) ∨
      State (canRead result recv c) = { c.roomy.broken with readWatcher := false } := by
  by_cases hlost : c.fd = none ∨ result = .failed
  · rw [canRead_lost hlost]
    exact .inr rfl
  · push Not at hlost
    exact .inl (canRead_kept hlost.1 hlost.2 recv)

end Receiving

/-! ### The timer -/

theorem timer_inprogress {c : TcpConnection} (h : c.state = .inprogress) :
    timer c = .ok (some ⟨.timeout, 0, .no⟩)
      { c.broken with readWatcher := false, timerRunning := false } := by
  obtain ⟨state, fd, r, w, active, running, stream, buffer, bytes, sockets, inflows⟩ := c
  obtain rfl : state = .inprogress := h
  rfl

theorem timer_idle {c : TcpConnection} (h : c.state ≠ .inprogress) :
    timer c = .ok none { c with timerRunning := false } := by
  obtain ⟨state, fd, r, w, active, running, stream, buffer, bytes, sockets, inflows⟩ := c
  cases state with
  | inprogress => exact absurd rfl h
  | _ => rfl

end TcpConnection

end Corba
