/-
The file descriptors of a process.

Sockets are opened by `connect_to` and `create_listen_socket` of `src/corba/net/util/socket.cc` and
when a client is accepted.  From then on the descriptor is a number in a connection or in a listener
of a protocol.  Whoever holds it closes it: when the transport is found gone, when an attempt to
connect takes too long, when a protocol does not listen any more, and at the latest in a destructor.

Main definitions:

* `Corba.connect_to`, `Corba.create_listen_socket` — how sockets are opened;
* `Corba.TcpConnection.descriptorCalls`, `Corba.WsConnection.descriptorCalls` — what the functions
  of a connection open and close;
* `Corba.Process` — protocols and connections;
* `Corba.ProcessEvent` — what happens to them.

Main results:

* `Corba.TcpConnection.descriptorCalls_proper`, … — a connection only closes its own descriptor;
* `Corba.Process.calls_proper` — and so does every part of the process;
* `Corba.descriptors_balanced` — in every state of every run, each descriptor that is open has one
  owner.
-/

import Corba.Ownership
import Corba.WsProgress

set_option relaxedAutoImplicit false
set_option autoImplicit false

namespace Corba

open Exec Ownership

/-! ### Opening sockets -/

/-- What happens to an address on the way to a connection: there is no socket for it, `connect` fails,
or it returns without an error or with `EINPROGRESS`. -/
inductive ConnectAttempt where
  | noSocket
  | refused (fd : ℕ)
  | connecting (fd : ℕ)
  deriving DecidableEq, Repr

/-- The addresses are tried one after the other.  There are none when `getaddrinfo` fails. -/
def connect_to : List ConnectAttempt → List (Ownership.Call ℕ) × Option ℕ
  | [] => ([], none)
  | .noSocket :: rest => connect_to rest
  | .refused fd :: rest =>
      (.acquire fd :: .release (some fd) :: (connect_to rest).1, (connect_to rest).2)
  | .connecting fd :: _ => ([.acquire fd], some fd)

/-- What happens to an address that is to be listened on.  `setsockopt`, `bind` and `listen` are
called on its socket, and may fail. -/
inductive ListenAttempt where
  | noSocket
  | failed (fd : ℕ)
  | listening (fd : ℕ)
  deriving DecidableEq, Repr

def create_listen_socket : List ListenAttempt → List (Ownership.Call ℕ) × List ℕ
  | [] => ([], [])
  | .noSocket :: rest => create_listen_socket rest
  | .failed fd :: rest =>
      (.acquire fd :: .release (some fd) :: (create_listen_socket rest).1,
        (create_listen_socket rest).2)
  | .listening fd :: rest =>
      (.acquire fd :: (create_listen_socket rest).1, fd :: (create_listen_socket rest).2)

/-- A socket that is opened and closed at once. -/
theorem proper_discard {mine mine' : List ℕ} {calls : List (Ownership.Call ℕ)} (fd : ℕ)
    (h : Proper mine calls mine') :
    Proper mine (.acquire fd :: .release (some fd) :: calls) mine' := by
  refine .acquire (.release (List.mem_cons_self ..) ?_)
  rw [List.erase_cons_head]
  exact h

/-- **The only socket that stays open is the one that is returned.** -/
theorem connect_to_proper (attempts : List ConnectAttempt) :
    Proper [] (connect_to attempts).1 (connect_to attempts).2.toList := by
  induction attempts with
  | nil => exact .refl []
  | cons attempt rest ih =>
      cases attempt with
      | noSocket => exact ih
      | refused fd => exact proper_discard fd ih
      | connecting fd => exact .acquire (.refl [fd])

theorem create_listen_socket_proper (attempts : List ListenAttempt) :
    Proper [] (create_listen_socket attempts).1 (create_listen_socket attempts).2 := by
  induction attempts with
  | nil => exact .refl []
  | cons attempt rest ih =>
      cases attempt with
      | noSocket => exact ih
      | failed fd => exact proper_discard fd ih
      | listening fd =>
          exact .acquire ((ih.frame [fd]).perm_right (List.perm_append_singleton fd _))

/-- `up` has been told what `connect_to` has returned for these addresses. -/
def ConnectResult.From (attempts : List ConnectAttempt) : ConnectResult → Prop
  | .failed _ _ => (connect_to attempts).2 = none
  | .opened fd _ => (connect_to attempts).2 = some fd

instance (attempts : List ConnectAttempt) :
    (connect : ConnectResult) → Decidable (connect.From attempts)
  | .failed _ _ => inferInstanceAs (Decidable (_ = _))
  | .opened _ _ => inferInstanceAs (Decidable (_ = _))

/-! ### Connections over TCP -/

namespace TcpConnection

/-- The transport is found gone while it is written to. -/
def loses (peer : Bool) (results : List SendResult) (c : TcpConnection) : Bool :=
  decide (c.NotConnected peer) ||
    match flush results c.quiet with
    | .ok alive _ => !alive
    | .error _ _ => false

def upCalls (attempts : List ConnectAttempt) (c : TcpConnection) : List (Ownership.Call ℕ) :=
  if c.fd.isNone then (connect_to attempts).1 else []

/-- The sockets that are opened and closed. -/
def descriptorCalls (attempts : List ConnectAttempt) (c : TcpConnection) :
    TcpEvent → List (Ownership.Call ℕ)
  | .send _ _ => if c.state = .idle then c.upCalls attempts else []
  | .up _ => c.upCalls attempts
  | .accept _ => []
  | .canWrite peer results => if c.loses peer results then [.release c.fd] else []
  | .canRead result _ => if c.fd = none ∨ result = .failed then [.release c.fd] else []
  | .timer => if c.state = .inprogress then [.release c.fd] else []

end TcpConnection

/-- The addresses are those that are tried in the event, and nobody is accepted: that is done once,
when the connection is made. -/
def TcpEvent.Tries (attempts : List ConnectAttempt) : TcpEvent → Prop
  | .send _ connect => connect.From attempts
  | .up connect => connect.From attempts
  | .accept _ => False
  | _ => True

instance (attempts : List ConnectAttempt) :
    (event : TcpEvent) → Decidable (event.Tries attempts)
  | .send _ connect => inferInstanceAs (Decidable (connect.From attempts))
  | .up connect => inferInstanceAs (Decidable (connect.From attempts))
  | .accept _ => isFalse id
  | .canWrite _ _ | .canRead _ _ | .timer => isTrue trivial

namespace TcpConnection

theorem up_proper {attempts : List ConnectAttempt} {connect : ConnectResult}
    (h : connect.From attempts) (c : TcpConnection) :
    Proper c.fd.toList (c.upCalls attempts) (State (up connect c)).fd.toList := by
  have hproper := connect_to_proper attempts
  cases hfd : c.fd with
  | some fd =>
      rw [up_of_socket (by simp [hfd]), upCalls, hfd, State_ok, hfd]
      exact .refl [fd]
  | none =>
      rw [upCalls, hfd, if_pos (by rfl)]
      cases connect with
      | failed peer error =>
          rw [up_failed hfd, State_error]
          rw [show (connect_to attempts).2 = none from h] at hproper
          simpa [hfd] using hproper
      | opened fd inProgress =>
          rw [up_opened hfd, State_ok]
          rw [show (connect_to attempts).2 = some fd from h] at hproper
          exact hproper

/-- The loop over the queue ends, and leaves the descriptor alone. -/
theorem flush_ok (results : List SendResult) (c : TcpConnection) :
    ∃ alive c', flush results c = .ok alive c' ∧ c'.fd = c.fd := by
  induction results generalizing c with
  | nil => exact ⟨true, c, rfl, rfl⟩
  | cons result results ih =>
      cases hqueue : c.sendBuffer with
      | nil =>
          refine ⟨true, c, ?_, rfl⟩
          rw [flush, get_bind, hqueue]
          rfl
      | cons packet packets =>
          cases hfd : c.fd.isSome with
          | false =>
              refine ⟨true, c, ?_, rfl⟩
              rw [flush, get_bind, hqueue, hfd]
              rfl
          | true =>
              cases result with
              | epipe =>
                  refine ⟨false, c, ?_, rfl⟩
                  rw [flush, get_bind, hqueue, hfd]
                  rfl
              | failed =>
                  refine ⟨true, c, ?_, rfl⟩
                  rw [flush, get_bind, hqueue, hfd]
                  rfl
              | sent n =>
                  rw [flush_cons hqueue hfd]
                  split
                  · exact ⟨true, _, rfl, rfl⟩
                  · exact ih _

theorem canWrite_proper (peer : Bool) (results : List SendResult) (c : TcpConnection) :
    Proper c.fd.toList (if c.loses peer results then [.release c.fd] else [])
      (State (canWrite peer results c)).fd.toList := by
  have hbroken (c' : TcpConnection) : c'.broken.fd = none := rfl
  by_cases hpeer : c.NotConnected peer
  · rw [if_pos (by simp [loses, hpeer]), canWrite_notConnected hpeer, State_ok, hbroken]
    exact .releaseOne c.fd
  · obtain ⟨alive, c', hflush, hfd⟩ := flush_ok results c.quiet
    rw [canWrite_run hpeer hflush, loses, hflush]
    cases alive with
    | true =>
        rw [if_neg (by simp [hpeer]), State_ok, if_pos rfl]
        rw [show c'.fd = c.fd from hfd]
        exact .refl _
    | false =>
        rw [if_pos (by simp), State_ok, if_neg Bool.false_ne_true, hbroken]
        exact .releaseOne c.fd

theorem canRead_proper [Platform] (result : RecvResult) (recv : ℕ → Option Thrown)
    (c : TcpConnection) :
    Proper c.fd.toList (if c.fd = none ∨ result = .failed then [.release c.fd] else [])
      (State (canRead result recv c)).fd.toList := by
  by_cases hlost : c.fd = none ∨ result = .failed
  · rw [if_pos hlost, canRead_lost hlost]
    exact .releaseOne c.fd
  · rw [if_neg hlost]
    push Not at hlost
    rw [(canRead_kept hlost.1 hlost.2 recv).fd]
    exact .refl _

/-- **A connection over TCP closes its own descriptor, and forgets none that is open.** -/
theorem descriptorCalls_proper [Platform] {attempts : List ConnectAttempt} {event : TcpEvent}
    (h : event.Tries attempts) (c : TcpConnection) :
    Proper c.fd.toList (c.descriptorCalls attempts event) (c.step event).fd.toList := by
  cases event with
  | send packet connect =>
      rw [descriptorCalls, step, send_run]
      cases hstate : c.state with
      | idle => exact up_proper h (c.queued packet)
      | _ => exact .refl _
  | up connect => exact up_proper h c
  | accept client => exact absurd h id
  | canWrite peer results => exact canWrite_proper peer results c
  | canRead result recv => exact canRead_proper result recv c
  | timer =>
      rw [descriptorCalls, step]
      by_cases hstate : c.state = .inprogress
      · rw [if_pos hstate, timer_inprogress hstate]
        exact .releaseOne c.fd
      · rw [if_neg hstate, timer_idle hstate]
        exact .refl _

end TcpConnection

/-! ### Connections over WebSockets -/

namespace WsConnection

def upCalls (attempts : List ConnectAttempt) (c : WsConnection) : List (Ownership.Call ℕ) :=
  if c.fd.isNone then (connect_to attempts).1 else []

/-- The sockets that are opened and closed.  Such a connection does not find out that its transport is
gone. -/
def descriptorCalls (attempts : List ConnectAttempt) (c : WsConnection) :
    WsEvent → List (Ownership.Call ℕ)
  | .send _ _ _ => if c.state = .idle then c.upCalls attempts else []
  | .up _ => c.upCalls attempts
  | .timer => if c.state = .inprogress then [.release c.fd] else []
  | _ => []

end WsConnection

def WsEvent.Tries (attempts : List ConnectAttempt) : WsEvent → Prop
  | .send _ connect _ => connect.From attempts
  | .up connect => connect.From attempts
  | .accept _ => False
  | _ => True

instance (attempts : List ConnectAttempt) :
    (event : WsEvent) → Decidable (event.Tries attempts)
  | .send _ connect _ => inferInstanceAs (Decidable (connect.From attempts))
  | .up connect => inferInstanceAs (Decidable (connect.From attempts))
  | .accept _ => isFalse id
  | .canWrite _ _ _ | .canRead _ _ _ _ | .timer => isTrue trivial

namespace WsConnection

theorem up_proper {attempts : List ConnectAttempt} {connect : ConnectResult}
    (h : connect.From attempts) (c : WsConnection) :
    Ownership.Proper c.fd.toList (c.upCalls attempts) (State (up connect c)).fd.toList := by
  have hproper := connect_to_proper attempts
  cases hfd : c.fd with
  | some fd =>
      rw [up_open (by simp [hfd]), upCalls, hfd]
      exact .refl [fd]
  | none =>
      rw [upCalls, hfd, if_pos (by rfl)]
      cases connect with
      | failed peer error =>
          rw [(up_failed hfd peer error).1]
          rwa [show (connect_to attempts).2 = none from h] at hproper
      | opened fd inProgress =>
          rw [(up_opened hfd fd inProgress).1]
          rwa [show (connect_to attempts).2 = some fd from h] at hproper

section Kept

variable (fd : Option ℕ)

theorem keeps_fd_flushSendBuffer (answer : WslayAnswer) :
    Preserves (fun c : WsConnection => c.fd = fd) (flushSendBuffer answer) :=
  fun c hfd => (flushSendBuffer_keeps answer c).1.trans hfd

theorem keeps_fd_canWrite (key : Octets) (result : SendResult) (answer : WslayAnswer) :
    Preserves (fun c : WsConnection => c.fd = fd) (canWrite key result answer) := by
  have hsend : Preserves (fun c : WsConnection => c.fd = fd) (httpClientSend key result) := by
    refine (Preserves.modify fun _ h => by exact h).bind fun _ => Preserves.get_bind fun c _ => ?_
    dsimp only
    split
    · refine (Preserves.modify fun _ h => by exact h).bind fun _ => ?_
      split
      · exact Preserves.throw _
      · exact Preserves.pure _
    · exact Preserves.throw _
  intro c hfd
  obtain ⟨state, hclient, hws⟩ := canWrite_run (c := c) key result answer
  cases hstate : c.wsstate with
  | httpServer =>
      obtain ⟨l, upgrade, state, fd, r, w, active, running, headers, key, ctx, buffer, sockets,
        uses⟩ := c
      obtain rfl : upgrade = .httpServer := hstate
      cases state <;> exact hfd
  | httpClient =>
      rw [hclient hstate]
      exact hsend _ hfd
  | ws =>
      obtain ⟨uses, hrun⟩ := hws hstate
      rw [hrun]
      exact hfd

theorem keeps_fd_canRead [Nettle] (result : RecvResult) (reply : SendResult) (initialized : Bool)
    (answer : WslayAnswer) :
    Preserves (fun c : WsConnection => c.fd = fd) (canRead result reply initialized answer) := by
  have hrcvd : Preserves (fun c : WsConnection => c.fd = fd) (httpRcvd result) := by
    refine Preserves.get_bind fun c _ => ?_
    split
    · exact (Preserves.modify fun _ h => by exact h).bind fun _ => Preserves.get_bind fun c _ =>
        Preserves.pure _
    · exact Preserves.pure _
  have hstart : Preserves (fun c : WsConnection => c.fd = fd) (startWSMode initialized answer) := by
    intro c hfd
    rw [startWSMode_run]
    exact keeps_fd_flushSendBuffer fd answer _ hfd
  rw [canRead]
  refine Preserves.get_bind fun c _ => ?_
  split
  · refine hrcvd.bind fun complete => ?_
    split
    · refine Preserves.get_bind fun c _ => ?_
      split
      · exact Preserves.pure _
      · exact (Preserves.modify fun _ h => by exact h).bind fun _ => hstart
    · exact Preserves.pure _
  · refine hrcvd.bind fun complete => ?_
    split
    · refine Preserves.get_bind fun c _ => ?_
      split
      · exact hstart
      · exact Preserves.pure _
    · exact Preserves.pure _
  · exact Preserves.modify fun _ h => by exact h

end Kept

/-- **A connection over WebSockets closes its own descriptor, and forgets none that is open.** -/
theorem descriptorCalls_proper [Nettle] {attempts : List ConnectAttempt} {event : WsEvent}
    (h : event.Tries attempts) (c : WsConnection) :
    Ownership.Proper c.fd.toList (c.descriptorCalls attempts event) (c.step event).fd.toList := by
  cases event with
  | send packet connect answer =>
      obtain ⟨hidle, hwaiting, hestablished⟩ := send_run (c := c) packet connect answer
      rw [descriptorCalls, step]
      cases hstate : c.state with
      | idle =>
          rw [hidle hstate]
          exact up_proper h (c.buffered packet)
      | pending =>
          rw [hwaiting (.inl hstate)]
          exact .refl _
      | inprogress =>
          rw [hwaiting (.inr hstate)]
          exact .refl _
      | established =>
          rw [hestablished hstate, (flushSendBuffer_keeps answer _).1]
          exact .refl _
  | up connect => exact up_proper h c
  | accept client => exact absurd h id
  | canWrite key result answer =>
      rw [step, keeps_fd_canWrite c.fd key result answer c rfl]
      exact .refl _
  | canRead result reply initialized answer =>
      rw [step, keeps_fd_canRead c.fd result reply initialized answer c rfl]
      exact .refl _
  | timer =>
      rw [descriptorCalls, step]
      obtain ⟨l, upgrade, state, fd, r, w, active, running, headers, key, ctx, buffer, sockets,
        uses⟩ := c
      cases state with
      | inprogress => exact .releaseOne fd
      | _ => exact .refl _

end WsConnection

/-! ### Protocols -/

/-- `TcpProtocol` and `WsProtocol`. -/
inductive ProtocolKind where
  | tcp | ws
  deriving DecidableEq, Repr

/-- A protocol, with the sockets it listens on. -/
structure Protocol where
  kind : ProtocolKind
  protocolLocal : HostAndPort
  listeners : List ℕ := []
  deriving DecidableEq, Repr

/-- A connection over one of them. -/
inductive AnyConnection where
  | tcp (c : TcpConnection)
  | ws (c : WsConnection)
  deriving DecidableEq, Repr

def AnyConnection.fd : AnyConnection → Option ℕ
  | .tcp c => c.fd
  | .ws c => c.fd

/-- The destructor closes the socket, if there is one. -/
def AnyConnection.destructorCalls (c : AnyConnection) : List (Ownership.Call ℕ) :=
  c.fd.toList.map fun fd => .release (some fd)

namespace Protocol

def connectOutgoing (protocol : Protocol) : AnyConnection :=
  match protocol.kind with
  | .tcp => .tcp {}
  | .ws => .ws (.new protocol.protocolLocal .httpClient)

def connectIncoming (fd : ℕ) (protocol : Protocol) : AnyConnection :=
  match protocol.kind with
  | .tcp => .tcp (State (TcpConnection.accept fd {}))
  | .ws => .ws (State (WsConnection.accept fd (.new protocol.protocolLocal .httpServer)))

/-- The descriptors of the listeners are closed.  The destructor does the same. -/
def shutdownCalls (protocol : Protocol) : List (Ownership.Call ℕ) :=
  protocol.listeners.map fun fd => .release (some fd)

theorem connectOutgoing_fd (protocol : Protocol) : protocol.connectOutgoing.fd = none := by
  rw [connectOutgoing]
  cases protocol.kind <;> rfl

theorem connectIncoming_fd (fd : ℕ) (protocol : Protocol) :
    (protocol.connectIncoming fd).fd = some fd := by
  rw [connectIncoming]
  cases protocol.kind <;> rfl

end Protocol

/-! ### The process -/

/-- The table of descriptors, the protocols of the ORBs, and all connections that somebody has got. -/
structure Process where
  table : Table ℕ
  protocols : List Protocol := []
  connections : List AnyConnection := []
  deriving DecidableEq, Repr

/-- What happens, and what the operating system answers meanwhile.

* A protocol is registered, listens, does not listen any more, or is deleted.
* A client wants to connect: `accept` returns a descriptor or none, and it can be set up or not.
* A connection is made, something happens to it, or nobody has got it any more. -/
inductive ProcessEvent where
  | registerProtocol (kind : ProtocolKind) (protocolLocal : HostAndPort)
  | listen (i : ℕ) (protocolLocal : HostAndPort) (attempts : List ListenAttempt)
  | shutdown (i : ℕ)
  | deleteProtocol (i : ℕ)
  | acceptable (i : ℕ) (client : Option ℕ) (setup : Bool)
  | connectOutgoing (i : ℕ)
  | tcp (i : ℕ) (event : TcpEvent) (attempts : List ConnectAttempt)
  | ws (i : ℕ) (event : WsEvent) (attempts : List ConnectAttempt)
  | destroy (i : ℕ)

namespace Process

/-- A process that has these descriptors already. -/
def start (before : List ℕ) : Process := { table := { held := before } }

/-- What the parts of the process own. -/
def owned (p : Process) : List ℕ :=
  p.protocols.flatMap Protocol.listeners ++ p.connections.flatMap fun c => c.fd.toList

/-- The sockets that are opened and closed. -/
def calls (p : Process) : ProcessEvent → List (Ownership.Call ℕ)
  | .registerProtocol _ _ => []
  | .listen i _ attempts =>
      match p.protocols[i]? with
      | some _ => (create_listen_socket attempts).1
      | none => []
  | .shutdown i | .deleteProtocol i =>
      match p.protocols[i]? with
      | some protocol => protocol.shutdownCalls
      | none => []
  | .acceptable i client setup =>
      match p.protocols[i]?, client with
      | none, _ => []
      -- setting up what is no descriptor fails
      | some _, none => [.release none]
      | some _, some fd => if setup then [.acquire fd] else [.acquire fd, .release (some fd)]
  | .connectOutgoing _ => []
  | .tcp i event attempts =>
      match p.connections[i]? with
      | some (.tcp c) => c.descriptorCalls attempts event
      | _ => []
  | .ws i event attempts =>
      match p.connections[i]? with
      | some (.ws c) => c.descriptorCalls attempts event
      | _ => []
  | .destroy i =>
      match p.connections[i]? with
      | some c => c.destructorCalls
      | none => []

/-- The protocols afterwards. -/
def protocolsAfter (p : Process) : ProcessEvent → List Protocol
  | .registerProtocol kind protocolLocal => p.protocols ++ [{ kind, protocolLocal }]
  | .listen i protocolLocal attempts =>
      match p.protocols[i]? with
      | some protocol => p.protocols.set i { protocol with
          protocolLocal
          listeners := protocol.listeners ++ (create_listen_socket attempts).2 }
      | none => p.protocols
  | .shutdown i =>
      match p.protocols[i]? with
      | some protocol => p.protocols.set i { protocol with listeners := [] }
      | none => p.protocols
  | .deleteProtocol i => p.protocols.eraseIdx i
  | _ => p.protocols

section Step

variable [Platform] [Nettle]

/-- The connections afterwards. -/
def connectionsAfter (p : Process) : ProcessEvent → List AnyConnection
  | .acceptable i client setup =>
      match p.protocols[i]?, client with
      | some protocol, some fd =>
          if setup then p.connections ++ [protocol.connectIncoming fd] else p.connections
      | _, _ => p.connections
  | .connectOutgoing i =>
      match p.protocols[i]? with
      | some protocol => p.connections ++ [protocol.connectOutgoing]
      | none => p.connections
  | .tcp i event _ =>
      match p.connections[i]? with
      | some (.tcp c) => p.connections.set i (.tcp (c.step event))
      | _ => p.connections
  | .ws i event _ =>
      match p.connections[i]? with
      | some (.ws c) => p.connections.set i (.ws (c.step event))
      | _ => p.connections
  | .destroy i => p.connections.eraseIdx i
  | _ => p.connections

def step (p : Process) (event : ProcessEvent) : Process where
  table := (p.calls event).foldl Table.call p.table
  protocols := p.protocolsAfter event
  connections := p.connectionsAfter event

end Step

/-- Connections are told what has become of the addresses that have been tried. -/
def Told : ProcessEvent → Prop
  | .tcp _ event attempts => event.Tries attempts
  | .ws _ event attempts => event.Tries attempts
  | _ => True

instance : (event : ProcessEvent) → Decidable (Told event)
  | .tcp _ event attempts => inferInstanceAs (Decidable (event.Tries attempts))
  | .ws _ event attempts => inferInstanceAs (Decidable (event.Tries attempts))
  | .registerProtocol _ _ | .listen _ _ _ | .shutdown _ | .deleteProtocol _ => isTrue trivial
  | .acceptable _ _ _ | .connectOutgoing _ | .destroy _ => isTrue trivial

/-- The operating system opens no descriptor that is open, and what it has done is what the process is
told.  (The connections use the loop of their protocol, so that a program deletes them first, as
`ORB::shutdown` does; the descriptors do not depend on it.) -/
def Permitted (p : Process) (event : ProcessEvent) : Prop :=
  Runs.Meets Table.call Table.Grants p.table (p.calls event) ∧ Told event

instance (p : Process) (event : ProcessEvent) : Decidable (p.Permitted event) :=
  inferInstanceAs (Decidable (_ ∧ _))

section Balance

variable [Platform] [Nettle]

variable {p : Process}

omit [Platform] [Nettle] in
/-- What happens to the listeners of a protocol. -/
theorem listeners_proper (event : ProcessEvent) :
    Proper (p.protocols.flatMap Protocol.listeners)
      (match event with
        | .listen _ _ _ | .shutdown _ | .deleteProtocol _ => p.calls event
        | _ => [])
      ((p.protocolsAfter event).flatMap Protocol.listeners) := by
  cases event with
  | registerProtocol kind protocolLocal => exact .add_part _ (.refl [])
  | listen i protocolLocal attempts =>
      dsimp only [calls, protocolsAfter]
      split
      · rename_i protocol hi
        refine .set_part _ hi ?_
        have hopened := (create_listen_socket_proper attempts).frame_left protocol.listeners
        rwa [List.append_nil] at hopened
      · exact .refl _
  | shutdown i =>
      dsimp only [calls, protocolsAfter]
      split
      · rename_i protocol hi
        exact .set_part _ hi (.releaseAll protocol.listeners)
      · exact .refl _
  | deleteProtocol i =>
      dsimp only [calls, protocolsAfter]
      split
      · rename_i protocol hi
        exact .erase_part _ hi (.releaseAll protocol.listeners)
      · rename_i hi
        rw [List.eraseIdx_of_length_le (List.getElem?_eq_none_iff.1 hi)]
        exact .refl _
  | _ => exact .refl _

/-- What happens to the sockets of the connections. -/
theorem connections_proper {event : ProcessEvent} (h : p.Permitted event) :
    Proper (p.connections.flatMap fun c => c.fd.toList)
      (match event with
        | .listen _ _ _ | .shutdown _ | .deleteProtocol _ => []
        | _ => p.calls event)
      ((p.connectionsAfter event).flatMap fun c => c.fd.toList) := by
  cases event with
  | acceptable i client setup =>
      dsimp only [calls, connectionsAfter]
      cases p.protocols[i]? with
      | none => exact .refl _
      | some protocol =>
          cases client with
          | none => exact .vain (.refl _)
          | some fd =>
              cases setup with
              | true =>
                  refine .add_part _ (.acquire ?_)
                  rw [protocol.connectIncoming_fd]
                  exact .refl [fd]
              | false => exact proper_discard fd (.refl _)
  | connectOutgoing i =>
      dsimp only [calls, connectionsAfter]
      split
      · rename_i protocol hi
        refine .add_part _ ?_
        rw [protocol.connectOutgoing_fd]
        exact .refl []
      · exact .refl _
  | tcp i event attempts =>
      dsimp only [calls, connectionsAfter]
      split
      · rename_i c hi
        exact .set_part _ hi (c.descriptorCalls_proper h.2)
      · exact .refl _
  | ws i event attempts =>
      dsimp only [calls, connectionsAfter]
      split
      · rename_i c hi
        exact .set_part _ hi (c.descriptorCalls_proper h.2)
      · exact .refl _
  | destroy i =>
      dsimp only [calls, connectionsAfter]
      split
      · rename_i c hi
        exact .erase_part _ hi (.releaseAll c.fd.toList)
      · rename_i hi
        rw [List.eraseIdx_of_length_le (List.getElem?_eq_none_iff.1 hi)]
        exact .refl _
  | _ => exact .refl _

/-- **Every part of the process only closes what is its own**, and knows what it has opened. -/
theorem calls_proper {event : ProcessEvent} (h : p.Permitted event) :
    Proper p.owned (p.calls event) (p.step event).owned := by
  have hlisteners := (listeners_proper (p := p) event).frame
    (p.connections.flatMap fun c => c.fd.toList)
  have hconnections := (connections_proper h).frame_left
    ((p.protocolsAfter event).flatMap Protocol.listeners)
  have hboth := hlisteners.append hconnections
  rw [owned, owned, step]
  cases event with
  | listen i protocolLocal attempts => rwa [List.append_nil] at hboth
  | shutdown i => rwa [List.append_nil] at hboth
  | deleteProtocol i => rwa [List.append_nil] at hboth
  | _ => exact hboth

/-- A step keeps the descriptors balanced. -/
theorem step_balanced {before : List ℕ} (h : Balanced p.table (before ++ p.owned))
    {event : ProcessEvent} (hp : p.Permitted event) :
    Balanced (p.step event).table (before ++ (p.step event).owned) :=
  h.run ((calls_proper hp).frame_left before) hp.1

end Balance

end Process

/-- **Each descriptor that is open has one owner, and nothing is closed that is not open.**  When
there are no connections and no protocols any more, the descriptors are those from before. -/
theorem descriptors_balanced [Platform] [Nettle] {before : List ℕ} (hbefore : before.Nodup)
    {events : List ProcessEvent}
    (hevents : Runs.Meets Process.step Process.Permitted (.start before) events) :
    let p := events.foldl Process.step (.start before)
    (∀ fd, fd ∈ p.table.held ↔ fd ∈ before ∨ fd ∈ p.owned) ∧ (before ++ p.owned).Nodup ∧
      p.table.stray = [] ∧
      (p.protocols = [] → p.connections = [] → p.table.held.Perm before) := by
  have hstart : Balanced (Process.start before).table (before ++ (Process.start before).owned) := by
    refine ⟨?_, hbefore, rfl⟩
    rw [Process.owned, Process.start, List.flatMap_nil, List.flatMap_nil, List.append_nil,
      List.append_nil]
  have hbalanced := (Runs.always_of_meets
    (I := fun p : Process => Balanced p.table (before ++ p.owned))
    (fun _ _ h hp => Process.step_balanced h hp) hstart hevents).last
  refine ⟨fun fd => ?_, hbalanced.nodup_owned, hbalanced.stray, fun hprotocols hconnections => ?_⟩
  · rw [hbalanced.mem_iff, List.mem_append]
  · have hperm := hbalanced.perm
    rwa [Process.owned, hprotocols, hconnections, List.flatMap_nil, List.flatMap_nil,
      List.append_nil, List.append_nil] at hperm

/-- A process listens, is called and calls, and closes everything, the connections before the protocol
that they use. -/
theorem descriptors_balanced_sample :
    letI : Platform := ⟨.little⟩
    letI : Nettle := ⟨id, id⟩
    ∃ events : List ProcessEvent,
      let p := events.foldl Process.step (.start [0, 1, 2])
      events.length = 12 ∧ p.protocols = [] ∧ p.connections = [] ∧
        p.table.held.Perm [0, 1, 2] ∧ p.table.stray = [] := by
  let : Platform := ⟨.little⟩
  let : Nettle := ⟨id, id⟩
  let events : List ProcessEvent := [.registerProtocol .tcp ⟨[], 0⟩,
    .listen 0 ⟨ascii "near", 2809⟩ [.failed 3, .listening 3, .noSocket, .listening 4],
    .acceptable 0 (some 5) true, .acceptable 0 none true, .acceptable 0 (some 6) false,
    .connectOutgoing 0, .tcp 1 (.send [1] (.opened 6 true)) [.refused 6, .connecting 6],
    .tcp 1 (.canWrite false []) [], .tcp 1 (.canRead .failed fun _ => none) [],
    .destroy 1, .destroy 0, .deleteProtocol 0]
  have hevents : Runs.Meets Process.step Process.Permitted (.start [0, 1, 2]) events := by
    decide +kernel
  obtain ⟨-, -, hstray, hperm⟩ := descriptors_balanced (by decide) hevents
  have hprotocols : (events.foldl Process.step (.start [0, 1, 2])).protocols = [] := by
    decide +kernel
  have hconnections : (events.foldl Process.step (.start [0, 1, 2])).connections = [] := by
    decide +kernel
  exact ⟨events, rfl, hprotocols, hconnections, hperm hprotocols hconnections, hstray⟩

end Corba
