/-
Connections that have one socket.

A connection gets a socket when something is to be sent or when it is accepted, and keeps it as long
as nothing goes wrong.  What is to be sent is written to this socket, in its order.  Meanwhile the
other end sends more, so the stream that is read from the socket grows.

Main definitions:

* `Corba.TcpConnection.Unopened` — there has not been a socket yet;
* `Corba.TcpConnection.Alone` — there has been one socket at most.

Main results:

* `Corba.TcpConnection.Reads.more` — the stream grows;
* `Corba.TcpConnection.Alone.step` — **one step, other than reading**;
* `Corba.TcpConnection.Alone.unread` — nothing is read.
-/

import Corba.TcpLink

set_option relaxedAutoImplicit false
set_option autoImplicit false

namespace Framing

variable {α : Type*}

/-- What comes behind a message that is not complete does not complete it. -/
theorem arrived_more {ms : List (List α)} {n : ℕ} (hnone : arrived ms n = [])
    (hle : n ≤ ms.flatten.length) {m : List α} (hm : m ≠ []) : arrived (ms ++ [m]) n = [] := by
  cases ms with
  | nil =>
      obtain rfl := Nat.le_zero.1 hle
      exact arrived_cons_of_lt [] (List.length_pos_of_ne_nil hm)
  | cons x xs =>
      refine arrived_cons_of_lt _ ?_
      by_contra hge
      rw [arrived_cons_of_le xs (Nat.le_of_not_lt hge)] at hnone
      cases hnone

end Framing

namespace Corba

open Framing Exec

namespace IIOPStream2Packet

theorem Held.more {s : IIOPStream2Packet} {ms : List Octets} {n : ℕ} (h : s.Held ms n) {m : Octets}
    (hm : WellFormed m) : s.Held (ms ++ [m]) n where
  offset_le := h.offset_le
  pending_eq := by
    rw [h.pending_eq, List.flatten_append, List.take_append_of_le_length h.le]
  le := by
    rw [List.flatten_append, List.length_append]
    exact h.le.trans (Nat.le_add_right _ _)
  messageSize := by
    rcases h.messageSize with hzero | ⟨first, hfirst, hsize⟩
    · exact .inl hzero
    · refine .inr ⟨first, ?_, hsize⟩
      cases ms with
      | nil => cases hfirst
      | cons x xs => exact hfirst
  wellFormed x hx := by
    rcases List.mem_append.1 hx with hx | hx
    · exact h.wellFormed x hx
    · exact List.mem_singleton.1 hx ▸ hm
  looked := h.looked
  reset := h.reset

end IIOPStream2Packet

namespace TcpConnection

/-! ### A stream that grows -/

section Stream

variable {all later : List Octets} {c c' : TcpConnection}

theorem Reads.more (h : c.Reads all later) {m : Octets} (hm : WellFormed m) :
    c.Reads (all ++ [m]) (later ++ [m]) where
  some := h.some
  messages := by rw [← h.messages, List.append_assoc]
  received := h.received
  held := h.held.more hm

theorem Caught.more (h : c.Caught all) {m : Octets} (hm : WellFormed m) :
    c.Caught (all ++ [m]) := by
  obtain ⟨later, hreads, hnone⟩ := h
  refine ⟨later ++ [m], hreads.more hm, arrived_more hnone hreads.held.le ?_⟩
  rintro rfl
  exact absurd hm.twelve_le (by decide)

/-- The other end has sent some more messages. -/
theorem ReadsOn.more {p : Prop} (h : ReadsOn all p c) {ms : List Octets}
    (hms : ∀ m ∈ ms, WellFormed m) : ReadsOn (all ++ ms) p c := by
  induction ms using List.reverseRecOn with
  | nil => rwa [List.append_nil]
  | append_singleton ms m ih =>
      obtain ⟨⟨later, hreads⟩, hcaught⟩ := ih fun x hx => hms x (List.mem_append_left _ hx)
      have hm := hms m (List.mem_append_right _ (List.mem_singleton_self m))
      rw [← List.append_assoc]
      exact ⟨⟨_, hreads.more hm⟩, fun hp => (hcaught hp).more hm⟩

theorem ReadsOn.same {p : Prop} (h : ReadsOn all p c) (hinflows : c'.inflows = c.inflows)
    (hstream : c'.stream2packet = c.stream2packet) : ReadsOn all p c' := by
  obtain ⟨later, hreads⟩ := h.reads
  exact ⟨⟨later, hreads.same hinflows hstream⟩, fun hp => (h.caught hp).same hinflows hstream⟩

end Stream

/-! ### One socket -/

/-- There has not been a socket yet. -/
structure Unopened (c : TcpConnection) : Prop where
  fd : c.fd = none
  sockets : c.sockets = []
  inflows : c.inflows = []
  empty : c.stream2packet.Empty
  compact : c.stream2packet.Compact

/-- There has been one socket at most.  The packets that have been `sent` are written to it in their
order, and what is read from it is a `stream` of messages. -/
structure Alone (c : TcpConnection) (sent stream : List Octets) (calm : Prop) : Prop where
  sound : c.Sound
  single : c.sockets.tail = []
  written : c.accepted ++ c.unsent = sent.flatten
  reads : c.Unopened ∨ c.fd ≠ none ∧ ReadsOn stream calm c

section Alone

variable {c : TcpConnection} {sent stream : List Octets} {calm : Prop}

theorem unopened_initial : ({} : TcpConnection).Unopened :=
  ⟨rfl, rfl, rfl, ⟨rfl, rfl⟩, IIOPStream2Packet.compact_initial⟩

theorem alone_initial (stream : List Octets) (calm : Prop) :
    ({} : TcpConnection).Alone [] stream calm :=
  ⟨sound_initial, rfl, rfl, .inl unopened_initial⟩

theorem Unopened.messages (h : c.Unopened) : c.inflow.messages = [] := by
  rw [inflow, h.inflows]
  rfl

theorem Alone.more (h : c.Alone sent stream calm) {ms : List Octets} (hms : ∀ m ∈ ms, WellFormed m) :
    c.Alone sent (stream ++ ms) calm :=
  ⟨h.sound, h.single, h.written, h.reads.imp_right fun ⟨hfd, hreads⟩ => ⟨hfd, hreads.more hms⟩⟩

/-- What the socket has taken are octets of the packets that have been sent. -/
theorem Alone.accepted_prefix (h : c.Alone sent stream calm) : c.accepted <+: sent.flatten :=
  ⟨c.unsent, h.written⟩

/-- When everything has been received, everything has been handed out. -/
theorem Alone.all (h : c.Alone sent stream calm) (hcalm : calm) (hstream : ∀ m ∈ stream, WellFormed m)
    (hreceived : c.inflow.received = stream.flatten) : c.inflow.messages = stream := by
  rcases h.reads with hfresh | ⟨-, hreads⟩
  · have hnone : stream.flatten = [] := by
      rw [← hreceived, inflow, hfresh.inflows]
      rfl
    cases stream with
    | nil => exact hfresh.messages
    | cons m ms =>
        obtain rfl := List.flatten_eq_nil_iff.1 hnone m (List.mem_cons_self ..)
        exact absurd (hstream [] (List.mem_cons_self ..)).twelve_le (by decide)
  · obtain ⟨later, hlater, hnone⟩ := hreads.caught hcalm
    rw [hlater.messages_eq hnone, hreceived, Framing.arrived_all]

theorem Alone.caught {p : Prop} (h : c.Alone sent stream False) (hp : p → c.Caught stream) :
    c.Alone sent stream p :=
  ⟨h.sound, h.single, h.written, h.reads.imp_right fun ⟨hfd, hreads⟩ => ⟨hfd, hreads.reads, hp⟩⟩

/-- Something has been received. -/
theorem Alone.fd_ne (h : c.Alone sent stream calm) (hinflows : c.inflows ≠ []) : c.fd ≠ none := by
  rcases h.reads with hfresh | ⟨hfd, -⟩
  · exact absurd hfresh.inflows hinflows
  · exact hfd

/-- What has to do with reading changes. -/
theorem Alone.reading (h : c.Alone sent stream calm) {c' : TcpConnection} {q : Prop}
    (hsound : c'.Sound) (hfd : c'.fd ≠ none) (hsockets : c'.sockets = c.sockets)
    (hunsent : c'.unsent = c.unsent) (hreads : ReadsOn stream q c') : c'.Alone sent stream q where
  sound := hsound
  single := hsockets ▸ h.single
  written := by
    rw [hunsent, accepted, hsockets]
    exact h.written
  reads := .inr ⟨hfd, hreads⟩

end Alone

section Step

variable [Platform] {c : TcpConnection} {sent stream : List Octets} {calm : Prop}

/-- What is written in a step. -/
theorem Alone.written_step (h : c.Alone sent stream calm) (event : TcpEvent) :
    (c.step event).sockets.tail = [] ∧
      (c.step event).accepted ++ (c.step event).unsent = (sent ++ packets [event]).flatten := by
  have hpasses := passes_step h.sound event
  have hsingle : (c.step event).sockets.tail = [] := by
    cases hpasses with
    | kept f out _ _ hsockets =>
        have hlast := h.single
        rw [hsockets]
        cases hc : c.sockets with
        | nil => rfl
        | cons k rest =>
            rw [hc] at hlast
            exact hlast
    | opened k hfd _ hsockets =>
        rw [hsockets, List.tail_cons]
        rcases h.reads with hfresh | ⟨hsome, -⟩
        · exact hfresh.sockets
        · exact absurd hfd hsome
  have htransmitted := hpasses.transmitted h.sound
  have hnone {d : TcpConnection} (hd : d.sockets.tail = []) : d.acceptedBefore = [] := by
    rw [acceptedBefore, hd]
    rfl
  rw [transmitted_eq, transmitted_eq, hnone hsingle, hnone h.single, List.nil_append,
    List.nil_append, h.written, ← List.flatten_append] at htransmitted
  exact ⟨hsingle, htransmitted⟩

/-- **One step, other than reading.**  A socket that there is stays. -/
theorem Alone.step (h : c.Alone sent stream calm) (hstream : ∀ m ∈ stream, WellFormed m)
    {event : TcpEvent} (hevent : ∀ result recv, event ≠ .canRead result recv)
    (hlasts : c.fd ≠ none → (c.step event).fd ≠ none) :
    (c.step event).Alone (sent ++ packets [event]) stream calm := by
  obtain ⟨hsingle, hwritten⟩ := h.written_step event
  refine ⟨h.sound.step event, hsingle, hwritten, ?_⟩
  obtain ⟨hsame, hgets⟩ := step_inflow h.sound event hevent
  rcases h.reads with hfresh | ⟨hfd, hreads⟩
  · rcases hgets with ⟨-, hfd', hinflows⟩ | ⟨-, hkept, hinflows⟩
    · have hreads := Reads.opening hfresh.empty hfresh.compact hstream hsame hinflows
      refine .inr ⟨hfd', ⟨_, hreads⟩, fun _ => ⟨_, hreads, ?_⟩⟩
      rw [hsame, hfresh.empty.1]
      exact (holding_start 0 hstream).2
    · refine .inl ⟨?_, ?_, hinflows.trans hfresh.inflows, hsame ▸ hfresh.empty,
        hsame ▸ hfresh.compact⟩
      · by_contra hfd'
        exact hkept hfd' hfresh.fd
      · cases passes_step h.sound event with
        | kept f out _ _ hsockets =>
            rw [hsockets, hfresh.sockets]
            rfl
        | opened k _ hfd' => exact absurd hfresh.fd (hkept hfd')
  · right
    rcases hgets with ⟨hgets, -⟩ | ⟨-, -, hinflows⟩
    · exact absurd hgets (not_getsSocket h.sound hfd event)
    · exact ⟨hlasts hfd, hreads.same hinflows hsame⟩

/-- The messages that have been handed out stay the same. -/
theorem Alone.messages_step (h : c.Alone sent stream calm) {event : TcpEvent}
    (hevent : ∀ result recv, event ≠ .canRead result recv) :
    (c.step event).inflow.messages = c.inflow.messages := by
  obtain ⟨-, ⟨hgets, -, hinflows⟩ | ⟨-, -, hinflows⟩⟩ := step_inflow h.sound event hevent
  · rcases h.reads with hfresh | ⟨hfd, -⟩
    · rw [hfresh.messages, inflow, hinflows]
      rfl
    · exact absurd hgets (not_getsSocket h.sound hfd event)
  · rw [inflow, inflow, hinflows]

/-- Nothing is read. -/
theorem Alone.unread (h : c.Alone sent stream calm) {result : RecvResult}
    {recv : ℕ → Option Thrown} (hresult : c.fd = none ∨ ∀ octets, result ≠ .received octets)
    (hlasts : c.fd ≠ none → (c.step (.canRead result recv)).fd ≠ none) :
    (c.step (.canRead result recv)).Alone sent stream calm ∧
      (c.step (.canRead result recv)).inflow = c.inflow := by
  obtain ⟨hsingle, hwritten⟩ := h.written_step (.canRead result recv)
  rw [show packets [TcpEvent.canRead result recv] = [] from rfl, List.append_nil] at hwritten
  have hsound := h.sound.step (.canRead result recv)
  rcases h.reads with hfresh | ⟨hfd, hreads⟩
  · have hstep : c.step (.canRead result recv) = { c.roomy.broken with readWatcher := false } := by
      rw [TcpConnection.step, canRead_lost (.inl hfresh.fd)]
      rfl
    refine ⟨⟨hsound, hsingle, hwritten, .inl ?_⟩, ?_⟩
    · rw [hstep]
      refine ⟨rfl, ?_, hfresh.inflows, ⟨?_, ?_⟩, hfresh.compact.buffer⟩
      · show c.sockets.modifyHead _ = []
        rw [hfresh.sockets]
        rfl
      · show c.stream2packet.buffer.pending = []
        rw [IIOPStream2Packet.pending_buffer]
        exact hfresh.empty.1
      · show c.stream2packet.buffer.messageSize = 0
        rw [c.stream2packet.buffer_same.2.2]
        exact hfresh.empty.2
    · rw [hstep]
      rfl
  · cases result with
    | received octets => exact (hresult.resolve_left hfd octets rfl).elim
    | again =>
        have hstep : c.step (.canRead .again recv) = c.roomy := by
          rw [TcpConnection.step, canRead_again hfd]
          rfl
        obtain ⟨later, hlater⟩ := hreads.reads
        refine ⟨⟨hsound, hsingle, hwritten, .inr ⟨hlasts hfd, ?_⟩⟩, ?_⟩
        · rw [hstep]
          exact ⟨⟨later, hlater.roomy⟩, fun hc => (hreads.caught hc).roomy⟩
        · rw [hstep]
          rfl
    | failed =>
        refine absurd ?_ (hlasts hfd)
        rw [TcpConnection.step, canRead_lost (.inr rfl)]
        rfl

end Step

/-! ### Passing a packet to `send` -/

/-- A socket that there is stays. -/
theorem send_lasts [Platform] {c : TcpConnection} (hfd : c.fd ≠ none) (packet : Octets)
    (connect : ConnectResult) : (c.step (.send packet connect)).fd ≠ none := by
  have hqueued : (c.queued packet).fd ≠ none := hfd
  have hup := up_of_socket hqueued connect
  rw [TcpConnection.step, send_run]
  cases c.state with
  | idle =>
      dsimp only
      rw [hup]
      exact hfd
  | pending => exact hfd
  | inprogress => exact hfd
  | established => exact hfd

end TcpConnection

end Corba
