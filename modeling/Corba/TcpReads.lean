/-
What a connection reads, when it reads a stream of messages.

The operating system hands out the octets of a stream in pieces of its own.  `canRead` collects them
and hands out every message that is complete, until what is done with one of them throws: the other
ones stay in the buffer, and are handed out after the next octets have been read.

Main definitions:

* `Corba.IIOPStream2Packet.Compact` — a buffer of which everything has been handed out begins at its
  front;
* `Corba.TcpConnection.Reads` — a connection has handed out the first messages of a stream, and holds
  what it has received of the others;
* `Corba.TcpConnection.Caught` — it has handed out all messages that are complete.

Main results:

* `Corba.TcpConnection.compact_run` — the buffer of a connection is compact all along;
* `Corba.TcpConnection.Reads.messages_run` — the loop over the messages;
* `Corba.TcpConnection.Reads.step` — one step of a connection.
-/

import Corba.TcpInflow

set_option relaxedAutoImplicit false
set_option autoImplicit false

namespace Framing

variable {α : Type*}

/-- What arrives behind messages that are complete. -/
theorem arrived_append (ms ms' : List (List α)) (n : ℕ) :
    arrived (ms ++ ms') (ms.flatten.length + n) = ms ++ arrived ms' n := by
  induction ms with
  | nil => simp
  | cons m ms ih =>
      have hsub : (m :: ms).flatten.length + n - m.length = ms.flatten.length + n := by
        rw [List.flatten_cons, List.length_append]
        omega
      have hle : m.length ≤ (m :: ms).flatten.length + n := by
        rw [List.flatten_cons, List.length_append]
        omega
      rw [List.cons_append, arrived_cons_of_le _ hle, hsub, ih, List.cons_append]

end Framing

namespace Corba

open Framing Exec

namespace IIOPStream2Packet

/-- Room is made for what is going to be received. -/
theorem Held.buffer {s : IIOPStream2Packet} {ms : List Octets} {n : ℕ} (h : s.Held ms n) :
    s.buffer.Held ms n := by
  have hnone := h.received (List.nil_prefix : [] <+: ms.flatten.drop n)
  have hsame : s.buffer.received [] = s.buffer := by simp [IIOPStream2Packet.received]
  rwa [hsame, List.length_nil, Nat.add_zero] at hnone

theorem Held.ordered {s : IIOPStream2Packet} {ms : List Octets} {n : ℕ} (h : s.Held ms n) :
    s.Ordered where
  offset_le := h.offset_le
  begun hsize := by
    intro hnil
    have hlength := h.length_eq
    have hlooked := h.looked hsize
    rw [hnil, List.length_nil] at hlength
    omega

/-- A buffer of which everything has been handed out begins at its front. -/
structure Compact (s : IIOPStream2Packet) : Prop extends s.Ordered where
  reset : s.offset ≠ 0 → s.pending ≠ []

theorem compact_initial : ({} : IIOPStream2Packet).Compact :=
  ⟨ordered_initial, fun hoffset => absurd rfl hoffset⟩

/-- A compact buffer in which nothing has been collected. -/
theorem Compact.held {s : IIOPStream2Packet} (h : s.Compact) (hempty : s.Empty) {ms : List Octets}
    (hms : ∀ m ∈ ms, WellFormed m) : s.Held ms 0 where
  offset_le := h.offset_le
  pending_eq := hempty.1
  le := Nat.zero_le _
  messageSize := .inl hempty.2
  wellFormed := hms
  looked hsize := absurd hempty.2 hsize
  reset hoffset := absurd hempty.1 (h.reset hoffset)

theorem Compact.buffer {s : IIOPStream2Packet} (h : s.Compact) : s.buffer.Compact := by
  refine ⟨h.toOrdered.buffer, ?_⟩
  rw [pending_buffer, s.buffer_same.2.1]
  exact h.reset

theorem Compact.received {s : IIOPStream2Packet} (h : s.Compact) (chunk : Octets) :
    (s.received chunk).Compact := by
  refine ⟨h.toOrdered.received chunk, fun hoffset hnil => h.reset hoffset ?_⟩
  rw [h.pending_received] at hnil
  exact (List.append_eq_nil_iff.1 hnil).1

theorem advance_compact {s : IIOPStream2Packet} (hle : s.messageSize ≤ s.pending.length)
    (hoffset : s.offset ≤ s.size) : s.advance.Compact := by
  refine ⟨⟨advance_offset_le hle hoffset, fun hne => absurd s.advance_messageSize hne⟩, ?_⟩
  intro hmoved hnil
  have hlength := congrArg List.length hnil
  rw [length_pending] at hle
  rw [advance_pending, List.length_drop, length_pending, List.length_nil] at hlength
  refine hmoved ?_
  rw [advance_offset]
  exact if_pos (by omega)

section Message

variable [Platform] {s s' : IIOPStream2Packet} {m : Octets}

theorem message_compact_known (h : s.Compact) (hsize : s.messageSize ≠ 0)
    (hrun : message s = .ok m s') : s'.Compact := by
  rw [message_known hsize] at hrun
  split at hrun
  · cases hrun
    exact ⟨⟨Nat.zero_le _, h.begun⟩, fun hoffset => absurd rfl hoffset⟩
  · rename_i hlt
    cases hrun
    exact advance_compact (Nat.le_of_not_lt hlt) h.offset_le

/-- A message is taken. -/
theorem message_compact (h : s.Compact) (hrun : message s = .ok m s') : s'.Compact := by
  by_cases hsize : s.messageSize = 0
  · rcases Nat.lt_or_ge s.pending.length 16 with hlt | hge
    · rw [message_short hsize hlt] at hrun
      cases hrun
      exact h
    · cases hscan : scanSize s.pending s with
      | ok n t =>
          obtain ⟨ht, hn⟩ := scanSize_ok hscan
          subst t
          rw [message_scanned hsize hge hscan hn] at hrun
          have hbegun : s.pending ≠ [] :=
            List.ne_nil_of_length_pos (Nat.lt_of_lt_of_le (by decide) hge)
          have hlooked : ({ s with messageSize := n } : IIOPStream2Packet).Compact :=
            ⟨⟨h.offset_le, fun _ => hbegun⟩, h.reset⟩
          exact message_compact_known hlooked hn hrun
      | error f t =>
          have hscan' : scanSize (s.data.drop s.offset) s = .error f t := hscan
          rw [length_pending] at hge
          rw [message, get_bind, if_pos ⟨hsize, hge⟩, bind_error hscan'] at hrun
          cases hrun
  · exact message_compact_known h hsize hrun

end Message

end IIOPStream2Packet

namespace TcpConnection

/-! ### What is read from the socket -/

/-- What has been received from the last socket. -/
def inflow (c : TcpConnection) : Inflow := c.inflows.headD {}

/-- The messages that have been handed out and the `later` ones make up all of the stream, of which
the first octets have been received.  The ones that belong to later messages are held. -/
structure Reads (all later : List Octets) (c : TcpConnection) : Prop where
  some : c.inflows ≠ []
  messages : c.inflow.messages ++ later = all
  received : c.inflow.received = c.inflow.messages.flatten ++ c.stream2packet.pending
  held : c.stream2packet.Held later c.stream2packet.pending.length

section Reads

variable {all later : List Octets} {c c' : TcpConnection}

/-- When no message that is held is complete, those that have been handed out are the ones that have
arrived. -/
theorem Reads.messages_eq (h : c.Reads all later)
    (hnone : Framing.arrived later c.stream2packet.pending.length = []) :
    c.inflow.messages = Framing.arrived all c.inflow.received.length := by
  rw [h.received, ← h.messages, List.length_append, arrived_append, hnone, List.append_nil]

/-- The steps that have nothing to do with what is received. -/
theorem Reads.same (h : c.Reads all later) (hinflows : c'.inflows = c.inflows)
    (hstream : c'.stream2packet = c.stream2packet) : c'.Reads all later := by
  have hinflow : c'.inflow = c.inflow := by rw [inflow, inflow, hinflows]
  refine ⟨hinflows ▸ h.some, ?_, ?_, ?_⟩
  · rw [hinflow]
    exact h.messages
  · rw [hinflow, hstream]
    exact h.received
  · rw [hstream]
    exact h.held

theorem Reads.roomy (h : c.Reads all later) : c.roomy.Reads all later where
  some := h.some
  messages := h.messages
  received := by
    show c.inflow.received = _ ++ c.stream2packet.buffer.pending
    rw [IIOPStream2Packet.pending_buffer]
    exact h.received
  held := by
    show c.stream2packet.buffer.Held later c.stream2packet.buffer.pending.length
    rw [IIOPStream2Packet.pending_buffer]
    exact h.held.buffer

theorem inflow_modifyHead (f : Inflow → Inflow) (hsome : c.inflows ≠ [])
    (hinflows : c'.inflows = c.inflows.modifyHead f) : c'.inflow = f c.inflow := by
  obtain ⟨k, rest, hcons⟩ := List.exists_cons_of_ne_nil hsome
  rw [inflow, inflow, hinflows, hcons]
  rfl

/-- The next octets of the stream are received. -/
theorem Reads.arrived (h : c.Reads all later) {chunk : Octets}
    (hchunk : c.inflow.received ++ chunk <+: all.flatten) :
    (c.roomy.arrived chunk).Reads all later := by
  have hpending : (c.stream2packet.buffer.received chunk).pending =
      c.stream2packet.pending ++ chunk := by
    rw [h.held.ordered.buffer.pending_received, IIOPStream2Packet.pending_buffer]
  have hinflow : (c.roomy.arrived chunk).inflow =
      { c.inflow with received := c.inflow.received ++ chunk } :=
    inflow_modifyHead (fun k => { k with received := k.received ++ chunk }) h.some rfl
  refine ⟨?_, ?_, ?_, ?_⟩
  · exact fun hnil => h.some (List.modifyHead_eq_nil_iff.1 hnil)
  · rw [hinflow]
    exact h.messages
  · rw [hinflow]
    show c.inflow.received ++ chunk =
      c.inflow.messages.flatten ++ (c.stream2packet.buffer.received chunk).pending
    rw [hpending, h.received, List.append_assoc]
  · show (c.stream2packet.buffer.received chunk).Held later
      (c.stream2packet.buffer.received chunk).pending.length
    rw [hpending, List.length_append]
    refine h.held.received ?_
    -- the messages that have been handed out are in front of it
    rw [← h.messages, List.flatten_append, h.received, List.append_assoc] at hchunk
    have hlater := (List.prefix_append_right_inj _).1 hchunk
    rw [List.prefix_iff_eq_append] at hlater ⊢
    rw [← hlater, List.append_assoc, List.drop_left]
    simp

/-- A socket has been got while nothing was held: the stream is read from its beginning. -/
theorem Reads.opening (hempty : c.stream2packet.Empty) (hcompact : c.stream2packet.Compact)
    (hall : ∀ m ∈ all, WellFormed m) (hstream : c'.stream2packet = c.stream2packet)
    (hinflows : c'.inflows = {} :: c.inflows) : c'.Reads all all := by
  have hinflow : c'.inflow = {} := by
    rw [inflow, hinflows]
    rfl
  refine ⟨?_, ?_, ?_, ?_⟩
  · rw [hinflows]
    exact List.cons_ne_nil _ _
  · rw [hinflow]
    rfl
  · rw [hinflow, hstream, hempty.1]
    rfl
  · rw [hstream, hempty.1]
    exact hcompact.held hempty hall

/-- A message is handed out. -/
theorem Reads.delivered {m : Octets} {s : IIOPStream2Packet} (h : c.Reads all (m :: later))
    (htake : m ++ s.pending = c.stream2packet.pending) (hs : s.Held later s.pending.length) :
    (({ c with stream2packet := s } : TcpConnection).delivered m).Reads all later := by
  have hinflow : (({ c with stream2packet := s } : TcpConnection).delivered m).inflow =
      { c.inflow with messages := c.inflow.messages ++ [m] } :=
    inflow_modifyHead (fun k => { k with messages := k.messages ++ [m] }) h.some rfl
  refine ⟨?_, ?_, ?_, hs⟩
  · exact fun hnil => h.some (List.modifyHead_eq_nil_iff.1 hnil)
  · rw [hinflow, List.append_assoc]
    exact h.messages
  · rw [hinflow, List.flatten_append, List.flatten_singleton, List.append_assoc]
    show c.inflow.received = c.inflow.messages.flatten ++ (m ++ s.pending)
    rw [htake]
    exact h.received

end Reads

section Receiving

variable [Platform] {all later : List Octets} {c : TcpConnection}

/-- One round of the loop over the messages: nothing that is held is complete, or a message is handed
out. -/
theorem Reads.next (h : c.Reads all later) (hlong : ∀ m ∈ all, 16 ≤ m.length) :
    (∃ s, nextMessage c = .ok [] { c with stream2packet := s } ∧
      ({ c with stream2packet := s } : TcpConnection).Reads all later ∧
      Framing.arrived later s.pending.length = []) ∨
    ∃ m ms s, nextMessage c = .ok m { c with stream2packet := s } ∧ m ≠ [] ∧
      (({ c with stream2packet := s } : TcpConnection).delivered m).Reads all ms ∧
      s.pending.length < c.stream2packet.pending.length := by
  have hlater : ∀ m ∈ later, 16 ≤ m.length := by
    intro m hm
    refine hlong m ?_
    rw [← h.messages]
    exact List.mem_append_right _ hm
  by_cases hnext : handed 16 later c.stream2packet.pending.length = []
  · left
    obtain ⟨s, hmessage, hs⟩ := IIOPStream2Packet.message_incomplete h.held hnext
    have hheld := hs.held
    rw [remaining_of_handed_eq_nil hnext, kept_of_handed_eq_nil hnext] at hheld
    have hpending : s.pending = c.stream2packet.pending :=
      hheld.pending_eq.trans h.held.pending_eq.symm
    refine ⟨s, by rw [nextMessage, hmessage], ⟨h.some, h.messages, ?_, ?_⟩, ?_⟩
    · exact h.received.trans (congrArg _ hpending.symm)
    · exact hpending ▸ hheld
    · rw [hpending, ← handed_eq_arrived fun m hm => hlater m (mem_of_mem_arrived hm), hnext]
  · right
    obtain ⟨m, ms, rfl⟩ : ∃ m ms, later = m :: ms := by
      refine List.exists_cons_of_ne_nil ?_
      rintro rfl
      exact hnext rfl
    obtain ⟨hle, hlen⟩ : m.length ≤ c.stream2packet.pending.length ∧
        16 ≤ c.stream2packet.pending.length := by
      by_contra hnot
      exact hnext (handed_cons_of_not ms hnot)
    obtain ⟨hmessage, hs⟩ := IIOPStream2Packet.message_complete h.held.toHolding hle hlen
    generalize IIOPStream2Packet.advance { c.stream2packet with messageSize := m.length } = s
      at hmessage hs
    have hsize := hlater m (List.mem_cons_self ..)
    have htake : m ++ s.pending = c.stream2packet.pending := by
      refine Eq.trans ?_ h.held.pending_eq.symm
      rw [hs.pending_eq, List.flatten_cons, List.take_append, List.take_of_length_le hle]
    have hlength := hs.length_eq
    refine ⟨m, ms, s, by rw [nextMessage, hmessage], ?_, h.delivered htake ?_, by omega⟩
    · rintro rfl
      cases hsize
    · rwa [hlength]

/-- **The loop over the messages.**  It hands out messages of the stream.  When nothing is thrown and
it is run for long enough, no message that is complete is left. -/
theorem Reads.messages_run (h : c.Reads all later) (hlong : ∀ m ∈ all, 16 ≤ m.length) (n : ℕ)
    (recv : ℕ → Option Thrown) :
    ∃ later', (State (TcpConnection.messages recv n c)).Reads all later' ∧
      ((∀ k, recv k = none) → c.stream2packet.pending.length < n →
        Framing.arrived later'
          (State (TcpConnection.messages recv n c)).stream2packet.pending.length = []) := by
  induction n generalizing c later recv with
  | zero => exact ⟨later, h, fun _ hlt => absurd hlt (Nat.not_lt_zero _)⟩
  | succ n ih =>
      rw [TcpConnection.messages]
      rcases h.next hlong with ⟨s, hrun, hs, hnone⟩ | ⟨m, ms, s, hrun, hm, hs, hlt⟩
      · rw [bind_ok hrun]
        exact ⟨later, hs, fun _ _ => hnone⟩
      · have hmore : (!m.isEmpty) = true := by simpa using hm
        rw [bind_ok hrun, if_pos hmore, modify_bind]
        cases hrecv : recv 0 with
        | none =>
            obtain ⟨later', hreads, hdone⟩ := ih hs fun k => recv (k + 1)
            refine ⟨later', hreads, fun hnever hn => hdone (fun k => hnever (k + 1)) ?_⟩
            show s.pending.length < n
            omega
        | some t =>
            refine ⟨ms, hs, fun hnever => ?_⟩
            rw [hnever 0] at hrecv
            cases hrecv

/-- All messages that are complete have been handed out. -/
def Caught (all : List Octets) (c : TcpConnection) : Prop :=
  ∃ later, c.Reads all later ∧ Framing.arrived later c.stream2packet.pending.length = []

omit [Platform] in
theorem Caught.same {c' : TcpConnection} (h : c.Caught all) (hinflows : c'.inflows = c.inflows)
    (hstream : c'.stream2packet = c.stream2packet) : c'.Caught all := by
  obtain ⟨later, hreads, hnone⟩ := h
  exact ⟨later, hreads.same hinflows hstream, hstream ▸ hnone⟩

omit [Platform] in
theorem Caught.roomy (h : c.Caught all) : c.roomy.Caught all := by
  obtain ⟨later, hreads, hnone⟩ := h
  refine ⟨later, hreads.roomy, ?_⟩
  show Framing.arrived later c.stream2packet.buffer.pending.length = []
  rwa [IIOPStream2Packet.pending_buffer]

omit [Platform] in
theorem stopTimer_run (c : TcpConnection) : ∃ timerActive timerRunning,
    stopTimer c = .ok () { c with timerActive, timerRunning } := by
  rw [stopTimer, get_bind]
  split
  · exact ⟨false, false, rfl⟩
  · exact ⟨c.timerActive, c.timerRunning, rfl⟩

/-- Messages of the stream have been handed out, and under a condition all that are complete. -/
structure ReadsOn (all : List Octets) (p : Prop) (c : TcpConnection) : Prop where
  reads : ∃ later, c.Reads all later
  caught : p → c.Caught all

/-- The octets that are read, after the state and the timer have been seen to. -/
theorem Reads.chunk (h : c.Reads all later) (hlong : ∀ m ∈ all, 16 ≤ m.length) {octets : Octets}
    (hoctets : c.inflow.received ++ octets <+: all.flatten) {recv : ℕ → Option Thrown} {p : Prop}
    (hp : p → (∀ k, recv k = none) ∧ c.Caught all) :
    ReadsOn all p (State ((do
      let octets := octets.take (← get).stream2packet.length
      if octets ≠ [] then
        modify (TcpConnection.arrived octets)
        TcpConnection.messages recv ((← get).stream2packet.size + 1) : TcpM Unit) c.roomy)) := by
  rw [get_bind]
  have hchunk : c.inflow.received ++ octets.take c.roomy.stream2packet.length <+: all.flatten := by
    refine List.IsPrefix.trans ?_ hoctets
    rw [List.prefix_append_right_inj]
    exact List.take_prefix _ _
  have harrived := h.arrived hchunk
  by_cases hnil : octets.take c.roomy.stream2packet.length = []
  · rw [if_neg (not_not.2 hnil)]
    exact ⟨⟨later, h.roomy⟩, fun hquiet => (hp hquiet).2.roomy⟩
  · rw [if_pos hnil, modify_bind, get_bind]
    obtain ⟨later', hreads, hdone⟩ := harrived.messages_run hlong
      ((c.roomy.arrived (octets.take c.roomy.stream2packet.length)).stream2packet.size + 1) recv
    refine ⟨⟨later', hreads⟩, fun hquiet => ⟨later', hreads, hdone (hp hquiet).1 ?_⟩⟩
    rw [IIOPStream2Packet.length_pending]
    omega

/-- **What is read from the socket.** -/
theorem Reads.canRead (h : c.Reads all later) (hlong : ∀ m ∈ all, 16 ≤ m.length)
    (hfd : c.fd ≠ none) {octets : Octets}
    (hoctets : c.inflow.received ++ octets <+: all.flatten) (recv : ℕ → Option Thrown) :
    ReadsOn all ((∀ k, recv k = none) ∧ c.Caught all)
      (State (TcpConnection.canRead (.received octets) recv c)) := by
  -- neither the state nor the timer matters
  have hrest (state : ConnectionState) (timerActive timerRunning : Bool) :
      ReadsOn all ((∀ k, recv k = none) ∧ c.Caught all) (State ((do
        let octets := octets.take (← get).stream2packet.length
        if octets ≠ [] then
          modify (TcpConnection.arrived octets)
          TcpConnection.messages recv ((← get).stream2packet.size + 1) : TcpM Unit)
        { c.roomy with state, timerActive, timerRunning })) := by
    have hsame : ({ c with state, timerActive, timerRunning } : TcpConnection).Reads all later :=
      h.same rfl rfl
    exact hsame.chunk hlong hoctets fun hp => ⟨hp.1, hp.2.same rfl rfl⟩
  rw [canRead_received hfd]
  refine Preserves.after (P := ReadsOn all _) (fun _ => Preserves.pure none) ?_
  rw [TcpConnection.receive, get_bind]
  split
  · obtain ⟨timerActive, timerRunning, hstop⟩ :=
      stopTimer_run { c.roomy with state := .established }
    rw [modify_bind, bind_ok hstop]
    exact hrest .established timerActive timerRunning
  · exact hrest c.state c.timerActive c.timerRunning

/-- What is read in a step are the next octets of the stream. -/
def Continues (stream : Octets) (c : TcpConnection) : TcpEvent → Prop
  | .canRead (.received octets) _ => c.inflow.received ++ octets <+: stream
  | _ => True

/-- Nothing is thrown by what is done with a message. -/
def Calm : TcpEvent → Prop
  | .canRead _ recv => ∀ k, recv k = none
  | _ => True

omit [Platform] in
/-- A step at an end that has a socket gets no other one. -/
theorem not_getsSocket (hsound : c.Sound) (hfd : c.fd ≠ none) (event : TcpEvent) :
    ¬ c.GetsSocket event := by
  cases event with
  | send packet connect =>
      cases connect with
      | failed peer error => exact id
      | opened fd inProgress => exact fun hidle => hfd (hsound.attached.2 (.inl hidle))
  | up connect =>
      cases connect with
      | failed peer error => exact id
      | opened fd inProgress => exact hfd
  | accept client => exact hfd
  | _ => exact id

/-- **One step at one end, as far as it reads.** -/
theorem Reads.step (h : c.Reads all later) (hlong : ∀ m ∈ all, 16 ≤ m.length) (hsound : c.Sound)
    (hfd : c.fd ≠ none) {event : TcpEvent} (hcontinues : c.Continues all.flatten event) :
    ReadsOn all (Calm event ∧ c.Caught all) (c.step event) := by
  by_cases hread : ∃ result recv, event = .canRead result recv
  · obtain ⟨result, recv, rfl⟩ := hread
    cases result with
    | received octets => exact h.canRead hlong hfd hcontinues recv
    | again =>
        rw [TcpConnection.step, canRead_again hfd]
        exact ⟨⟨later, h.roomy⟩, fun hp => hp.2.roomy⟩
    | failed =>
        rw [TcpConnection.step, canRead_lost (.inr rfl)]
        exact ⟨⟨later, h.roomy.same rfl rfl⟩, fun hp => hp.2.roomy.same rfl rfl⟩
  · push Not at hread
    obtain ⟨hstream, ⟨hgets, -⟩ | ⟨-, -, hinflows⟩⟩ := step_inflow hsound event hread
    · exact absurd hgets (not_getsSocket hsound hfd event)
    · exact ⟨⟨later, h.same hinflows hstream⟩, fun hp => hp.2.same hinflows hstream⟩

end Receiving

section Compact

variable [Platform]

theorem preserves_compact_messages (n : ℕ) (recv : ℕ → Option Thrown) :
    Preserves (fun c => c.stream2packet.Compact) (TcpConnection.messages recv n) := by
  have hnext : Preserves (fun c => c.stream2packet.Compact) nextMessage := by
    intro c h
    rw [nextMessage]
    split
    · rename_i m s hmessage
      exact IIOPStream2Packet.message_compact h hmessage
    · rename_i f s hmessage
      obtain rfl := IIOPStream2Packet.message_error hmessage
      exact h
  induction n generalizing recv with
  | zero => exact Preserves.pure _
  | succ n ih =>
      rw [TcpConnection.messages]
      refine hnext.bind fun m => ?_
      split
      · refine Preserves.bind ?_ fun _ => ?_
        · exact fun c h => h
        · dsimp only
          split
          · exact Preserves.throw_bind _ _
          · exact ih _
      · exact Preserves.pure _

theorem preserves_compact_receive (octets : Octets) (recv : ℕ → Option Thrown) :
    Preserves (fun c => c.stream2packet.Compact) (TcpConnection.receive octets recv) := by
  have hrest : Preserves (fun c => c.stream2packet.Compact) (do
      let octets := octets.take (← get).stream2packet.length
      if octets ≠ [] then
        modify (TcpConnection.arrived octets)
        TcpConnection.messages recv ((← get).stream2packet.size + 1)) := by
    refine Preserves.get_bind fun c _ => ?_
    dsimp only
    split
    · refine (Preserves.modify fun c h => h.received _).bind fun _ => ?_
      exact Preserves.get_bind fun c _ => preserves_compact_messages _ _
    · exact Preserves.pure _
  refine Preserves.get_bind fun c _ => ?_
  split
  · refine Preserves.bind ?_ fun _ => Preserves.bind ?_ fun _ => hrest
    · exact fun c h => h
    · intro c h
      obtain ⟨timerActive, timerRunning, hstop⟩ := stopTimer_run c
      rw [hstop]
      exact h
  · exact hrest

theorem compact_step {c : TcpConnection} (hsound : c.Sound) (h : c.stream2packet.Compact)
    (event : TcpEvent) : (c.step event).stream2packet.Compact := by
  by_cases hread : ∃ result recv, event = .canRead result recv
  · obtain ⟨result, recv, rfl⟩ := hread
    rw [TcpConnection.step]
    by_cases hlost : c.fd = none ∨ result = .failed
    · rw [canRead_lost hlost]
      exact h.buffer
    · push Not at hlost
      obtain ⟨hfd, hresult⟩ := hlost
      cases result with
      | failed => exact absurd rfl hresult
      | again =>
          rw [canRead_again hfd]
          exact h.buffer
      | received octets =>
          rw [canRead_received hfd]
          exact ((preserves_compact_receive octets recv).bind fun _ => Preserves.pure none) c.roomy
            h.buffer
  · push Not at hread
    obtain ⟨hstream, -⟩ := step_inflow hsound event hread
    rw [hstream]
    exact h

theorem compact_run (events : List TcpEvent) :
    (events.foldl step ({} : TcpConnection)).stream2packet.Compact := by
  induction events using List.reverseRecOn with
  | nil => exact IIOPStream2Packet.compact_initial
  | append_singleton events event ih =>
      rw [List.foldl_append]
      exact compact_step (sound_run events) ih event

end Compact

end TcpConnection

end Corba
