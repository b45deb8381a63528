/-
What is received over several sockets.

A connection collects what it receives until a message is complete.  It can lose its socket in the
middle of a message, and go on with another one.  What has been collected belongs to the socket that
is gone.

Main definitions:

* `Corba.IIOPStream2Packet.Empty` — nothing has been collected;
* `Corba.TcpConnection.Unmixed` — every message comes from one socket;
* `Corba.TcpConnection.OpensEmpty` — the steps that get a socket with nothing collected.

Main results:

* `Corba.IIOPStream2Packet.message_takes` — a message is taken from what has been collected;
* `Corba.TcpConnection.Flowing.step` — one step;
* `Corba.messages_from_one_socket_iff` — messages are never mixed exactly when all steps are of these
  kinds.
-/

import Corba.TcpRuns

set_option relaxedAutoImplicit false
set_option autoImplicit false

namespace Corba

open Layout Exec

namespace IIOPStream2Packet

/-! ### Taking a message -/

/-- Nothing has been collected, and no message is waited for. -/
def Empty (s : IIOPStream2Packet) : Prop := s.pending = [] ∧ s.messageSize = 0

/-- A message is only waited for when a part of it is there. -/
structure Ordered (s : IIOPStream2Packet) : Prop where
  offset_le : s.offset ≤ s.data.length
  begun : s.messageSize ≠ 0 → s.pending ≠ []

theorem ordered_initial : ({} : IIOPStream2Packet).Ordered := ⟨Nat.le_refl _, by simp⟩

@[simp] theorem pending_buffer (s : IIOPStream2Packet) : s.buffer.pending = s.pending := by
  obtain ⟨hdata, hoffset, -⟩ := s.buffer_same
  rw [pending, hdata, hoffset, pending]

theorem Ordered.buffer {s : IIOPStream2Packet} (h : s.Ordered) : s.buffer.Ordered := by
  obtain ⟨hdata, hoffset, hsize⟩ := s.buffer_same
  refine ⟨?_, ?_⟩
  · rw [hdata, hoffset]
    exact h.offset_le
  · rw [hsize, pending_buffer]
    exact h.begun

theorem Ordered.pending_received {s : IIOPStream2Packet} (h : s.Ordered) (chunk : Octets) :
    (s.received chunk).pending = s.pending ++ chunk :=
  List.drop_append_of_le_length h.offset_le

theorem Ordered.received {s : IIOPStream2Packet} (h : s.Ordered) (chunk : Octets) :
    (s.received chunk).Ordered where
  offset_le := by
    show s.offset ≤ (s.data ++ chunk).length
    rw [List.length_append]
    exact h.offset_le.trans (Nat.le_add_right _ _)
  begun hsize := by
    rw [h.pending_received]
    exact fun hnil => h.begun hsize (List.append_eq_nil_iff.1 hnil).1

variable [Platform]

/-- When the size of the message is known. -/
theorem message_takes_known {s s' : IIOPStream2Packet} {m : Octets} (h : s.Ordered)
    (hsize : s.messageSize ≠ 0) (hrun : message s = .ok m s') :
    s'.Ordered ∧ m ++ s'.pending = s.pending := by
  rw [message_known hsize] at hrun
  split at hrun
  · cases hrun
    exact ⟨⟨Nat.zero_le _, h.begun⟩, rfl⟩
  · rename_i hlt
    cases hrun
    refine ⟨⟨advance_offset_le (Nat.le_of_not_lt hlt) h.offset_le, ?_⟩, ?_⟩
    · exact fun hne => absurd s.advance_messageSize hne
    · rw [advance_pending, List.take_append_drop]

/-- When the header cannot be read, nothing is taken. -/
theorem message_error {s s' : IIOPStream2Packet} {f : Fault} (hrun : message s = .error f s') :
    s' = s := by
  by_cases hcond : s.messageSize = 0 ∧ s.size - s.offset ≥ 16
  · cases hscan : scanSize (s.data.drop s.offset) s with
    | ok n t =>
        obtain ⟨ht, hn⟩ := scanSize_ok hscan
        subst t
        have hge : 16 ≤ s.pending.length := by
          rw [length_pending]
          exact hcond.2
        rw [message_scanned hcond.1 hge hscan hn, message_known hn] at hrun
        split at hrun <;> cases hrun
    | error f' t =>
        rw [message, get_bind, if_pos hcond, bind_error hscan] at hrun
        cases hrun
        rw [scanSize] at hscan
        split at hscan
        · cases hscan
        · cases hscan
          rfl
  · rw [message, get_bind, if_neg hcond] at hrun
    dsimp only at hrun
    rw [get_bind] at hrun
    split at hrun
    · cases hrun
    · split at hrun
      · cases hrun
      · split at hrun <;> cases hrun

/-- **A message is taken from the front of what has been collected**, or nothing is taken. -/
theorem message_takes {s : IIOPStream2Packet} (h : s.Ordered) :
    (∃ m s', message s = .ok m s' ∧ s'.Ordered ∧ m ++ s'.pending = s.pending) ∨
      ∃ f, message s = .error f s := by
  cases hrun : message s with
  | ok m s' =>
      refine .inl ⟨m, s', rfl, ?_⟩
      by_cases hsize : s.messageSize = 0
      · rcases Nat.lt_or_ge s.pending.length 16 with hlt | hge
        · rw [message_short hsize hlt] at hrun
          cases hrun
          exact ⟨h, rfl⟩
        · cases hscan : scanSize s.pending s with
          | ok n t =>
              obtain ⟨ht, hn⟩ := scanSize_ok hscan
              subst t
              rw [message_scanned hsize hge hscan hn] at hrun
              refine message_takes_known (s := { s with messageSize := n }) ⟨h.offset_le, ?_⟩ hn hrun
              intro _ hnil
              have hnil : s.pending = [] := hnil
              rw [hnil] at hge
              cases hge
          | error f t =>
              have hscan' : scanSize (s.data.drop s.offset) s = .error f t := hscan
              rw [length_pending] at hge
              rw [message, get_bind, if_pos ⟨hsize, hge⟩, bind_error hscan'] at hrun
              cases hrun
      · exact message_takes_known h hsize hrun
  | error f s' =>
      obtain rfl := message_error hrun
      exact .inr ⟨f, rfl⟩

end IIOPStream2Packet

namespace TcpConnection

/-! ### One socket after the other -/

/-- Every message consists of what has been received from one socket, and nothing has been collected
as long as nothing has been received from the last one. -/
structure Unmixed (c : TcpConnection) : Prop where
  messages : ∀ k ∈ c.inflows, k.messages.flatten <+: k.received
  fresh : c.fd ≠ none → ∀ k ∈ c.inflows.head?, k.received = [] → c.stream2packet.Empty

/-- The step gets a socket. -/
def GetsSocket (c : TcpConnection) : TcpEvent → Prop
  | .accept _ => c.fd = none
  | event => c.Opens event

/-- No socket is got in the middle of a message. -/
def OpensEmpty (c : TcpConnection) (event : TcpEvent) : Prop :=
  c.GetsSocket event → c.stream2packet.Empty

/-- What has been received from the socket has been made into messages, or is held. -/
structure Flowing (c : TcpConnection) : Prop where
  ordered : c.stream2packet.Ordered
  current : c.fd ≠ none → ∃ k rest, c.inflows = k :: rest ∧
    k.received = k.messages.flatten ++ c.stream2packet.pending
  past : ∀ k ∈ c.inflows, k.messages.flatten <+: k.received

theorem flowing_initial : ({} : TcpConnection).Flowing where
  ordered := IIOPStream2Packet.ordered_initial
  current h := absurd rfl h
  past := by simp

theorem Flowing.unmixed {c : TcpConnection} (h : c.Flowing) : c.Unmixed where
  messages := h.past
  fresh hfd k hk hnone := by
    obtain ⟨k', rest, hinflows, hreceived⟩ := h.current hfd
    rw [hinflows] at hk
    obtain rfl : k = k' := (Option.some.inj hk).symm
    rw [hnone] at hreceived
    have hpending := (List.append_eq_nil_iff.1 hreceived.symm).2
    refine ⟨hpending, ?_⟩
    by_contra hsize
    exact h.ordered.begun hsize hpending

/-- The steps that have nothing to do with what is received. -/
theorem Flowing.same {c c' : TcpConnection} (h : c.Flowing)
    (hfd : c'.fd ≠ none → c.fd ≠ none) (hinflows : c'.inflows = c.inflows)
    (hstream : c'.stream2packet = c.stream2packet) : c'.Flowing where
  ordered := hstream ▸ h.ordered
  current hsome := by
    rw [hinflows, hstream]
    exact h.current (hfd hsome)
  past := hinflows ▸ h.past

/-- A new socket, when nothing has been collected. -/
theorem Flowing.fresh {c c' : TcpConnection} (h : c.Flowing) (hempty : c.stream2packet.Empty)
    (hinflows : c'.inflows = {} :: c.inflows) (hstream : c'.stream2packet = c.stream2packet) : c'.Flowing where
  ordered := hstream ▸ h.ordered
  current _ := by
    refine ⟨{}, c.inflows, hinflows, ?_⟩
    rw [hstream, hempty.1]
    rfl
  past := by
    rw [hinflows]
    intro k hk
    rcases List.mem_cons.1 hk with rfl | hk
    · exact List.prefix_rfl
    · exact h.past k hk

theorem Flowing.roomy {c : TcpConnection} (h : c.Flowing) : c.roomy.Flowing where
  ordered := h.ordered.buffer
  current hfd := by
    obtain ⟨k, rest, hinflows, hreceived⟩ := h.current hfd
    refine ⟨k, rest, hinflows, ?_⟩
    rw [hreceived]
    exact congrArg _ (IIOPStream2Packet.pending_buffer _).symm
  past := h.past

theorem Flowing.arrived {c : TcpConnection} (h : c.Flowing) (octets : Octets) :
    (c.arrived octets).Flowing where
  ordered := h.ordered.received octets
  current hfd := by
    obtain ⟨k, rest, hinflows, hreceived⟩ := h.current hfd
    refine ⟨{ k with received := k.received ++ octets }, rest, ?_, ?_⟩
    · rw [TcpConnection.arrived, hinflows, List.modifyHead_cons]
    · show k.received ++ octets = k.messages.flatten ++ (c.stream2packet.received octets).pending
      rw [h.ordered.pending_received, hreceived, List.append_assoc]
  past := by
    intro k hk
    have hk : k ∈ c.inflows.modifyHead fun k => { k with received := k.received ++ octets } := hk
    cases hinflows : c.inflows with
    | nil =>
        rw [hinflows] at hk
        cases hk
    | cons k' rest =>
        have hpast := h.past
        rw [hinflows] at hk hpast
        rcases List.mem_cons.1 hk with rfl | hk
        · exact (hpast k' (List.mem_cons_self ..)).trans (List.prefix_append _ _)
        · exact hpast k (List.mem_cons_of_mem _ hk)

/-- A message that is taken from what is held. -/
theorem Flowing.delivered {c : TcpConnection} {s : IIOPStream2Packet} {m : Octets} (h : c.Flowing)
    (hfd : c.fd ≠ none) (hordered : s.Ordered) (htake : m ++ s.pending = c.stream2packet.pending) :
    (({ c with stream2packet := s } : TcpConnection).delivered m).Flowing := by
  obtain ⟨k, rest, hinflows, hreceived⟩ := h.current hfd
  have hpast := h.past
  have hheld : k.received = (k.messages ++ [m]).flatten ++ s.pending := by
    rw [hreceived, ← htake, List.flatten_append, List.flatten_singleton, List.append_assoc]
  have hafter : (({ c with stream2packet := s } : TcpConnection).delivered m).inflows =
      { k with messages := k.messages ++ [m] } :: rest := by
    show c.inflows.modifyHead _ = _
    rw [hinflows, List.modifyHead_cons]
  refine ⟨hordered, fun _ => ⟨_, rest, hafter, hheld⟩, ?_⟩
  rw [hafter]
  rw [hinflows] at hpast
  intro k' hk'
  rcases List.mem_cons.1 hk' with rfl | hk'
  · exact ⟨s.pending, hheld.symm⟩
  · exact hpast k' (List.mem_cons_of_mem _ hk')

section Receiving

variable [Platform]

/-- The loop over the messages. -/
theorem Flowing.messages {c : TcpConnection} (h : c.Flowing) (hfd : c.fd ≠ none) (n : ℕ)
    (recv : ℕ → Option Thrown) : (State (TcpConnection.messages recv n c)).Flowing := by
  induction n generalizing c recv with
  | zero => exact h
  | succ n ih =>
      rw [TcpConnection.messages]
      rcases IIOPStream2Packet.message_takes h.ordered with
        ⟨m, s, hmessage, hordered, htake⟩ | ⟨f, hmessage⟩
      · have hnext : nextMessage c = .ok m { c with stream2packet := s } := by
          rw [nextMessage, hmessage]
        have hdelivered := h.delivered hfd hordered htake
        rw [bind_ok hnext]
        cases m with
        | nil =>
            -- an incomplete message has been moved to the front
            obtain ⟨k, rest, hinflows, hreceived⟩ := h.current hfd
            exact ⟨hordered, fun _ => ⟨k, rest, hinflows,
              hreceived.trans (congrArg _ htake.symm)⟩, h.past⟩
        | cons b bs =>
            have hmore : (!(b :: bs).isEmpty) = true := rfl
            rw [if_pos hmore, modify_bind]
            cases recv 0 with
            | none => exact ih hdelivered hfd _
            | some t => exact hdelivered
      · have hnext : nextMessage c = .error f c := by
          rw [nextMessage, hmessage]
        rw [bind_error hnext]
        exact h

theorem Flowing.receive (octets : Octets) (recv : ℕ → Option Thrown) :
    Preserves (fun c => c.fd ≠ none ∧ c.Flowing) (TcpConnection.receive octets recv) := by
  have hrest : Preserves (fun c => c.fd ≠ none ∧ c.Flowing) (do
      let octets := octets.take (← get).stream2packet.length
      if octets ≠ [] then
        modify (TcpConnection.arrived octets)
        TcpConnection.messages recv ((← get).stream2packet.size + 1)) := by
    refine Preserves.get_bind fun c _ => ?_
    dsimp only
    split
    · refine (Preserves.modify fun c h => ⟨h.1, h.2.arrived _⟩).bind fun _ => ?_
      refine Preserves.get_bind fun c _ c' h => ⟨?_, h.2.messages h.1 _ _⟩
      rw [(preserves_messages c' _ recv c' (.refl c')).fd]
      exact h.1
    · exact Preserves.pure _
  intro c h
  rw [TcpConnection.receive, get_bind]
  split
  · -- the socket is connected, which ends the attempt
    have hsame : ∀ c : TcpConnection, c.fd ≠ none ∧ c.Flowing →
        ∀ (state : ConnectionState) (timerActive timerRunning : Bool),
          ({ c with state, timerActive, timerRunning } : TcpConnection).fd ≠ none ∧
            ({ c with state, timerActive, timerRunning } : TcpConnection).Flowing :=
      fun c h _ _ _ => ⟨h.1, h.2.same id rfl rfl⟩
    have hstopped : Preserves (fun c => c.fd ≠ none ∧ c.Flowing) stopTimer := by
      refine Preserves.get_bind fun c' _ => ?_
      split
      · exact Preserves.modify fun c h => hsame c h ..
      · exact Preserves.pure _
    exact (hstopped.bind fun _ => hrest) _ (hsame c h ..)
  · exact hrest c h

theorem Flowing.canRead {c : TcpConnection} (h : c.Flowing) (result : RecvResult)
    (recv : ℕ → Option Thrown) : (State (TcpConnection.canRead result recv c)).Flowing := by
  by_cases hlost : c.fd = none ∨ result = .failed
  · rw [canRead_lost hlost]
    exact h.roomy.same (fun hsome => absurd rfl hsome) rfl rfl
  · push Not at hlost
    obtain ⟨hfd, hresult⟩ := hlost
    cases result with
    | failed => exact absurd rfl hresult
    | again =>
        rw [canRead_again hfd]
        exact h.roomy
    | received octets =>
        rw [canRead_received hfd]
        exact (((Flowing.receive octets recv).bind fun _ => Preserves.pure none) c.roomy
          ⟨hfd, h.roomy⟩).2

end Receiving

/-! ### The other steps -/

/-- What a call of `up` does to what is received. -/
theorem up_inflow (connect : ConnectResult) (c : TcpConnection) :
    let c' := State (up connect c)
    c'.stream2packet = c.stream2packet ∧
      (c.Opens (.up connect) ∧ c'.fd ≠ none ∧ c'.inflows = {} :: c.inflows ∨
        ¬ c.Opens (.up connect) ∧ c'.fd = c.fd ∧ c'.inflows = c.inflows) := by
  by_cases hfd : c.fd = none
  · cases connect with
    | failed peer error =>
        rw [up_failed hfd]
        exact ⟨rfl, .inr ⟨id, rfl, rfl⟩⟩
    | opened fd inProgress =>
        rw [up_opened hfd]
        exact ⟨rfl, .inl ⟨hfd, by simp [opened, TcpConnection.attached], rfl⟩⟩
  · rw [up_of_socket hfd]
    refine ⟨rfl, .inr ⟨?_, rfl, rfl⟩⟩
    cases connect with
    | failed peer error => exact id
    | opened fd inProgress => exact hfd

variable [Platform]

/-- What a step that receives nothing does to what is received. -/
theorem step_inflow {c : TcpConnection} (hsound : c.Sound) (event : TcpEvent)
    (hevent : ∀ result recv, event ≠ .canRead result recv) :
    let c' := c.step event
    c'.stream2packet = c.stream2packet ∧
      (c.GetsSocket event ∧ c'.fd ≠ none ∧ c'.inflows = {} :: c.inflows ∨
        ¬ c.GetsSocket event ∧ (c'.fd ≠ none → c.fd ≠ none) ∧ c'.inflows = c.inflows) := by
  cases event with
  | send packet connect =>
      have hup := up_inflow connect (c.queued packet)
      rw [step, send_run]
      cases hstate : c.state with
      | idle =>
          rcases hup with ⟨hstream, hopens | ⟨hopens, hfd, hinflows⟩⟩
          · refine ⟨hstream, .inl ⟨?_, hopens.2⟩⟩
            cases connect with
            | failed peer error => cases hopens.1
            | opened fd inProgress => exact hstate
          · refine ⟨hstream, .inr ⟨?_, fun hsome => hfd ▸ hsome, hinflows⟩⟩
            cases connect with
            | failed peer error => exact id
            | opened fd inProgress =>
                exact fun _ => hopens (hsound.attached.2 (.inl hstate))
      | _ =>
          refine ⟨rfl, .inr ⟨?_, id, rfl⟩⟩
          cases connect with
          | failed peer error => exact id
          | opened fd inProgress =>
              intro hidle
              have hidle : c.state = .idle := hidle
              rw [hstate] at hidle
              cases hidle
  | up connect =>
      obtain ⟨hstream, ⟨hopens, hafter⟩ | ⟨hopens, hfd, hinflows⟩⟩ := up_inflow connect c
      · exact ⟨hstream, .inl ⟨hopens, hafter⟩⟩
      · refine ⟨hstream, .inr ⟨hopens, ?_, hinflows⟩⟩
        intro hsome
        rwa [← hfd]
  | accept client =>
      rw [step, accept_run]
      split
      · rename_i hfd
        exact ⟨rfl, .inl ⟨hfd, by simp [TcpConnection.attached], rfl⟩⟩
      · rename_i hfd
        exact ⟨rfl, .inr ⟨hfd, id, rfl⟩⟩
  | canWrite peer results =>
      obtain ⟨c', out, hflushed, hrun⟩ := canWrite_spec peer results hsound.fronted
      have hinflow : c'.stream2packet = c.stream2packet ∧ c'.fd = c.fd ∧ c'.inflows = c.inflows := by
        rw [hflushed.eq]
        exact ⟨rfl, rfl, rfl⟩
      rw [step]
      rcases hrun with hrun | hrun
      · rw [hrun]
        exact ⟨hinflow.1, .inr ⟨id, fun hsome => hinflow.2.1 ▸ hsome, hinflow.2.2⟩⟩
      · rw [hrun]
        exact ⟨hinflow.1, .inr ⟨id, fun hsome => absurd rfl hsome, hinflow.2.2⟩⟩
  | canRead result recv => exact absurd rfl (hevent result recv)
  | timer =>
      rw [step]
      by_cases hstate : c.state = .inprogress
      · rw [timer_inprogress hstate]
        exact ⟨rfl, .inr ⟨id, fun hsome => absurd rfl hsome, rfl⟩⟩
      · rw [timer_idle hstate]
        exact ⟨rfl, .inr ⟨id, id, rfl⟩⟩

theorem Flowing.step {c : TcpConnection} (hsound : c.Sound) (h : c.Flowing) (event : TcpEvent)
    (hempty : c.OpensEmpty event) : (c.step event).Flowing := by
  by_cases hread : ∃ result recv, event = .canRead result recv
  · obtain ⟨result, recv, rfl⟩ := hread
    exact h.canRead result recv
  · push Not at hread
    obtain ⟨hstream, ⟨hgets, -, hinflows⟩ | ⟨-, hfd, hinflows⟩⟩ := step_inflow hsound event hread
    · exact h.fresh (hempty hgets) hinflows hstream
    · exact h.same hfd hinflows hstream

/-- After a socket has been got in the middle of a message, nothing has been received from it, but
something has been collected. -/
theorem opensEmpty_of_unmixed {c : TcpConnection} (hsound : c.Sound) (event : TcpEvent)
    (h : (c.step event).Unmixed) : c.OpensEmpty event := by
  intro hgets
  by_cases hread : ∃ result recv, event = .canRead result recv
  · obtain ⟨result, recv, rfl⟩ := hread
    cases hgets
  · push Not at hread
    obtain ⟨hstream, ⟨-, hfd, hinflows⟩ | ⟨hnot, -⟩⟩ := step_inflow hsound event hread
    · rw [← hstream]
      refine h.fresh hfd {} ?_ rfl
      rw [hinflows]
      rfl
    · exact absurd hgets hnot

end TcpConnection

/-- **Messages are never made from two sockets exactly when no socket is got while something has been
collected.** -/
theorem messages_from_one_socket_iff [Platform] (events : List TcpEvent) :
    Runs.Always TcpConnection.step TcpConnection.Unmixed {} events ↔
      Runs.Meets TcpConnection.step TcpConnection.OpensEmpty {} events :=
  Runs.always_iff_meets_of (I := TcpConnection.Sound)
    (J := fun c => c.Sound ∧ c.Flowing) (fun _ event h => h.step event)
    (fun _ event h hempty => ⟨h.1.step event, h.2.step h.1 event hempty⟩)
    (fun _ h => h.2.unmixed) (fun _ event h hafter => TcpConnection.opensEmpty_of_unmixed h event hafter)
    TcpConnection.sound_initial ⟨TcpConnection.sound_initial, TcpConnection.flowing_initial⟩

/-- The first socket is lost after four octets of a message, which are put in front of what the
second one receives. -/
theorem message_from_two_sockets :
    letI : Platform := ⟨.little⟩
    ∃ events : List TcpEvent,
      let c := events.foldl TcpConnection.step {}
      c.inflows = [⟨[1, 2, 1, 1, 4, 0, 0, 0, 9, 9, 9, 9],
          [ascii "GIOP" ++ [1, 2, 1, 1, 4, 0, 0, 0, 9, 9, 9, 9]]⟩, ⟨ascii "GIOP", []⟩] ∧
        ¬ c.Unmixed := by
  let : Platform := ⟨.little⟩
  let events : List TcpEvent := [.send [1] (.opened 3 true),
    .canRead (.received (ascii "GIOP")) fun _ => none, .canRead .failed fun _ => none,
    .send [2] (.opened 4 true),
    .canRead (.received [1, 2, 1, 1, 4, 0, 0, 0, 9, 9, 9, 9]) fun _ => none]
  have hinflows : (events.foldl TcpConnection.step {}).inflows =
      [⟨[1, 2, 1, 1, 4, 0, 0, 0, 9, 9, 9, 9],
        [ascii "GIOP" ++ [1, 2, 1, 1, 4, 0, 0, 0, 9, 9, 9, 9]]⟩, ⟨ascii "GIOP", []⟩] := by
    decide +kernel
  refine ⟨events, hinflows, fun h => ?_⟩
  have hmessages := h.messages
  rw [hinflows] at hmessages
  exact absurd (hmessages _ (List.mem_cons_self ..)) (by decide)

end Corba
