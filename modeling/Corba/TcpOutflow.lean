/-
What is sent over one socket.

A connection queues packets, and each time the socket can be written to, the operating system takes
as much of what is queued as it likes.  What it has taken and what has not been sent yet are all that
was queued, in its order.  A socket that is opened after a part of a packet has been sent over an
earlier one is not given the beginning of this packet any more.

Main definitions:

* `Corba.TcpConnection.accepted`, `Corba.TcpConnection.transmitted` — what the last socket has taken,
  and what all of them have;
* `Corba.TcpConnection.Passes` — what a step can do with what is to be sent.

Main results:

* `Corba.TcpConnection.passes_step` — one step;
* `Corba.TcpConnection.transmitted_run` — every octet is sent once and in order, over all sockets;
* `Corba.sends_in_order_iff` — a socket is given the packets that are queued for it exactly
  when no part of the first one has been sent before.
-/

import Corba.TcpRuns

set_option relaxedAutoImplicit false
set_option autoImplicit false

namespace Corba

open Exec

namespace TcpConnection

/-! ### What the sockets have taken -/

/-- What the last socket has taken. -/
def accepted (c : TcpConnection) : Octets := (c.sockets.head?.map Socket.written).getD []

/-- What the sockets before the last one have taken, the first one first. -/
def acceptedBefore (c : TcpConnection) : Octets := c.sockets.tail.reverse.flatMap Socket.written

/-- What all sockets have taken, the first one first. -/
def transmitted (c : TcpConnection) : Octets := c.sockets.reverse.flatMap Socket.written

theorem transmitted_eq (c : TcpConnection) : c.transmitted = c.acceptedBefore ++ c.accepted := by
  rw [transmitted, acceptedBefore, accepted]
  cases c.sockets with
  | nil => rfl
  | cons k rest => simp

/-- What a step can do with what is to be sent: it writes a part of it to the socket, or it opens a
socket, to which nothing has been written. -/
inductive Passes (c c' : TcpConnection) (packets : List Octets) : Prop
  | kept (f : Socket → Socket) (out : Octets) (hfd : c.fd = none → c'.fd = none)
      (hnone : c.fd = none → out = []) (hsockets : c'.sockets = c.sockets.modifyHead f)
      (hwritten : ∀ k, (f k).written = k.written ++ out)
      (horder : out ++ c'.unsent = c.unsent ++ packets.flatten)
  | opened (k : Socket) (hfd : c.fd = none) (hfd' : c'.fd ≠ none)
      (hsockets : c'.sockets = k :: c.sockets) (hwritten : k.written = [])
      (horder : c'.unsent = c.unsent ++ packets.flatten)

section Passes

variable {c c' : TcpConnection} {packets : List Octets}

/-- The sockets are left alone. -/
theorem Passes.idle (hfd : c'.fd = c.fd) (hsockets : c'.sockets = c.sockets)
    (horder : c'.unsent = c.unsent ++ packets.flatten) : c.Passes c' packets := by
  refine .kept id [] (fun hnone => hfd.trans hnone) (fun _ => rfl) ?_ (fun k => ?_) horder
  · rw [hsockets]
    cases c.sockets with
    | nil => rfl
    | cons k rest => rfl
  · rw [List.append_nil]
    rfl

/-- The socket is closed, after something has been written to it. -/
theorem Passes.broken (h : c.Passes c' packets) (hfd : c.fd = none → c'.fd = none) :
    c.Passes c'.broken packets := by
  cases h with
  | kept f out _ hnone hsockets hwritten horder =>
      refine .kept ({ f · with closed := true }) out (fun _ => rfl) hnone ?_ hwritten horder
      show c'.sockets.modifyHead _ = _
      rw [hsockets]
      cases c.sockets with
      | nil => rfl
      | cons k rest => rfl
  | opened k hnone hsome => exact absurd (hfd hnone) hsome

/-- Watchers, the timer and what has been received are about something else. -/
theorem Passes.congr (h : c.Passes c' packets) {c'' : TcpConnection} (hfd : c''.fd = c'.fd)
    (hsockets : c''.sockets = c'.sockets) (hunsent : c''.unsent = c'.unsent) :
    c.Passes c'' packets := by
  cases h with
  | kept f out hkept hnone hsame hwritten horder =>
      exact .kept f out (fun h => hfd.trans (hkept h)) hnone (hsockets.trans hsame) hwritten
        (hunsent ▸ horder)
  | opened k hnone hsome hsame hwritten horder =>
      exact .opened k hnone (hfd ▸ hsome) (hsockets.trans hsame) hwritten (hunsent.trans horder)

/-- Nothing but what is queued is written, in its order. -/
theorem Passes.transmitted (hsound : c.Sound) (h : c.Passes c' packets) :
    c'.transmitted ++ c'.unsent = c.transmitted ++ c.unsent ++ packets.flatten := by
  cases h with
  | kept f out hfd hnone hsockets hwritten horder =>
      have hout : c'.transmitted = c.transmitted ++ out := by
        rw [TcpConnection.transmitted, TcpConnection.transmitted, hsockets]
        cases hhead : c.sockets with
        | nil =>
            by_cases hfd : c.fd = none
            · rw [hnone hfd]
              rfl
            · obtain ⟨k, rest, hcons, -⟩ := hsound.current hfd
              rw [hhead] at hcons
              cases hcons
        | cons k rest => simp [hwritten]
      rw [hout, List.append_assoc, horder, List.append_assoc]
  | opened k hfd hfd' hsockets hwritten horder =>
      have hout : c'.transmitted = c.transmitted := by
        rw [TcpConnection.transmitted, TcpConnection.transmitted, hsockets]
        simp [hwritten]
      rw [hout, horder, List.append_assoc]

/-- As long as there is a socket, those before it are left alone. -/
theorem Passes.acceptedBefore_kept (hfd : c.fd ≠ none) (h : c.Passes c' packets) :
    c'.acceptedBefore = c.acceptedBefore := by
  cases h with
  | kept f out _ _ hsockets =>
      rw [acceptedBefore, acceptedBefore, hsockets]
      cases c.sockets with
      | nil => rfl
      | cons k rest => rfl
  | opened k hnone => exact absurd hnone hfd

/-- A new socket comes after all others. -/
theorem Passes.acceptedBefore_opened (hfd : c.fd = none) (hfd' : c'.fd ≠ none)
    (h : c.Passes c' packets) : c'.acceptedBefore = c.transmitted := by
  cases h with
  | kept f out hkept => exact absurd (hkept hfd) hfd'
  | opened k _ _ hsockets => rw [acceptedBefore, hsockets, TcpConnection.transmitted, List.tail_cons]

end Passes

/-! ### Step by step -/

theorem passes_up (connect : ConnectResult) (c : TcpConnection) :
    c.Passes (State (up connect c)) [] := by
  have hunsent : c.unsent = c.unsent ++ ([] : List Octets).flatten := by simp
  by_cases hfd : c.fd = none
  · cases connect with
    | failed peer error =>
        rw [up_failed hfd]
        exact .idle rfl rfl hunsent
    | opened fd inProgress =>
        rw [up_opened hfd]
        exact .opened { incoming := false } hfd (by simp [opened, attached]) rfl rfl hunsent
  · rw [up_of_socket hfd]
    exact .idle rfl rfl hunsent

/-- What is written by the loop over the queue. -/
theorem Flushed.passes {c c' : TcpConnection} {out : Octets} (h : c.quiet.Flushed c' out) :
    c.Passes c' [] := by
  refine .kept (fun k => { k with written := k.written ++ out }) out ?_ ?_ ?_ (fun k => rfl) ?_
  · intro hnone
    rw [h.eq]
    exact hnone
  · intro hnone
    have horder := h.order
    rw [h.socket hnone] at horder
    exact List.append_left_eq_self.1 horder
  · rw [h.eq]
    rfl
  · rw [h.order]
    simp [unsent, quiet]

variable [Platform]

/-- **One step.** -/
theorem passes_step {c : TcpConnection} (h : c.Sound) (event : TcpEvent) :
    c.Passes (c.step event) (packets [event]) := by
  have hunsent : c.unsent = c.unsent ++ ([] : List Octets).flatten := by simp
  cases event with
  | send packet connect =>
      have hqueued : (c.queued packet).unsent = c.unsent ++ (packets [.send packet connect]).flatten := by
        rw [unsent_queued h.fronted]
        simp [packets]
      have hsend : c.Passes (c.queued packet) (packets [.send packet connect]) :=
        .idle rfl rfl hqueued
      rw [step, send_run]
      cases c.state with
      | idle =>
          rcases passes_up connect (c.queued packet) with
            ⟨f, out, hfd, hnone, hsockets, hwritten, horder⟩ | ⟨k, hfd, hfd', hsockets, hwritten, horder⟩
          · refine .kept f out hfd hnone hsockets hwritten ?_
            rw [horder, hqueued]
            simp
          · refine .opened k hfd hfd' hsockets hwritten ?_
            rw [horder, hqueued]
            simp
      | established => exact hsend.congr rfl rfl rfl
      | pending => exact hsend
      | inprogress => exact hsend
  | up connect => exact passes_up connect c
  | accept client =>
      rw [step, accept_run]
      split
      · rename_i hfd
        exact .opened { incoming := true } hfd (by simp [attached]) rfl rfl hunsent
      · exact .idle rfl rfl hunsent
  | canWrite peer results =>
      obtain ⟨c', out, hflushed, hrun⟩ := canWrite_spec peer results h.fronted
      rw [step]
      rcases hrun with hrun | hrun
      · rw [hrun]
        exact hflushed.passes.congr rfl rfl rfl
      · rw [hrun]
        refine hflushed.passes.broken fun hnone => ?_
        rw [hflushed.eq]
        exact hnone
  | canRead result recv =>
      rw [step]
      rcases canRead_spec result recv c with hreceived | hlost
      · refine .idle hreceived.fd hreceived.sockets ?_
        rw [unsent, hreceived.sendBuffer, hreceived.bytesSend]
        exact hunsent
      · rw [hlost]
        have hbroken : c.Passes c.broken [] := (Passes.idle rfl rfl hunsent).broken id
        exact hbroken.congr rfl rfl rfl
  | timer =>
      rw [step]
      by_cases hstate : c.state = .inprogress
      · rw [timer_inprogress hstate]
        have hbroken : c.Passes c.broken [] := (Passes.idle rfl rfl hunsent).broken id
        exact hbroken.congr rfl rfl rfl
      · rw [timer_idle hstate]
        exact .idle rfl rfl hunsent

/-! ### Whole runs -/

/-- What has been written and what is to be written, after some more steps. -/
theorem transmitted_foldl {c : TcpConnection} (h : c.Sound) (events : List TcpEvent) :
    (events.foldl step c).transmitted ++ (events.foldl step c).unsent =
      c.transmitted ++ c.unsent ++ (packets events).flatten := by
  induction events generalizing c with
  | nil => simp [packets]
  | cons event events ih =>
      rw [List.foldl_cons, ih (h.step event), (passes_step h event).transmitted h,
        show event :: events = [event] ++ events from rfl, packets_append, List.flatten_append,
        List.append_assoc _ _ (packets events).flatten]

/-- **Every octet is sent once and in order.**  What all sockets have taken, and what has not been
sent yet, are the packets that have been passed to `send`, one after the other. -/
theorem transmitted_run (events : List TcpEvent) :
    (events.foldl step {}).transmitted ++ (events.foldl step {}).unsent =
      (packets events).flatten :=
  transmitted_foldl sound_initial events

/-- During the lifetime of a socket, those before it are left alone. -/
theorem acceptedBefore_foldl {c : TcpConnection} (h : c.Sound) {events : List TcpEvent}
    (hlife : Runs.Always step (fun c => c.fd ≠ none) c events) :
    (events.foldl step c).acceptedBefore = c.acceptedBefore := by
  induction events generalizing c with
  | nil => rfl
  | cons event events ih =>
      obtain ⟨hfd, hrest⟩ := Runs.always_cons.1 hlife
      rw [List.foldl_cons, ih (h.step event) hrest]
      exact (passes_step h event).acceptedBefore_kept hfd

/-- What a socket has taken, and what has not been sent yet: what had not been sent before it was
opened, and the packets that have been passed to `send` since then. -/
theorem accepted_unsent {c : TcpConnection} (h : c.Sound) (hfd : c.fd = none) {opening : TcpEvent}
    {during : List TcpEvent}
    (hlife : Runs.Always step (fun c => c.fd ≠ none) (c.step opening) during) :
    ((opening :: during).foldl step c).accepted ++ ((opening :: during).foldl step c).unsent =
      c.unsent ++ (packets (opening :: during)).flatten := by
  have hall := transmitted_foldl h (opening :: during)
  have hbefore : ((opening :: during).foldl step c).acceptedBefore = c.transmitted := by
    rw [List.foldl_cons, acceptedBefore_foldl (h.step opening) hlife]
    exact (passes_step h opening).acceptedBefore_opened hfd hlife.first
  rw [transmitted_eq, hbefore, List.append_assoc, List.append_assoc] at hall
  exact List.append_cancel_left hall

/-- What the socket that is opened by the first of some steps has taken, and what has not been sent
yet, are the packets that are queued for it: the ones that were in the queue before, and the ones that
are passed to `send` from then on. -/
def SendsInOrder (c₀ : TcpConnection) (events : List TcpEvent) : Prop :=
  let c := events.foldl step c₀
  c.accepted ++ c.unsent = (c₀.sendBuffer ++ packets events).flatten ∧ c.Fronted

end TcpConnection

/-- **During the lifetime of a socket, what it has taken and what has not been sent yet are the
packets that are queued for it exactly when no part of the first of them has been sent before it was
opened.** -/
theorem sends_in_order_iff [Platform] (before : List TcpEvent) (opening : TcpEvent)
    (during : List TcpEvent) (hfd : (before.foldl TcpConnection.step {}).fd = none)
    (hlife : Runs.Always TcpConnection.step (fun c => c.fd ≠ none)
      ((before.foldl TcpConnection.step {}).step opening) during) :
    (before.foldl TcpConnection.step {}).SendsInOrder (opening :: during) ↔
      (before.foldl TcpConnection.step {}).bytesSend = 0 := by
  have hsound := TcpConnection.sound_run before
  have hfronted := TcpConnection.sound_run (before ++ opening :: during)
  rw [List.foldl_append] at hfronted
  rw [TcpConnection.SendsInOrder, TcpConnection.accepted_unsent hsound hfd hlife,
    List.flatten_append]
  constructor
  · rintro ⟨horder, -⟩
    -- what has been sent of the first packet is missing
    have hlength := congrArg List.length (List.append_cancel_right horder)
    have hle := hsound.fronted.flatten_le
    rw [TcpConnection.unsent, List.length_drop] at hlength
    omega
  · intro hzero
    rw [TcpConnection.unsent, hzero, List.drop_zero]
    exact ⟨rfl, hfronted.fronted⟩

/-- The first socket of a connection takes one octet after the other, while another packet is passed
to `send`. -/
theorem sends_in_order_first :
    letI : Platform := ⟨.little⟩
    ({} : TcpConnection).SendsInOrder [.send [65, 66] (.opened 3 true), .canWrite true [.sent 1],
      .send [67] (.opened 4 true), .canWrite true [.sent 1, .failed]] := by
  let : Platform := ⟨.little⟩
  refine (sends_in_order_iff [] (.send [65, 66] (.opened 3 true)) [.canWrite true [.sent 1],
    .send [67] (.opened 4 true), .canWrite true [.sent 1, .failed]] rfl ?_).2 rfl
  simp only [Runs.always_cons, Runs.always_nil]
  exact ⟨by decide, by decide, by decide, by decide⟩

/-- After the first half of a packet the socket breaks.  What the next socket has taken, and what has
not been sent yet, are no packets at all. -/
theorem second_half_continues :
    letI : Platform := ⟨.little⟩
    let before : List TcpEvent := [.send [65, 66] (.opened 3 true), .canWrite true [.sent 1],
      .canWrite true [.epipe]]
    let opening : TcpEvent := .send [67] (.opened 4 true)
    let during : List TcpEvent := [.canWrite true [.sent 1, .failed]]
    let c₀ := before.foldl TcpConnection.step {}
    let c := (opening :: during).foldl TcpConnection.step c₀
    c₀.fd = none ∧ Runs.Always TcpConnection.step (fun c => c.fd ≠ none) (c₀.step opening) during ∧
      c.accepted = [66] ∧ c.unsent = [67] ∧ ¬ c₀.SendsInOrder (opening :: during) ∧
      ∀ ps : List Octets, (∀ p ∈ ps, p ∈ TcpConnection.packets (before ++ opening :: during)) →
        c.accepted ++ c.unsent ≠ ps.flatten := by
  let : Platform := ⟨.little⟩
  intro before opening during c₀ c
  refine ⟨rfl, ?_, rfl, rfl, ?_, ?_⟩
  · simp only [during, Runs.always_cons, Runs.always_nil]
    exact ⟨by decide, by decide⟩
  · rintro ⟨horder, -⟩
    exact absurd horder (by decide)
  · intro ps hps horder
    have horder : ([66, 67] : Octets) = ps.flatten := horder
    cases ps with
    | nil => cases horder
    | cons p ps =>
        rcases List.mem_pair.1 (hps p (List.mem_cons_self ..)) with rfl | rfl
        · exact absurd (List.cons.inj horder).1 (by decide)
        · exact absurd (List.cons.inj horder).1 (by decide)

end Corba
