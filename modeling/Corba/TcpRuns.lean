/-
Runs of a TCP connection.

The functions of a connection can be called in any order, and the operating system can answer
anything.  Two things are expected of every run: a packet that has been queued is going to be sent,
and every new socket starts with the first octet of a packet.  Neither holds of all runs.  This
module says of which ones.

Main definitions:

* `Corba.TcpConnection.Sound` — the state, the descriptor and the sockets fit together;
* `Corba.TcpConnection.Moving`, `Corba.TcpConnection.KeepsMoving` — no packet is stuck, and the steps
  after which none is;
* `Corba.TcpConnection.Fed` — what the sockets have been given, and are going to be given.

Main results:

* `Corba.TcpConnection.Sound.step`, `Corba.TcpConnection.Fed.step` — one step;
* `Corba.moving_always_iff` — no packet gets stuck exactly in the runs that take no other steps;
* `Corba.sockets_start_with_packets` — every socket starts with a packet when no socket is opened in
  the middle of one.
-/

import Corba.Runs
import Corba.TcpConnection

set_option relaxedAutoImplicit false
set_option autoImplicit false

namespace Corba

open Exec

/-- The operating system is still connecting. -/
def ConnectResult.InProgress : ConnectResult → Prop
  | .failed _ _ => False
  | .opened _ inProgress => inProgress = true

namespace TcpConnection

/-! ### What holds in every state -/

/-- A connection has a socket exactly when its state says so.  All others are closed. -/
structure Sound (c : TcpConnection) : Prop where
  attached : c.fd = none ↔ c.state = .idle ∨ c.state = .pending
  fronted : c.Fronted
  gone : c.fd = none → ∀ k ∈ c.sockets, k.closed = true
  current : c.fd ≠ none → ∃ k rest, c.sockets = k :: rest ∧ ∀ k ∈ rest, k.closed = true

theorem sound_initial : ({} : TcpConnection).Sound where
  attached := by simp
  fronted := Nat.le_refl _
  gone := by simp
  current := by simp

/-- Watchers, the timer and what has been received are about something else. -/
theorem Sound.watched {c : TcpConnection} (h : c.Sound)
    (readWatcher writeWatcher timerActive timerRunning : Bool)
    (stream2packet : IIOPStream2Packet) :
    ({ c with readWatcher, writeWatcher, timerActive, timerRunning, stream2packet } :
      TcpConnection).Sound := ⟨h.attached, h.fronted, h.gone, h.current⟩

/-- All sockets are closed, or all but the last one. -/
theorem Sound.tail {c : TcpConnection} (h : c.Sound) : ∀ k ∈ c.sockets.tail, k.closed = true := by
  intro k hk
  by_cases hfd : c.fd = none
  · exact h.gone hfd k (List.mem_of_mem_tail hk)
  · obtain ⟨k', rest, hsockets, hrest⟩ := h.current hfd
    rw [hsockets] at hk
    exact hrest k hk

theorem Sound.queued {c : TcpConnection} (h : c.Sound) (packet : Octets) :
    (c.queued packet).Sound where
  attached := h.attached
  fronted := by
    have hfront := h.fronted
    rw [Fronted] at hfront ⊢
    rw [TcpConnection.queued]
    cases hbuffer : c.sendBuffer with
    | nil =>
        rw [hbuffer] at hfront
        exact hfront.trans (Nat.zero_le _)
    | cons front packets =>
        rw [hbuffer] at hfront
        exact hfront
  gone := h.gone
  current := h.current

theorem Sound.up {c : TcpConnection} (h : c.Sound) (connect : ConnectResult) :
    (State (up connect c)).Sound := by
  by_cases hfd : c.fd = none
  · cases connect with
    | failed peer error =>
        rw [up_failed hfd]
        exact ⟨by simp [hfd], h.fronted, h.gone, h.current⟩
    | opened fd inProgress =>
        rw [up_opened hfd]
        refine ⟨?_, h.fronted, ?_, ?_⟩
        · cases inProgress <;> simp [opened, TcpConnection.attached]
        · intro hnone
          cases hnone
        · intro _
          exact ⟨_, _, rfl, h.gone hfd⟩
  · rw [up_of_socket hfd]
    exact h

theorem Sound.flushed {c c' : TcpConnection} {out : Octets} (h : c.Sound)
    (hflushed : c.quiet.Flushed c' out) : c'.Sound := by
  have hfd : c'.fd = c.fd := by
    rw [hflushed.eq]
    rfl
  have hstate : c'.state = c.state := by
    rw [hflushed.eq]
    rfl
  refine ⟨?_, hflushed.fronted, ?_, ?_⟩
  · rw [hfd, hstate]
    exact h.attached
  · intro hnone
    rw [hflushed.socket (hfd.symm.trans hnone)]
    exact h.gone (hfd.symm.trans hnone)
  · intro hsome
    rw [hfd] at hsome
    obtain ⟨k, rest, hsockets, hrest⟩ := h.current hsome
    refine ⟨{ k with written := k.written ++ out }, rest, ?_, hrest⟩
    rw [hflushed.eq]
    show c.sockets.modifyHead _ = _
    rw [hsockets, List.modifyHead_cons]

theorem Sound.broken {c : TcpConnection} (h : c.Sound) : c.broken.Sound where
  attached := by simp [TcpConnection.broken, closed]
  fronted := h.fronted
  gone _ k hk := by
    have htail := h.tail
    have hk : k ∈ c.sockets.modifyHead fun k => { k with closed := true } := hk
    cases hsockets : c.sockets with
    | nil =>
        rw [hsockets] at hk
        cases hk
    | cons k' rest =>
        rw [hsockets] at hk htail
        rcases List.mem_cons.1 hk with rfl | hk
        · rfl
        · exact htail k hk
  current hnone := absurd rfl hnone

theorem Sound.received {c c' : TcpConnection} (h : c.Sound) (hreceived : c.Received c') :
    c'.Sound := by
  refine ⟨?_, ?_, ?_, ?_⟩
  · rw [hreceived.fd, h.attached]
    rcases hreceived.state with hstate | ⟨hbefore, hafter⟩
    · rw [hstate]
    · rw [hbefore, hafter]
      simp
  · rw [Fronted, hreceived.bytesSend, hreceived.sendBuffer]
    exact h.fronted
  · rw [hreceived.fd, hreceived.sockets]
    exact h.gone
  · rw [hreceived.fd, hreceived.sockets]
    exact h.current

section

variable [Platform]

theorem Sound.step {c : TcpConnection} (h : c.Sound) (event : TcpEvent) : (c.step event).Sound := by
  cases event with
  | send packet connect =>
      rw [TcpConnection.step, send_run]
      have hqueued := h.queued packet
      cases hstate : c.state with
      | idle => exact hqueued.up connect
      | established => exact hqueued.watched ..
      | pending => exact hqueued
      | inprogress => exact hqueued
  | up connect => exact h.up connect
  | accept client =>
      rw [TcpConnection.step, accept_run]
      split
      · rename_i hfd
        refine ⟨by simp [TcpConnection.attached], h.fronted, ?_, ?_⟩
        · intro hnone
          cases hnone
        · intro _
          exact ⟨_, _, rfl, h.gone hfd⟩
      · exact h
  | canWrite peer results =>
      rw [TcpConnection.step]
      obtain ⟨c', out, hflushed, hrun⟩ := canWrite_spec peer results h.fronted
      have hsound := h.flushed hflushed
      rcases hrun with hrun | hrun
      · rw [hrun]
        exact hsound.watched ..
      · rw [hrun]
        exact hsound.broken
  | canRead result recv =>
      rw [TcpConnection.step]
      rcases canRead_spec result recv c with hreceived | hlost
      · exact h.received hreceived
      · have hroomy : c.roomy.Sound := h.watched ..
        rw [hlost]
        exact hroomy.broken.watched ..
  | timer =>
      rw [TcpConnection.step]
      by_cases hstate : c.state = .inprogress
      · rw [timer_inprogress hstate]
        exact h.broken.watched ..
      · rw [timer_idle hstate]
        exact h.watched ..

/-- Every state that is reached is sound. -/
theorem sound_run (events : List TcpEvent) : (events.foldl step ({} : TcpConnection)).Sound := by
  have hall : Runs.Always step Sound ({} : TcpConnection) events :=
    Runs.always_of_step (I := Sound) (fun _ event h => h.step event) sound_initial events
  exact hall.last

end

/-! ### Packets get stuck -/

/-- When something is to be sent, the event loop is going to call `canWrite`, or there is no socket
and the next call of `send` attempts to connect. -/
def Moving (c : TcpConnection) : Prop :=
  c.sendBuffer ≠ [] → c.fd ≠ none ∧ c.writeWatcher = true ∨
    c.fd = none ∧ ∀ packet connect, send packet connect c = up connect (queued packet c)

/-- The steps that get no packet stuck: an attempt to connect on behalf of a packet is in progress,
nothing is sent while the connection is pending, or while it is in progress and the event loop does
not watch it, and a client is only accepted when nothing is to be sent. -/
def KeepsMoving (c : TcpConnection) : TcpEvent → Prop
  | .send _ connect =>
      match c.state with
      | .idle => connect.InProgress
      | .pending => False
      | .inprogress => c.writeWatcher = true
      | .established => True
  | .up connect => c.fd = none → c.sendBuffer ≠ [] → connect.InProgress
  | .accept _ => c.fd = none → c.sendBuffer = []
  | .canWrite _ _ => True
  | .canRead _ _ => True
  | .timer => True

theorem moving_of_socket {c : TcpConnection} (hfd : c.fd ≠ none) :
    c.Moving ↔ (c.sendBuffer ≠ [] → c.writeWatcher = true) := by
  constructor
  · intro h hbuffer
    rcases h hbuffer with ⟨-, hwatcher⟩ | ⟨hnone, -⟩
    · exact hwatcher
    · exact absurd hnone hfd
  · intro h hbuffer
    exact .inl ⟨hfd, h hbuffer⟩

theorem moving_of_no_socket {c : TcpConnection} (hfd : c.fd = none) :
    c.Moving ↔ (c.sendBuffer ≠ [] → c.state = .idle) := by
  rw [Moving, send_calls_up_iff hfd]
  constructor
  · intro h hbuffer
    rcases h hbuffer with ⟨hsome, -⟩ | ⟨-, hidle⟩
    · exact absurd hfd hsome
    · exact hidle
  · intro h hbuffer
    exact .inr ⟨hfd, h hbuffer⟩

/-- An attempt to connect gets nothing stuck exactly when it is in progress. -/
theorem up_moving_iff {c : TcpConnection} (hfd : c.fd = none) (hbuffer : c.sendBuffer ≠ [])
    (connect : ConnectResult) : (State (up connect c)).Moving ↔ connect.InProgress := by
  cases connect with
  | failed peer error =>
      rw [up_failed hfd, State_error]
      refine (moving_of_no_socket (by exact hfd)).trans ?_
      simp [ConnectResult.InProgress, hbuffer]
  | opened fd inProgress =>
      rw [up_opened hfd, State_ok, moving_of_socket (by simp [opened, attached])]
      simp [ConnectResult.InProgress, opened, attached, hbuffer]

theorem Moving.flushed {c c' : TcpConnection} {out : Octets} (h : c.Moving)
    (hflushed : c.quiet.Flushed c' out) :
    ({ c' with writeWatcher := !c'.sendBuffer.isEmpty } : TcpConnection).Moving := by
  have hfd : c'.fd = c.fd := by
    rw [hflushed.eq]
    rfl
  by_cases hnone : c.fd = none
  · have hsame := hflushed.socket hnone
    rw [hsame]
    exact (moving_of_no_socket (by exact hnone)).2 ((moving_of_no_socket hnone).1 h)
  · have hsome : c'.fd ≠ none := hfd ▸ hnone
    refine (moving_of_socket (by exact hsome)).2 ?_
    intro hbuffer
    simpa using hbuffer

theorem Moving.received {c c' : TcpConnection} (h : c.Moving)
    (hreceived : c.Received c') : c'.Moving := by
  by_cases hnone : c.fd = none
  · rw [moving_of_no_socket (hreceived.fd.trans hnone), hreceived.sendBuffer]
    intro hbuffer
    have hidle := (moving_of_no_socket hnone).1 h hbuffer
    rcases hreceived.state with hstate | ⟨hprogress, -⟩
    · rw [hstate]
      exact hidle
    · rw [hidle] at hprogress
      cases hprogress
  · rw [moving_of_socket (hreceived.fd ▸ hnone), hreceived.sendBuffer, hreceived.writeWatcher]
    exact (moving_of_socket hnone).1 h

/-- A connection that has lost its socket connects again. -/
theorem moving_idle {c : TcpConnection} (hfd : c.fd = none) (hstate : c.state = .idle) :
    c.Moving := (moving_of_no_socket hfd).2 fun _ => hstate

/-- A packet that is sent gets nothing stuck exactly when the connection is being opened for it, or
the event loop watches the socket. -/
theorem send_moving_iff {c : TcpConnection} (hsound : c.Sound) (packet : Octets)
    (connect : ConnectResult) :
    (State (send packet connect c)).Moving ↔ c.KeepsMoving (.send packet connect) := by
  have hqueued : (c.queued packet).sendBuffer ≠ [] := by simp [queued]
  have hsocket : c.state ≠ .idle → c.state ≠ .pending → (c.queued packet).fd ≠ none := by
    intro hidle hpending hnone
    rcases hsound.attached.1 hnone with hstate | hstate
    · exact hidle hstate
    · exact hpending hstate
  rw [send_run, KeepsMoving]
  cases hstate : c.state with
  | idle =>
      have hfd := hsound.attached.2 (.inl hstate)
      exact up_moving_iff (c := c.queued packet) hfd hqueued connect
  | pending =>
      have hfd := hsound.attached.2 (.inr hstate)
      refine (moving_of_no_socket (c := c.queued packet) hfd).trans ⟨fun hidle => ?_, False.elim⟩
      have hidle : c.state = .idle := hidle hqueued
      rw [hstate] at hidle
      cases hidle
  | inprogress =>
      have hfd := hsocket (by simp [hstate]) (by simp [hstate])
      rw [State_ok, moving_of_socket hfd]
      exact ⟨fun hmoving => hmoving hqueued, fun hwatcher _ => hwatcher⟩
  | established =>
      have hfd := hsocket (by simp [hstate]) (by simp [hstate])
      refine (moving_of_socket (by exact hfd)).trans ?_
      simp

/-- A connection that is brought up gets nothing stuck exactly when it is in progress afterwards, or
when there was nothing to do. -/
theorem up_step_moving_iff {c : TcpConnection} (h : c.Moving) (connect : ConnectResult) :
    (State (up connect c)).Moving ↔ c.KeepsMoving (.up connect) := by
  rw [KeepsMoving]
  by_cases hfd : c.fd = none
  · by_cases hbuffer : c.sendBuffer = []
    · have hempty : (State (up connect c)).sendBuffer = [] := by
        cases connect with
        | failed peer error =>
            rw [up_failed hfd]
            exact hbuffer
        | opened fd inProgress =>
            rw [up_opened hfd]
            exact hbuffer
      simp [Moving, hempty, hbuffer]
    · rw [up_moving_iff hfd hbuffer]
      simp [hfd, hbuffer]
  · rw [up_of_socket hfd, State_ok]
    simp [hfd, h]

variable [Platform]

/-- **After a step no packet is stuck exactly when it is one of these.** -/
theorem step_moving_iff {c : TcpConnection} (hsound : c.Sound) (h : c.Moving) (event : TcpEvent) :
    (c.step event).Moving ↔ c.KeepsMoving event := by
  cases event with
  | send packet connect => exact send_moving_iff hsound packet connect
  | up connect => exact up_step_moving_iff h connect
  | accept client =>
      rw [step, accept_run, KeepsMoving]
      split
      · rename_i hfd
        refine (moving_of_socket (by simp [attached])).trans ?_
        simp [hfd, attached]
      · rename_i hfd
        simp [hfd, h]
  | canWrite peer results =>
      rw [step, KeepsMoving, iff_true]
      obtain ⟨c', out, hflushed, hrun⟩ := canWrite_spec peer results hsound.fronted
      rcases hrun with hrun | hrun
      · rw [hrun]
        exact h.flushed hflushed
      · rw [hrun]
        exact moving_idle rfl rfl
  | canRead result recv =>
      rw [step, KeepsMoving, iff_true]
      rcases canRead_spec result recv c with hreceived | hlost
      · exact h.received hreceived
      · rw [hlost]
        exact moving_idle rfl rfl
  | timer =>
      rw [step, KeepsMoving, iff_true]
      by_cases hstate : c.state = .inprogress
      · rw [timer_inprogress hstate]
        exact moving_idle rfl rfl
      · rw [timer_idle hstate]
        by_cases hfd : c.fd = none
        · exact (moving_of_no_socket (by exact hfd)).2 ((moving_of_no_socket hfd).1 h)
        · exact (moving_of_socket (by exact hfd)).2 ((moving_of_socket hfd).1 h)

end TcpConnection

/-- **No packet gets stuck exactly when all steps are of these kinds.** -/
theorem moving_always_iff [Platform] (events : List TcpEvent) :
    Runs.Always TcpConnection.step TcpConnection.Moving {} events ↔
      Runs.Meets TcpConnection.step TcpConnection.KeepsMoving {} events :=
  Runs.always_iff_meets (I := TcpConnection.Sound) (fun _ event h => h.step event)
    (fun _ event hsound h => TcpConnection.step_moving_iff hsound h event)
    TcpConnection.sound_initial fun hbuffer => absurd rfl hbuffer

/-- The first packet has been sent, and the answer to it has not arrived yet.  Nobody watches the
socket for the second packet. -/
theorem second_packet_stuck :
    letI : Platform := ⟨.little⟩
    ∃ events : List TcpEvent,
      let c := events.foldl TcpConnection.step {}
      c.state = .inprogress ∧ c.fd = some 3 ∧ c.writeWatcher = false ∧ c.sendBuffer = [[2]] ∧
        ¬ c.Moving := by
  let : Platform := ⟨.little⟩
  refine ⟨[.send [1] (.opened 3 true), .canWrite true [.sent 1], .send [2] (.opened 4 true)],
    rfl, rfl, rfl, rfl, fun h => ?_⟩
  rcases h (by decide) with ⟨-, hwatcher⟩ | ⟨hfd, -⟩
  · cases hwatcher
  · cases hfd

namespace TcpConnection

/-! ### The packets on a socket -/

/-- The packets that have been passed to `send`. -/
def packets : List TcpEvent → List Octets
  | [] => []
  | .send packet _ :: events => packet :: packets events
  | _ :: events => packets events

theorem packets_append (events events' : List TcpEvent) :
    packets (events ++ events') = packets events ++ packets events' := by
  induction events with
  | nil => rfl
  | cons event events ih =>
      cases event with
      | send packet connect => exact congrArg (packet :: ·) ih
      | _ => exact ih

/-- No socket is opened after a part of a packet has been sent. -/
def OpensBetween (c : TcpConnection) : TcpEvent → Prop
  | .send _ (.opened _ _) => c.state = .idle → c.bytesSend = 0
  | .up (.opened _ _) => c.fd = none → c.bytesSend = 0
  | _ => True

/-- What has been and is going to be written to the sockets a connection has opened.  `G` relates
the packets so far, what has been written to a socket, and what is still to be written to it. -/
structure Fed (G : List Octets → Octets → Octets → Prop) (packets : List Octets)
    (c : TcpConnection) : Prop where
  sound : c.Sound
  queue : c.sendBuffer <:+ packets
  current : c.fd ≠ none → ∀ k ∈ c.sockets.head?, k.incoming = false →
    G packets k.written c.unsent
  past : ∀ k ∈ c.sockets, k.incoming = false → ∃ rest, G packets k.written rest

/-- What has been and is going to be written to a socket are whole packets, one after the other. -/
def WholePackets (packets : List Octets) (written rest : Octets) : Prop :=
  ∃ ps, ps <:+ packets ∧ written ++ rest = ps.flatten

theorem fed_initial (G : List Octets → Octets → Octets → Prop) :
    ({} : TcpConnection).Fed G [] where
  sound := sound_initial
  queue := List.suffix_rfl
  current := by simp
  past := by simp

theorem mem_modifyHead {f : Socket → Socket} {sockets : List Socket} {k : Socket}
    (h : k ∈ sockets.modifyHead f) : (∃ k' ∈ sockets.head?, k = f k') ∨ k ∈ sockets := by
  cases sockets with
  | nil => cases h
  | cons k' rest =>
      rcases List.mem_cons.1 h with rfl | hrest
      · exact .inl ⟨k', rfl, rfl⟩
      · exact .inr (List.mem_cons_of_mem _ hrest)

/-- What has been sent of the first packet is a part of what is queued. -/
theorem Fronted.flatten_le {c : TcpConnection} (h : c.Fronted) :
    c.bytesSend ≤ c.sendBuffer.flatten.length := by
  rw [Fronted] at h
  cases hbuffer : c.sendBuffer with
  | nil =>
      rw [hbuffer] at h
      exact h
  | cons front packets =>
      rw [hbuffer] at h
      rw [List.flatten_cons, List.length_append]
      exact h.trans (Nat.le_add_right _ _)

theorem unsent_queued {c : TcpConnection} (h : c.Fronted) (packet : Octets) :
    (c.queued packet).unsent = c.unsent ++ packet := by
  have hle := h.flatten_le
  show (c.sendBuffer ++ [packet]).flatten.drop c.bytesSend = _
  rw [List.flatten_append, List.flatten_singleton, List.drop_append_of_le_length hle]
  rfl

/-- The step opens a socket. -/
def Opens (c : TcpConnection) : TcpEvent → Prop
  | .send _ (.opened _ _) => c.state = .idle
  | .up (.opened _ _) => c.fd = none
  | _ => False

section Fed

variable {G : List Octets → Octets → Octets → Prop} {ps : List Octets} {c c' : TcpConnection}

theorem Fed.watched (h : c.Fed G ps)
    (readWatcher writeWatcher timerActive timerRunning : Bool)
    (stream2packet : IIOPStream2Packet) :
    ({ c with readWatcher, writeWatcher, timerActive, timerRunning, stream2packet } :
      TcpConnection).Fed G ps := ⟨h.sound.watched .., h.queue, h.current, h.past⟩

theorem Fed.queued (hG : ∀ ps w u p, G ps w u → G (ps ++ [p]) w (u ++ p)) (h : c.Fed G ps)
    (packet : Octets) : (c.queued packet).Fed G (ps ++ [packet]) where
  sound := h.sound.queued packet
  queue := List.suffix_append_self_iff.2 h.queue
  current hfd k hk hout := by
    rw [unsent_queued h.sound.fronted]
    exact hG _ _ _ _ (h.current hfd k hk hout)
  past k hk hout := by
    obtain ⟨rest, hrest⟩ := h.past k hk hout
    exact ⟨rest ++ packet, hG _ _ _ _ hrest⟩

theorem Fed.up (h : c.Fed G ps) (connect : ConnectResult)
    (hopen : c.Opens (.up connect) → G ps [] c.unsent) : (State (up connect c)).Fed G ps := by
  have hsound := h.sound.up connect
  by_cases hfd : c.fd = none
  · cases connect with
    | failed peer error =>
        rw [up_failed hfd] at hsound ⊢
        exact ⟨hsound, h.queue, fun hsome => absurd hfd hsome, h.past⟩
    | opened fd inProgress =>
        have hfresh := hopen hfd
        rw [up_opened hfd] at hsound ⊢
        refine ⟨hsound, h.queue, ?_, ?_⟩
        · intro _ k hk _
          obtain rfl : k = { incoming := false } := (Option.some.inj hk).symm
          exact hfresh
        · intro k hk hout
          rcases List.mem_cons.1 hk with rfl | hk
          · exact ⟨_, hfresh⟩
          · exact h.past k hk hout
  · rw [up_of_socket hfd]
    exact h

theorem Fed.flushed {out : Octets} (h : c.Fed G ps) (hflushed : c.quiet.Flushed c' out)
    (hwrite : c.fd ≠ none → ∀ k ∈ c.sockets.head?, k.incoming = false → ∀ out rest,
      out ++ rest = c.unsent → G ps k.written c.unsent → G ps (k.written ++ out) rest) :
    c'.Fed G ps := by
  have hsound := h.sound.flushed hflushed
  have hfd : c'.fd = c.fd := by
    rw [hflushed.eq]
    rfl
  by_cases hnone : c.fd = none
  · rw [hflushed.socket hnone] at hsound ⊢
    exact ⟨hsound, h.queue, h.current, h.past⟩
  · have hsockets : c'.sockets =
        c.sockets.modifyHead fun k => { k with written := k.written ++ out } := by
      rw [hflushed.eq]
      rfl
    have hcurrent : ∀ k ∈ c.sockets.head?, k.incoming = false →
        G ps (k.written ++ out) c'.unsent := by
      intro k hk hout
      exact hwrite hnone k hk hout _ _ hflushed.order (h.current hnone k hk hout)
    refine ⟨hsound, hflushed.queue.trans h.queue, ?_, ?_⟩
    · intro _ k hk hout
      rw [hsockets, List.head?_modifyHead] at hk
      obtain ⟨k', hk', rfl⟩ := Option.map_eq_some_iff.1 hk
      exact hcurrent k' hk' hout
    · intro k hk hout
      rw [hsockets] at hk
      rcases mem_modifyHead hk with ⟨k', hk', rfl⟩ | hk
      · exact ⟨_, hcurrent k' hk' hout⟩
      · exact h.past k hk hout

theorem Fed.broken (h : c.Fed G ps) : c.broken.Fed G ps where
  sound := h.sound.broken
  queue := h.queue
  current hsome := absurd rfl hsome
  past k hk hout := by
    rcases mem_modifyHead hk with ⟨k', hk', rfl⟩ | hk
    · exact h.past k' (List.mem_of_mem_head? hk') hout
    · exact h.past k hk hout

theorem Fed.received (h : c.Fed G ps) (hreceived : c.Received c') : c'.Fed G ps where
  sound := h.sound.received hreceived
  queue := hreceived.sendBuffer ▸ h.queue
  current := by
    rw [hreceived.fd, hreceived.sockets, unsent, hreceived.sendBuffer, hreceived.bytesSend]
    exact h.current
  past := hreceived.sockets ▸ h.past

variable [Platform]

/-- **One step.**  What is to be shown of it is about opening sockets and writing to them. -/
theorem Fed.step (hG : ∀ ps w u p, G ps w u → G (ps ++ [p]) w (u ++ p)) (h : c.Fed G ps)
    (event : TcpEvent) (hopen : c.Opens event → G ps [] c.unsent)
    (hwrite : ∀ peer results, event = .canWrite peer results → c.fd ≠ none →
      ∀ k ∈ c.sockets.head?, k.incoming = false → ∀ out rest, out ++ rest = c.unsent →
        G ps k.written c.unsent → G ps (k.written ++ out) rest) :
    (c.step event).Fed G (ps ++ packets [event]) := by
  have hsame : ∀ event, packets [event] = [] → ps ++ packets [event] = ps := by
    intro event hnone
    rw [hnone, List.append_nil]
  cases event with
  | send packet connect =>
      have hqueued := h.queued hG packet
      rw [TcpConnection.step, send_run]
      cases hstate : c.state with
      | idle =>
          refine hqueued.up connect fun hopens => ?_
          rw [unsent_queued h.sound.fronted]
          refine hG _ _ _ _ (hopen ?_)
          cases connect with
          | failed peer error => cases hopens
          | opened fd inProgress => exact hstate
      | established =>
          exact hqueued.watched ..
      | pending => exact hqueued
      | inprogress => exact hqueued
  | up connect =>
      rw [hsame (.up connect) rfl]
      exact h.up connect hopen
  | accept client =>
      have hsound := h.sound.step (.accept client)
      rw [TcpConnection.step, accept_run] at hsound ⊢
      rw [hsame (.accept client) rfl]
      split
      · rename_i hfd
        rw [if_pos hfd] at hsound
        refine ⟨hsound, h.queue, ?_, ?_⟩
        · intro _ k hk hout
          obtain rfl : k = { incoming := true } := (Option.some.inj hk).symm
          cases hout
        · intro k hk hout
          rcases List.mem_cons.1 hk with rfl | hk
          · cases hout
          · exact h.past k hk hout
      · exact h
  | canWrite peer results =>
      obtain ⟨c', out, hflushed, hrun⟩ := canWrite_spec peer results h.sound.fronted
      have hfed := h.flushed hflushed (hwrite peer results rfl)
      rw [TcpConnection.step, hsame (.canWrite peer results) rfl]
      rcases hrun with hrun | hrun
      · rw [hrun]
        exact hfed.watched ..
      · rw [hrun]
        exact hfed.broken
  | canRead result recv =>
      rw [TcpConnection.step, hsame (.canRead result recv) rfl]
      rcases canRead_spec result recv c with hreceived | hlost
      · exact h.received hreceived
      · have hroomy : c.roomy.Fed G ps := h.watched ..
        rw [hlost]
        exact hroomy.broken.watched ..
  | timer =>
      rw [TcpConnection.step, hsame .timer rfl]
      by_cases hstate : c.state = .inprogress
      · rw [timer_inprogress hstate]
        exact h.broken.watched ..
      · rw [timer_idle hstate]
        exact h.watched ..

/-- The steps that open no socket in the middle of a packet keep packets whole. -/
theorem Fed.step_whole (h : c.Fed WholePackets ps) (event : TcpEvent)
    (hopen : c.OpensBetween event) : (c.step event).Fed WholePackets (ps ++ packets [event]) := by
  refine h.step ?_ event ?_ ?_
  · rintro ps w u p ⟨qs, hqs, hwhole⟩
    refine ⟨qs ++ [p], List.suffix_append_self_iff.2 hqs, ?_⟩
    rw [← List.append_assoc, hwhole, List.flatten_append, List.flatten_singleton]
  · intro hopens
    have hzero : c.bytesSend = 0 := by
      cases event with
      | send packet connect =>
          cases connect with
          | failed peer error => cases hopens
          | opened fd inProgress => exact hopen hopens
      | up connect =>
          cases connect with
          | failed peer error => cases hopens
          | opened fd inProgress => exact hopen hopens
      | _ => cases hopens
    refine ⟨c.sendBuffer, h.queue, ?_⟩
    rw [unsent, hzero]
    rfl
  · rintro peer results - - k - - out rest hrest ⟨qs, hqs, hwhole⟩
    refine ⟨qs, hqs, ?_⟩
    rw [List.append_assoc, hrest, hwhole]

end Fed

end TcpConnection

/-- **Every socket that is opened starts with a packet as long as no socket is opened in the middle
of one.**  What has been written to it is the beginning of some of the packets, one after the
other. -/
theorem sockets_start_with_packets [Platform] (events : List TcpEvent)
    (h : Runs.Meets TcpConnection.step TcpConnection.OpensBetween {} events) :
    ∀ k ∈ (events.foldl TcpConnection.step {}).sockets, k.incoming = false →
      ∃ ps, ps <:+: TcpConnection.packets events ∧ k.written <+: ps.flatten := by
  have hfed := Runs.Meets.history
    (J := fun events c => TcpConnection.Fed TcpConnection.WholePackets
      (TcpConnection.packets events) c)
    (TcpConnection.fed_initial _) (fun events c event hfed hopen => by
      rw [TcpConnection.packets_append]
      exact hfed.step_whole event hopen) h
  intro k hk hout
  obtain ⟨rest, ps, hps, hwhole⟩ := hfed.past k hk hout
  exact ⟨ps, hps.isInfix, rest, hwhole⟩

/-- The connection breaks between two packets. -/
theorem sockets_start_with_packets_reconnected :
    letI : Platform := ⟨.little⟩
    let events : List TcpEvent := [.send [1, 2] (.opened 3 true), .canWrite true [.sent 1],
      .canWrite true [.sent 1], .canRead .failed fun _ => none, .send [3] (.opened 4 true),
      .canWrite true [.sent 1]]
    ∀ k ∈ (events.foldl TcpConnection.step {}).sockets, k.incoming = false →
      ∃ ps, ps <:+: TcpConnection.packets events ∧ k.written <+: ps.flatten := by
  let : Platform := ⟨.little⟩
  intro events
  refine sockets_start_with_packets events ?_
  simp only [events, Runs.meets_cons, Runs.meets_nil, and_true]
  exact ⟨fun _ => rfl, trivial, trivial, trivial, fun _ => rfl, trivial⟩

/-- The connection breaks in the middle of a packet, and the next socket is given the second half of
it first. -/
theorem second_half_first :
    letI : Platform := ⟨.little⟩
    ∃ events : List TcpEvent, ∃ k ∈ (events.foldl TcpConnection.step {}).sockets,
      TcpConnection.packets events = [[65, 66], [67]] ∧ k.incoming = false ∧ k.written = [66] ∧
        ¬ ∃ ps : List Octets, (∀ p ∈ ps, p ∈ TcpConnection.packets events) ∧ k.written <+: ps.flatten := by
  let : Platform := ⟨.little⟩
  refine ⟨[.send [65, 66] (.opened 3 true), .canWrite true [.sent 1], .canRead .failed fun _ => none,
    .send [67] (.opened 4 true), .canWrite true [.sent 1]], ⟨false, [66], false⟩, ?_, rfl, rfl, rfl,
    ?_⟩
  · exact List.mem_cons_self ..
  · rintro ⟨ps, hps, hwritten⟩
    cases ps with
    | nil => exact absurd hwritten (by decide)
    | cons p ps =>
        rcases List.mem_pair.1 (hps p (List.mem_cons_self ..)) with rfl | rfl
        · exact absurd (List.cons_prefix_cons.1 hwritten).1 (by decide)
        · exact absurd (List.cons_prefix_cons.1 hwritten).1 (by decide)

end Corba
