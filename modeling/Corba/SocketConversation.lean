/-
Conversations over sockets.

Two ORBs that call each other are connected by a socket.  A call passes its request to
`TcpConnection::send`, and so does the handling of a request with its answer; the event loop writes
what is queued when the socket takes it, and reads what has arrived.  `canRead` hands one message
after the other to `ORB::socketRcvd`, which answers it or resumes a caller, and the caller can make
further calls at once.

However the operating system cuts the two streams, what happens is a conversation.

Main definitions:

* `Corba.Wired`, `Corba.socket` — a TCP connection as a transport;
* `Corba.SocketEnd.canRead` — what has arrived is read and handled, one message after the other;
* `Corba.SocketPair.step` — what happens at the two ends of a socket;
* `Corba.SocketEnd.Carries` — an end of a conversation, and what there is of it at the socket.

Main results:

* `Corba.socket_simulates` — the socket does what the connections of a conversation do;
* `Corba.SocketEnd.Carries.messages` — the loop over the messages;
* `Corba.socket_conversation` — **what happens over a socket is a conversation.**
-/

import Corba.ConnectionLoss
import Corba.Drained
import Corba.LineSimulation
import Corba.SingleSocket

set_option relaxedAutoImplicit false
set_option autoImplicit false

namespace Corba

open Exec Posts

/-! ### A connection and its socket -/

/-- An attempt to connect that gets a socket. -/
structure Opening where
  fd : ℕ
  inProgress : Bool

def Opening.result (o : Opening) : ConnectResult := .opened o.fd o.inProgress

/-- A TCP connection, the packets that have been passed to `send`, and the answers that are ready. -/
structure Wired where
  tcp : TcpConnection := {}
  sent : List Octets := []
  ready : List Octets := []

/-- A packet is passed to `send`. -/
def Wired.pass (opening : Opening) (packet : Octets) (w : Wired) : Wired :=
  { w with
    tcp := State (TcpConnection.send packet opening.result w.tcp)
    sent := w.sent ++ [packet] }

/-- A servant that has been suspended answers. -/
def Wired.release (i : ℕ) (opening : Opening) (w : Wired) : Wired :=
  match w.ready[i]? with
  | none => w
  | some packet => { w with ready := w.ready.eraseIdx i }.pass opening packet

/-- What a servant that has been suspended sends is sent later. -/
def socket : Transport Wired (Bool × Opening) where
  send input packet w :=
    if input.1 then ({ w with ready := w.ready ++ [packet] }, none)
    else (w.pass input.2 packet, thrown (TcpConnection.send packet input.2.result w.tcp))

/-- The far end has answered: the connection is established. -/
def TcpConnection.answered (c : TcpConnection) : TcpConnection :=
  if c.state = .inprogress then State (stopTimer { c with state := .established }) else c

theorem TcpConnection.Sound.answered {c : TcpConnection} (h : c.Sound) :
    ∃ state timerActive timerRunning,
      c.answered = { c with state, timerActive, timerRunning } ∧
      (c.fd = none ↔ state = .idle ∨ state = .pending) := by
  rw [TcpConnection.answered]
  split
  · rename_i hstate
    obtain ⟨timerActive, timerRunning, hstop⟩ := stopTimer_run { c with state := .established }
    rw [hstop]
    refine ⟨.established, timerActive, timerRunning, rfl, ?_⟩
    rw [h.attached, hstate]
    simp
  · exact ⟨c.state, c.timerActive, c.timerRunning, rfl, h.attached⟩

/-- One end of a socket, and whether an exception has left the handler of the event loop. -/
structure SocketEnd where
  line : Line Wired
  thrown : Bool := false

/-- What happens when a message is handled: whether the servant is suspended, and what the caller does
that is resumed. -/
structure Handling where
  later : Bool
  opening : Opening
  reaction : List (Call Opening)

/-- An exception leaves `ORB::socketRcvd`. -/
def Host.throws (h : Host) (connection : Connection) (message : Octets) : Bool :=
  match @ORB.socketRcvd h.platform h.servants connection message with
  | .ok _ _ => false
  | .error _ _ => true

namespace SocketEnd

abbrev wired (e : SocketEnd) : Wired := e.line.side.transport

abbrev tcp (e : SocketEnd) : TcpConnection := e.wired.tcp

/-- The TCP connection changes, and nothing is sent. -/
def onTcp (c : TcpConnection) (e : SocketEnd) : SocketEnd :=
  { e with line.side.transport.tcp := c }

def call (h : Host) (call : Call Opening) (e : SocketEnd) : SocketEnd :=
  { e with line := @Line.issueAll _ _ h.platform socket [call.map (false, ·)] e.line }

def release (i : ℕ) (opening : Opening) (e : SocketEnd) : SocketEnd :=
  { e with line.side.transport := e.wired.release i opening }

/-- `ORB::socketRcvd` -/
def handle (h : Host) (message : Octets) (x : Handling) (e : SocketEnd) : SocketEnd :=
  { e with
    line := @Line.step _ _ h.platform socket h.servants e.line
      (.message message (x.later, x.opening) (x.reaction.map (Call.map (false, ·)))) }

/-- The loop over the messages, for at most `n` rounds. -/
def messages (h : Host) (handlings : ℕ → Handling) : ℕ → SocketEnd → SocketEnd
  | 0, e => e
  | n + 1, e =>
      match @TcpConnection.nextMessage h.platform e.tcp with
      | .error _ c => { e.onTcp c with thrown := true }
      | .ok m c =>
          if m.isEmpty then e.onTcp c
          else
            let e' := (e.onTcp (c.delivered m)).handle h m (handlings 0)
            if h.throws e.line.side.connection m then { e' with thrown := true }
            else e'.messages h (fun k => handlings (k + 1)) n

/-- `TcpConnection::canRead` -/
def canRead (h : Host) (result : RecvResult) (handlings : ℕ → Handling) (e : SocketEnd) :
    SocketEnd :=
  match if e.tcp.fd.isSome then result else .failed with
  | .received octets =>
      let c := e.tcp.roomy.answered
      let octets := octets.take c.stream2packet.length
      if octets = [] then e.onTcp c
      else
        let c := c.arrived octets
        (e.onTcp c).messages h handlings (c.stream2packet.size + 1)
  | result => e.onTcp (@TcpConnection.step h.platform e.tcp (.canRead result fun _ => none))

end SocketEnd

/-- What happens at one end.  What is called without anything being sent are the functions of the TCP
connection. -/
inductive SocketEvent where
  | call (call : Call Opening)
  | release (i : ℕ) (opening : Opening)
  | up (opening : Opening)
  | accept (client : ℕ)
  | canWrite (peer : Bool) (results : List SendResult)
  | canRead (result : RecvResult) (handlings : ℕ → Handling)
  | timer

def SocketEnd.step (h : Host) (e : SocketEnd) : SocketEvent → SocketEnd
  | .call call => e.call h call
  | .release i opening => e.release i opening
  | .up opening => e.onTcp (@TcpConnection.step h.platform e.tcp (.up opening.result))
  | .accept client => e.onTcp (@TcpConnection.step h.platform e.tcp (.accept client))
  | .canWrite peer results =>
      e.onTcp (@TcpConnection.step h.platform e.tcp (.canWrite peer results))
  | .canRead result handlings => e.canRead h result handlings
  | .timer => e.onTcp (@TcpConnection.step h.platform e.tcp .timer)

/-- The two ends of a socket. -/
abbrev SocketPair := Bool → SocketEnd

structure SocketStep where
  near : Bool
  event : SocketEvent

namespace SocketPair

def step (hosts : Bool → Host) (l : SocketPair) (e : SocketStep) : SocketPair :=
  Function.update l e.near ((l e.near).step (hosts e.near) e.event)

/-- Neither end has a socket yet. -/
def start (connections : Bool → Connection) : SocketPair := fun s =>
  { line := { side := { connection := connections s, transport := {} } } }

/-- The operating system hands out what has been written at the other end, in its order. -/
def Delivers (l : SocketPair) (e : SocketStep) : Prop :=
  match e.event with
  | .canRead (.received octets) _ =>
      (l e.near).tcp.inflow.received ++ octets <+: (l !e.near).tcp.accepted
  | _ => True

/-- A socket that there is stays. -/
def Lasts (hosts : Bool → Host) (l : SocketPair) (e : SocketStep) : Prop :=
  (l e.near).tcp.fd ≠ none → (l.step hosts e e.near).tcp.fd ≠ none

/-- There are no more calls than there are ids, and the messages are not longer than their headers
can tell. -/
def Fits (l : SocketPair) : Prop := ∀ s, (l s).line.side.calls ≤ 2 ^ 31 ∧
  ∀ m ∈ (l s).wired.sent, m.length < 2 ^ 32

end SocketPair

/-! ### What is sent -/

theorem thrown_send (opening : Opening) (packet : Octets) (c : TcpConnection) :
    thrown (TcpConnection.send packet opening.result c) = none := by
  rw [TcpConnection.send_run, Opening.result]
  cases c.state with
  | idle =>
      dsimp only
      by_cases hfd : (c.queued packet).fd = none
      · rw [TcpConnection.up_opened hfd]
        rfl
      · rw [TcpConnection.up_of_socket hfd]
        rfl
  | pending => rfl
  | inprogress => rfl
  | established => rfl

/-- What has been sent and what is ready is what a conversation says. -/
structure Wired.Logs (w : Wired) (o : Outbox Octets) : Prop where
  sent : w.sent = o.posted.map Post.message
  ready : w.ready = o.pending.map Prod.snd

/-- What there is of an end of a conversation at a socket: what it has sent is being written, and the
messages it has taken are the first ones of the `stream` that is read. -/
structure Wired.Carries (w : Wired) (o : Outbox Octets) (taken : ℕ) (stream : List Octets)
    (calm : Prop) : Prop extends w.Logs o where
  taken : w.tcp.inflow.messages.length = taken
  alone : w.tcp.Alone w.sent stream calm

namespace Wired

variable {w : Wired} {o o' : Outbox Octets} {taken : ℕ} {stream : List Octets} {calm : Prop}

/-- A packet is passed to `send`. -/
theorem Carries.pass [Platform] (h : w.Carries o taken stream calm)
    (hstream : ∀ m ∈ stream, WellFormed m) (opening : Opening) {packet : Octets}
    (hposted : o'.posted.map Post.message = o.posted.map Post.message ++ [packet])
    (hpending : o'.pending.map Prod.snd = o.pending.map Prod.snd) :
    (w.pass opening packet).Carries o' taken stream calm where
  sent := by
    rw [hposted, ← h.sent]
    rfl
  ready := h.ready.trans hpending.symm
  taken := by
    have hevent : ∀ result recv, TcpEvent.send packet opening.result ≠ .canRead result recv :=
      fun _ _ => nofun
    exact (congrArg List.length (h.alone.messages_step hevent)).trans h.taken
  alone := by
    have hevent : ∀ result recv, TcpEvent.send packet opening.result ≠ .canRead result recv :=
      fun _ _ => nofun
    exact h.alone.step hstream hevent fun hfd =>
      TcpConnection.send_lasts hfd packet opening.result

end Wired

/-- Whether the servant is suspended. -/
def Occasion.later : Occasion → Bool
  | .call => false
  | .handling _ later => later

/-- **The socket does what the connections of a conversation do**, as far as calls and messages can
tell. -/
theorem socket_simulates [Platform] {taken : ℕ} {stream : List Octets} {calm : Prop}
    (hstream : ∀ m ∈ stream, WellFormed m) (held : IIOPStream2Packet) :
    socket.Simulates wire (fun x : Occasion × Opening => (x.1.later, x.2)) Prod.fst
      fun w o => w.Carries o taken stream calm ∧ w.tcp.stream2packet = held where
  keeps x packet w o h := by
    obtain ⟨hcarries, hheld⟩ := h
    have hsame : (w.pass x.2 packet).tcp.stream2packet = held :=
      (TcpConnection.step_inflow hcarries.alone.sound (.send packet x.2.result)
        fun _ _ => nofun).1.trans hheld
    obtain ⟨occasion, opening⟩ := x
    cases occasion with
    | call => exact ⟨hcarries.pass hstream opening (by simp [wire]) rfl, hsame⟩
    | handling k later =>
        cases later with
        | false => exact ⟨hcarries.pass hstream opening (by simp [wire]) rfl, hsame⟩
        | true =>
            refine ⟨⟨⟨hcarries.sent, ?_⟩, hcarries.taken, hcarries.alone⟩, hheld⟩
            simp [socket, wire, Occasion.later, Outbox.prepare, hcarries.ready]
  throws x packet w o h := by
    obtain ⟨occasion, opening⟩ := x
    cases occasion with
    | call => exact thrown_send opening packet w.tcp
    | handling k later =>
        cases later with
        | false => exact thrown_send opening packet w.tcp
        | true => rfl

/-! ### One end -/

/-- There is this end of a conversation at the socket. -/
def SocketEnd.Carries (e : SocketEnd) (d : End) (stream : List Octets) (calm : Prop) : Prop :=
  e.line.Similar (fun w o => w.Carries o d.taken stream calm) d.line

namespace SocketEnd

variable {e : SocketEnd} {d : End} {stream : List Octets} {calm : Prop}

theorem Carries.wired (h : e.Carries d stream calm) :
    e.wired.Carries d.outbox d.taken stream calm := h.side.transport

theorem Carries.caught {p : Prop} (h : e.Carries d stream False) (hp : p → e.tcp.Caught stream) :
    e.Carries d stream p :=
  h.mono fun hw => ⟨hw.toLogs, hw.taken, hw.alone.caught hp⟩

/-- Nothing is sent. -/
theorem Carries.onTcp {p : Prop} {taken : ℕ} {c : TcpConnection} (h : e.Carries d stream calm)
    (halone : c.Alone e.wired.sent stream p) (htaken : c.inflow.messages.length = taken) :
    (e.onTcp c).line.Similar (fun w o => w.Carries o taken stream p) d.line :=
  ⟨⟨h.side.connection, ⟨⟨h.wired.sent, h.wired.ready⟩, htaken, halone⟩, h.side.requestId,
    h.side.calls, h.side.requests⟩, h.waiting, h.completed⟩

/-- One of the functions of the TCP connection. -/
theorem Carries.event [Platform] (h : e.Carries d stream calm)
    (hstream : ∀ m ∈ stream, WellFormed m) {event : TcpEvent}
    (hevent : ∀ result recv, event ≠ .canRead result recv)
    (hquiet : TcpConnection.packets [event] = [])
    (hlasts : e.tcp.fd ≠ none → (e.tcp.step event).fd ≠ none) :
    (e.onTcp (e.tcp.step event)).Carries d stream calm := by
  have halone := h.wired.alone.step hstream hevent hlasts
  rw [hquiet, List.append_nil] at halone
  refine h.onTcp halone ?_
  rw [h.wired.alone.messages_step hevent]
  exact h.wired.taken

/-- **A call.** -/
theorem Carries.call {host : Host} (h : e.Carries d stream calm)
    (hstream : ∀ m ∈ stream, WellFormed m) (call : Call Opening) :
    (e.call host call).Carries (d.call host (call.map fun _ => ())) stream calm := by
  let : Platform := host.platform
  have hsimilar : e.line.Similar (fun w o => w.Carries o d.taken stream calm ∧
      w.tcp.stream2packet = e.tcp.stream2packet) d.line :=
    h.mono fun hw => ⟨hw, rfl⟩
  have hcalled := hsimilar.issueAll (socket_simulates hstream _) [call.map (Occasion.call, ·)]
  exact hcalled.mono And.left

/-- **A message is handled.**  It has been counted before. -/
theorem Carries.handle (host : Host)
    (h : e.line.Similar (fun w o => w.Carries o (d.taken + 1) stream calm) d.line)
    (hstream : ∀ m ∈ stream, WellFormed m) (message : Octets) (x : Handling) :
    (e.handle host message x).Carries
        (d.receive host message x.later (x.reaction.map (Call.map fun _ => ()))) stream calm ∧
      (e.handle host message x).tcp.stream2packet = e.tcp.stream2packet := by
  let : Platform := host.platform
  have hsimilar : e.line.Similar (fun w o => w.Carries o (d.taken + 1) stream calm ∧
      w.tcp.stream2packet = e.tcp.stream2packet) d.line :=
    h.mono fun hw => ⟨hw, rfl⟩
  have hhandled := hsimilar.message (socket_simulates hstream _) host.servants message
    (.handling d.taken x.later, x.opening) (x.reaction.map (Call.map (Occasion.call, ·)))
  have hnear : x.reaction.map (Call.map (false, ·)) = (x.reaction.map
      (Call.map (Occasion.call, ·))).map (Call.map fun x => (x.1.later, x.2)) := by
    rw [List.map_map]
    rfl
  have hfar : (x.reaction.map (Call.map fun _ => ())).map Call.posted =
      (x.reaction.map (Call.map (Occasion.call, ·))).map (Call.map Prod.fst) := by
    rw [List.map_map, List.map_map]
    rfl
  rw [SocketEnd.handle, End.receive, hnear, hfar]
  exact ⟨hhandled.mono And.left, hhandled.side.transport.2⟩

/-- What is read next. -/
theorem Carries.reads (h : e.Carries d stream calm) (htaken : d.taken ≠ 0) :
    ∃ later, e.tcp.Reads stream later := by
  rcases h.wired.alone.reads with hfresh | ⟨-, hreads⟩
  · refine absurd ?_ htaken
    rw [← h.wired.taken, hfresh.messages]
    rfl
  · exact hreads.reads

section Loop

variable {s : Bool} {c : Conversation} {later : List Octets}

/-- One round of the loop: the next message of the other end is handled. -/
theorem Carries.round (hosts : Bool → Host) (h : e.Carries (c s) stream False)
    (hposted : stream = (c !s).outbox.posted.map Post.message) (hstream : ∀ m ∈ stream, WellFormed m)
    (hreads : e.tcp.Reads stream later) {held : IIOPStream2Packet} {m : Octets} {ms : List Octets}
    (hs : (({ e.tcp with stream2packet := held } : TcpConnection).delivered m).Reads stream ms)
    (x : Handling) :
    ∃ a, let c' := Conversation.step hosts c a
      let e' := (e.onTcp (({ e.tcp with stream2packet := held } : TcpConnection).delivered m)).handle
        (hosts s) m x
      c' (!s) = c (!s) ∧ e'.Carries (c' s) stream False ∧ (c' s).taken ≠ 0 ∧
        e'.tcp.stream2packet = held := by
  have hsound := h.wired.alone.sound
  have hfd := h.wired.alone.fd_ne hreads.some
  have hinflow : (({ e.tcp with stream2packet := held } : TcpConnection).delivered m).inflow =
      { e.tcp.inflow with messages := e.tcp.inflow.messages ++ [m] } :=
    TcpConnection.inflow_modifyHead (fun k => { k with messages := k.messages ++ [m] }) hreads.some
      rfl
  obtain ⟨p, hp, rfl⟩ : ∃ p, (c !s).outbox.posted[(c s).taken]? = some p ∧ p.message = m := by
    have hmessages := hs.messages
    rw [hinflow, hposted] at hmessages
    have hat := congrArg (·[e.tcp.inflow.messages.length]?) hmessages
    simpa [h.wired.taken] using hat.symm
  have hnext : (e.onTcp (({ e.tcp with stream2packet := held } : TcpConnection).delivered
      p.message)).line.Similar (fun w o => w.Carries o ((c s).taken + 1) stream False)
        (c s).line := by
    refine h.onTcp ?_ ?_
    · exact h.wired.alone.reading ⟨hsound.attached, hsound.fronted, hsound.gone, hsound.current⟩ hfd
        rfl rfl ⟨⟨ms, hs⟩, False.elim⟩
    · rw [hinflow, List.length_append, h.wired.taken]
      rfl
  obtain ⟨hhandled, hheld⟩ := Carries.handle (hosts s) hnext hstream p.message x
  refine ⟨.receive s x.later (x.reaction.map (Call.map fun _ => ())), ?_⟩
  simp only [Conversation.step, hp, Conversation.set_self, Conversation.set_not, true_and]
  exact ⟨hhandled, Nat.succ_ne_zero _, hheld⟩

/-- **The loop over the messages.**  What it hands out are the next messages of the other end. -/
theorem Carries.messages (hosts : Bool → Host) (h : e.Carries (c s) stream False)
    (hposted : stream = (c !s).outbox.posted.map Post.message)
    (hstream : ∀ m ∈ stream, WellFormed m ∧ 16 ≤ m.length) (hreads : e.tcp.Reads stream later)
    (handlings : ℕ → Handling) (n : ℕ) :
    ∃ run : List ConversationStep, let c' := run.foldl (Conversation.step hosts) c
      let e' := e.messages (hosts s) handlings n
      c' (!s) = c (!s) ∧ e'.Carries (c' s) stream False ∧
        (e'.thrown = false → e.tcp.stream2packet.pending.length < n → e'.tcp.Caught stream) := by
  let : Platform := (hosts s).platform
  have hwf : ∀ m ∈ stream, WellFormed m := fun m hm => (hstream m hm).1
  induction n generalizing e c later handlings with
  | zero => exact ⟨[], rfl, h, fun _ hlt => absurd hlt (Nat.not_lt_zero _)⟩
  | succ n ih =>
      rcases hreads.next fun m hm => (hstream m hm).2 with
        ⟨held, hrun, hs, hnone⟩ | ⟨m, ms, held, hrun, hm, hs, hlt⟩
      · have hsound := h.wired.alone.sound
        have hstop : e.messages (hosts s) handlings (n + 1) =
            e.onTcp { e.tcp with stream2packet := held } := by
          rw [SocketEnd.messages, hrun]
          rfl
        rw [hstop]
        refine ⟨[], rfl, h.onTcp ?_ h.wired.taken, fun _ _ => ⟨later, hs, hnone⟩⟩
        exact h.wired.alone.reading ⟨hsound.attached, hsound.fronted, hsound.gone, hsound.current⟩
          (h.wired.alone.fd_ne hreads.some) rfl rfl ⟨⟨later, hs⟩, False.elim⟩
      · obtain ⟨a, hfar, hnear, htaken, hheld⟩ :=
          h.round hosts hposted hwf hreads hs (handlings 0)
        have hmore : m.isEmpty = false := by simpa using hm
        rw [SocketEnd.messages, hrun]
        dsimp only
        rw [hmore, if_neg Bool.false_ne_true]
        split
        · exact ⟨[a], hfar, hnear, nofun⟩
        · obtain ⟨later', hreads'⟩ := hnear.reads htaken
          obtain ⟨run, hfar', hnear', hcaught⟩ :=
            ih hnear (hfar ▸ hposted) hreads' fun k => handlings (k + 1)
          refine ⟨a :: run, hfar'.trans hfar, hnear', fun hcalm hn => hcaught hcalm ?_⟩
          rw [hheld]
          omega

/-- What has arrived is read. -/
theorem Carries.received (hosts : Bool → Host) (h : e.Carries (c s) stream (e.thrown = false))
    (hposted : stream = (c !s).outbox.posted.map Post.message)
    (hstream : ∀ m ∈ stream, WellFormed m ∧ 16 ≤ m.length) (hfd : e.tcp.fd ≠ none) {octets : Octets}
    (hoctets : e.tcp.inflow.received ++ octets <+: stream.flatten) (handlings : ℕ → Handling) :
    ∃ run : List ConversationStep, let c' := run.foldl (Conversation.step hosts) c
      let e' := e.canRead (hosts s) (.received octets) handlings
      c' (!s) = c (!s) ∧ e'.Carries (c' s) stream (e'.thrown = false) := by
  have halone := h.wired.alone
  obtain ⟨-, hreads⟩ := halone.reads.resolve_left fun hfresh => hfd hfresh.fd
  obtain ⟨later, hlater⟩ := hreads.reads
  have hsome : e.tcp.fd.isSome = true := Option.isSome_iff_ne_none.2 hfd
  have hsound := halone.sound
  obtain ⟨state, timerActive, timerRunning, hanswered, hattached⟩ :=
    (hsound.watched e.tcp.readWatcher e.tcp.writeWatcher e.tcp.timerActive e.tcp.timerRunning
      e.tcp.stream2packet.buffer).answered
  have hroomy : e.tcp.roomy.answered = { e.tcp.roomy with state, timerActive, timerRunning } :=
    hanswered
  rw [SocketEnd.canRead, if_pos hsome]
  dsimp only
  rw [hroomy]
  split
  · refine ⟨[], rfl, h.onTcp ?_ h.wired.taken⟩
    have hquiet : TcpConnection.ReadsOn stream (e.thrown = false) e.tcp.roomy :=
      ⟨⟨later, hlater.roomy⟩, fun hc => (hreads.caught hc).roomy⟩
    exact halone.reading ⟨hattached, hsound.fronted, hsound.gone, hsound.current⟩ hfd rfl rfl
      (hquiet.same rfl rfl)
  · have hchunk : e.tcp.inflow.received ++ octets.take e.tcp.roomy.stream2packet.length <+:
        stream.flatten := by
      refine List.IsPrefix.trans ?_ hoctets
      rw [List.prefix_append_right_inj]
      exact List.take_prefix _ _
    dsimp only
    generalize octets.take e.tcp.roomy.stream2packet.length = chunk at hchunk ⊢
    have hinflow : (e.tcp.roomy.arrived chunk).inflow =
        { e.tcp.inflow with received := e.tcp.inflow.received ++ chunk } :=
      TcpConnection.inflow_modifyHead (fun k => { k with received := k.received ++ chunk })
        hlater.some rfl
    have hsame : (TcpConnection.arrived chunk
        { e.tcp.roomy with state, timerActive, timerRunning }).Reads stream later :=
      (hlater.arrived hchunk).same rfl rfl
    have hbegun : (e.onTcp (TcpConnection.arrived chunk
        { e.tcp.roomy with state, timerActive, timerRunning })).Carries (c s) stream False := by
      refine h.onTcp ?_ ?_
      · exact halone.reading ⟨hattached, hsound.fronted, hsound.gone, hsound.current⟩ hfd rfl rfl
          ⟨⟨later, hsame⟩, False.elim⟩
      · exact (congrArg (fun k => k.messages.length) hinflow).trans h.wired.taken
    obtain ⟨run, hfar, hnear, hcaught⟩ := hbegun.messages hosts hposted hstream hsame handlings _
    refine ⟨run, hfar, hnear.caught fun hcalm => hcaught hcalm (Nat.lt_succ_of_le ?_)⟩
    rw [IIOPStream2Packet.length_pending]
    exact Nat.sub_le _ _

/-- Nothing is read. -/
theorem Carries.unread (h : e.Carries (c s) stream (e.thrown = false)) {host : Host}
    {result : RecvResult} (hresult : e.tcp.fd = none ∨ ∀ octets, result ≠ .received octets)
    {handlings : ℕ → Handling}
    (hlasts : e.tcp.fd ≠ none → (e.canRead host result handlings).tcp.fd ≠ none) :
    (e.canRead host result handlings).Carries (c s) stream
      ((e.canRead host result handlings).thrown = false) := by
  let : Platform := host.platform
  obtain ⟨result', hread, hresult'⟩ : ∃ result', e.canRead host result handlings =
      e.onTcp (e.tcp.step (.canRead result' fun _ => none)) ∧
        (e.tcp.fd = none ∨ ∀ octets, result' ≠ .received octets) := by
    rw [SocketEnd.canRead]
    cases hfd : e.tcp.fd with
    | none => exact ⟨.failed, rfl, .inl rfl⟩
    | some fd =>
        cases result with
        | received octets => exact absurd rfl (hresult.resolve_left (hfd ▸ nofun) octets)
        | again => exact ⟨.again, rfl, .inr fun _ => nofun⟩
        | failed => exact ⟨.failed, rfl, .inr fun _ => nofun⟩
  rw [hread] at hlasts ⊢
  obtain ⟨halone, hinflow⟩ := h.wired.alone.unread hresult' hlasts
  refine h.onTcp halone ?_
  rw [hinflow]
  exact h.wired.taken

end Loop

/-- A servant that has been suspended answers. -/
theorem Carries.release [Platform] (h : e.Carries d stream calm)
    (hstream : ∀ m ∈ stream, WellFormed m) (i : ℕ) (opening : Opening) :
    (e.release i opening).Carries (d.release i) stream calm := by
  refine ⟨⟨h.side.connection, ?_, h.side.requestId, h.side.calls, h.side.requests⟩, h.waiting,
    h.completed⟩
  obtain ⟨⟨hsent, hready⟩, htaken, halone⟩ := h.wired
  show (e.wired.release i opening).Carries (d.outbox.release i) d.taken stream calm
  rw [Wired.release, Outbox.release, hready, List.getElem?_map]
  cases d.outbox.pending[i]? with
  | none => exact ⟨⟨hsent, hready⟩, htaken, halone⟩
  | some a =>
      have hless : ({ e.wired with ready := (d.outbox.pending.map Prod.snd).eraseIdx i } :
          Wired).Carries { d.outbox with pending := d.outbox.pending.eraseIdx i } d.taken stream
            calm := by
        refine ⟨⟨hsent, ?_⟩, htaken, halone⟩
        exact List.eraseIdx_map ..
      exact hless.pass hstream opening (by simp) rfl

/-- **One step at one end.** -/
theorem Carries.step (hosts : Bool → Host) {s : Bool} {c : Conversation}
    (h : e.Carries (c s) stream (e.thrown = false))
    (hposted : stream = (c !s).outbox.posted.map Post.message)
    (hstream : ∀ m ∈ stream, WellFormed m ∧ 16 ≤ m.length) (event : SocketEvent)
    (hdelivers : ∀ octets handlings, event = .canRead (.received octets) handlings →
      e.tcp.inflow.received ++ octets <+: stream.flatten)
    (hlasts : e.tcp.fd ≠ none → (e.step (hosts s) event).tcp.fd ≠ none) :
    ∃ run : List ConversationStep, let c' := run.foldl (Conversation.step hosts) c
      let e' := e.step (hosts s) event
      c' (!s) = c (!s) ∧ e'.Carries (c' s) stream (e'.thrown = false) := by
  let : Platform := (hosts s).platform
  have hwf : ∀ m ∈ stream, WellFormed m := fun m hm => (hstream m hm).1
  cases event with
  | call call =>
      refine ⟨[.call s (call.map fun _ => ())], Conversation.set_not .., ?_⟩
      show (e.call (hosts s) call).Carries (c.set s _ s) stream (e.thrown = false)
      rw [Conversation.set_self]
      exact h.call hwf call
  | release i opening =>
      refine ⟨[.release s i], Conversation.set_not .., ?_⟩
      show (e.release i opening).Carries (c.set s _ s) stream (e.thrown = false)
      rw [Conversation.set_self]
      exact h.release hwf i opening
  | up opening => exact ⟨[], rfl, h.event hwf (fun _ _ => nofun) rfl hlasts⟩
  | accept client => exact ⟨[], rfl, h.event hwf (fun _ _ => nofun) rfl hlasts⟩
  | canWrite peer results => exact ⟨[], rfl, h.event hwf (fun _ _ => nofun) rfl hlasts⟩
  | timer => exact ⟨[], rfl, h.event hwf (fun _ _ => nofun) rfl hlasts⟩
  | canRead result handlings =>
      by_cases hread : e.tcp.fd = none ∨ ∀ octets, result ≠ .received octets
      · exact ⟨[], rfl, h.unread hread hlasts⟩
      · push Not at hread
        obtain ⟨hfd, octets, rfl⟩ := hread
        exact h.received hosts hposted hstream hfd (hdelivers octets handlings rfl) handlings

end SocketEnd

/-! ### Both ends -/

namespace End

variable {host : Host}

/-- What happens to an end adds to what it has sent. -/
structure Grows (e e' : End) : Prop where
  calls : e.line.side.calls ≤ e'.line.side.calls
  posted : e.outbox.posted <+: e'.outbox.posted

theorem Grows.refl (e : End) : e.Grows e := ⟨Nat.le_refl _, List.prefix_rfl⟩

theorem Grows.trans {e e₁ e₂ : End} (h : e.Grows e₁) (h' : e₁.Grows e₂) : e.Grows e₂ :=
  ⟨h.calls.trans h'.calls, h.posted.trans h'.posted⟩

theorem grows_callAll (host : Host) (calls : List (Call Unit)) (e : End) :
    e.Grows (e.callAll host calls) := by
  obtain ⟨-, hcalls, hposted, -⟩ := e.callAll_spec host calls
  exact ⟨hcalls ▸ Nat.le_add_right _ _, hposted⟩

theorem grows_receive (message : Octets) (later : Bool) (reaction : List (Call Unit)) (e : End) :
    e.Grows (e.receive host message later reaction) := by
  let : Platform := host.platform
  have hhandle (events : List Event) (l : Line (Outbox Octets)) : End.Grows ⟨l, 0⟩
      ⟨events.foldl (Line.handle wire (.handling e.taken later) (reaction.map Call.posted)) l,
        0⟩ := by
    induction events generalizing l with
    | nil => exact Grows.refl _
    | cons event events ih =>
        refine Grows.trans ?_ (ih _)
        cases event with
        | send m =>
            cases later with
            | false => exact ⟨Nat.le_refl _, List.prefix_append _ _⟩
            | true => exact ⟨Nat.le_refl _, List.prefix_rfl⟩
        | resume requestId d =>
            rw [Line.handle, Line.resume]
            cases Interlock.resume requestId l.waiting with
            | none => exact Grows.refl _
            | some found =>
                let resumed : End := ⟨{ l with
                  waiting := found.2
                  completed := l.completed ++ [(found.1, requestId)] }, 0⟩
                have hgrows : resumed.Grows (resumed.callAll host reaction) := grows_callAll ..
                rw [← callAll_eq] at hgrows
                exact ⟨hgrows.calls, hgrows.posted⟩
  obtain ⟨connection, hreceive⟩ := e.receive_eq host message later reaction
  have hgrows := hhandle (host.socketRcvd e.line.side.connection message).events
    { e.line with side := { e.line.side with connection } }
  rw [hreceive]
  exact ⟨hgrows.calls, hgrows.posted⟩

end End

namespace Conversation

variable {hosts : Bool → Host} {c : Conversation}

theorem grows_step (a : ConversationStep) (s : Bool) : (c s).Grows (c.step hosts a s) := by
  have hset (t : Bool) (e : End) (h : (c t).Grows e) : (c s).Grows (c.set t e s) := by
    by_cases hs : s = t
    · subst hs
      rwa [set_self]
    · rw [set, if_neg hs]
      exact End.Grows.refl _
  cases a with
  | call t call => exact hset t _ (End.grows_callAll (hosts t) [call] (c t))
  | receive t later reaction =>
      rw [step]
      cases (c !t).outbox.posted[(c t).taken]? with
      | none => exact End.Grows.refl _
      | some p => exact hset t _ (End.grows_receive p.message later reaction (c t))
  | release t i => exact hset t _ ⟨Nat.le_refl _, Outbox.posted_release ..⟩

theorem grows_run (hosts : Bool → Host) (run : List ConversationStep) (s : Bool) :
    (c s).Grows (run.foldl (step hosts) c s) := by
  induction run generalizing c with
  | nil => exact End.Grows.refl _
  | cons a run ih => exact (grows_step a s).trans ih

theorem Fits.before {c' : Conversation} (h : c'.Fits) (hgrows : ∀ s, (c s).Grows (c' s)) : c.Fits :=
  fun s => ⟨(hgrows s).calls.trans (h s).1, fun p hp => (h s).2 p ((hgrows s).posted.subset hp)⟩

/-- The ledgers are kept by a run, when there is room for it in the end. -/
theorem Inv.run (h : Inv hosts c) (run : List ConversationStep)
    (hfits : (run.foldl (Conversation.step hosts) c).Fits) :
    Inv hosts (run.foldl (Conversation.step hosts) c) := by
  induction run generalizing c with
  | nil => exact h
  | cons a run ih =>
      have hafter : (c.step hosts a).Fits := hfits.before (grows_run hosts run)
      exact ih (h.step a (hafter.before (grows_step a)) hafter) hfits

/-- What has been sent are messages. -/
theorem Inv.wellFormed (h : Inv hosts c) (hfits : c.Fits) (s : Bool) :
    ∀ p ∈ (c s).outbox.posted, WellFormed p.message ∧ 16 ≤ p.message.length := by
  let : Platform := (hosts s).platform
  intro p hp
  have hsize := (hfits s).2 p hp
  obtain ⟨k, hk⟩ := List.mem_iff_getElem?.1 hp
  obtain ⟨message, _ | j⟩ := p
  · obtain ⟨r, hr, rfl⟩ := (h s).exists_request hk
    obtain ⟨connection, key, operation, hencodes⟩ := (h s).encodes r hr.1
    exact ORB.sendable_of_header hencodes.header hencodes.length hsize
  · have hanswers := (h !s).answers _ (Outbox.mem_answers (by rwa [Bool.not_not]))
    obtain ⟨-, r, -, -, ⟨status, hreply⟩, hlength⟩ := hanswers
    rw [Bool.not_not] at hreply
    exact ORB.sendable_of_header hreply.1 (Nat.le_trans (by decide) hlength) hsize

end Conversation

namespace SocketPair

variable {hosts : Bool → Host} {l : SocketPair} {c : Conversation}

/-- A conversation, and what there is of it at the two ends of a socket. -/
structure Carries (hosts : Bool → Host) (l : SocketPair) (c : Conversation) : Prop where
  ledgers : Conversation.Inv hosts c
  ends : ∀ s, (l s).Carries (c s) (l !s).wired.sent ((l s).thrown = false)

theorem fits_of_ends (h : ∀ s, ∃ stream calm, (l s).Carries (c s) stream calm) (hfits : l.Fits) :
    c.Fits := by
  intro s
  obtain ⟨stream, calm, hs⟩ := h s
  refine ⟨hs.side.calls ▸ (hfits s).1, fun p hp => (hfits s).2 _ ?_⟩
  rw [hs.wired.sent]
  exact List.mem_map_of_mem hp

theorem carries_start (hosts : Bool → Host) (connections : Bool → Connection) :
    (start connections).Carries hosts (Conversation.start connections) where
  ledgers := Conversation.inv_start hosts connections
  ends _ := ⟨⟨rfl, ⟨⟨rfl, rfl⟩, rfl, TcpConnection.alone_initial [] _⟩, rfl, rfl, rfl⟩, rfl, rfl⟩

/-- **One step at one end.** -/
theorem Carries.step (h : l.Carries hosts c) (e : SocketStep) (hbefore : l.Fits)
    (hafter : (l.step hosts e).Fits) (hdelivers : l.Delivers e) (hlasts : l.Lasts hosts e) :
    ∃ run : List ConversationStep,
      (l.step hosts e).Carries hosts (run.foldl (Conversation.step hosts) c) := by
  obtain ⟨s, event⟩ := e
  have hfits := fits_of_ends (fun t => ⟨_, _, h.ends t⟩) hbefore
  have hself : l.step hosts ⟨s, event⟩ s = (l s).step (hosts s) event := Function.update_self ..
  have hother : l.step hosts ⟨s, event⟩ (!s) = l !s :=
    Function.update_of_ne (Bool.not_ne_self s) ..
  have hposted := (h.ends !s).wired.sent
  obtain ⟨run, hfar, hnear⟩ := (h.ends s).step hosts hposted
    (fun m hm => by
      rw [hposted] at hm
      obtain ⟨p, hp, rfl⟩ := List.mem_map.1 hm
      exact h.ledgers.wellFormed hfits _ p hp) event
    (fun octets handlings hread => by
      subst hread
      exact List.IsPrefix.trans hdelivers (h.ends !s).wired.alone.accepted_prefix)
    (fun hfd => hself ▸ hlasts hfd)
  have hfits' : (run.foldl (Conversation.step hosts) c).Fits := by
    refine fits_of_ends (fun t => ?_) hafter
    by_cases ht : t = s
    · subst ht
      exact ⟨_, _, hself ▸ hnear⟩
    · obtain rfl := Bool.eq_not_of_ne ht
      exact ⟨_, _, hother ▸ hfar ▸ h.ends !s⟩
  have hledgers := h.ledgers.run run hfits'
  refine ⟨run, hledgers, fun t => ?_⟩
  by_cases ht : t = s
  · subst ht
    rw [hself, hother]
    exact hnear
  · obtain rfl := Bool.eq_not_of_ne ht
    rw [hother, hfar, Bool.not_not, hself]
    -- the other end has more to read
    obtain ⟨new, hnew⟩ := (c.grows_run hosts run s).posted
    have hsent : ((l s).step (hosts s) event).wired.sent =
        (l s).wired.sent ++ new.map Post.message := by
      rw [hnear.wired.sent, (h.ends s).wired.sent, ← hnew, List.map_append]
    have hwf : ∀ m ∈ new.map Post.message, WellFormed m := by
      intro m hm
      obtain ⟨p, hp, rfl⟩ := List.mem_map.1 hm
      exact (hledgers.wellFormed hfits' s p (hnew ▸ List.mem_append_right _ hp)).1
    have hends := h.ends !s
    rw [Bool.not_not] at hends
    rw [hsent]
    exact hends.mono fun hw => ⟨hw.toLogs, hw.taken, hw.alone.more hwf⟩

instance (l : SocketPair) : Decidable l.Fits :=
  inferInstanceAs (Decidable (∀ s, (l s).line.side.calls ≤ 2 ^ 31 ∧
    ∀ m ∈ (l s).wired.sent, m.length < 2 ^ 32))

instance (hosts : Bool → Host) (l : SocketPair) (e : SocketStep) : Decidable (l.Lasts hosts e) :=
  inferInstanceAs (Decidable (_ → _))

/-- The operating system delivers, and leaves the sockets as they are. -/
structure Steady (hosts : Bool → Host) (l : SocketPair) (e : SocketStep) : Prop where
  delivers : l.Delivers e
  lasts : l.Lasts hosts e

/-- Everything that has been sent has been written and received, no answer is ready, and no exception
has left the handler of the event loop. -/
structure Idle (l : SocketPair) : Prop where
  written : ∀ s, (l s).tcp.sendBuffer = []
  received : ∀ s, (l s).tcp.inflow.received = (l !s).tcp.accepted
  ready : ∀ s, (l s).wired.ready = []
  calm : ∀ s, (l s).thrown = false

/-- When nothing is left to be done at the sockets, nothing is left to be done in the conversation. -/
theorem Carries.rests (h : l.Carries hosts c) (hfits : l.Fits) (hidle : l.Idle) (s : Bool) :
    (c s).taken = (c !s).outbox.posted.length ∧ (c s).outbox.pending = [] := by
  have hnear := (h.ends s).wired
  have hfar := (h.ends !s).wired
  constructor
  · have hfits' := fits_of_ends (fun t => ⟨_, _, h.ends t⟩) hfits
    have hwf : ∀ m ∈ (l !s).wired.sent, WellFormed m := by
      intro m hm
      rw [hfar.sent] at hm
      obtain ⟨p, hp, rfl⟩ := List.mem_map.1 hm
      exact (h.ledgers.wellFormed hfits' _ p hp).1
    have hunsent : (l !s).tcp.unsent = [] := by simp [TcpConnection.unsent, hidle.written !s]
    have hwritten := hfar.alone.written
    rw [hunsent, List.append_nil] at hwritten
    have hall := hnear.alone.all (hidle.calm s) hwf ((hidle.received s).trans hwritten)
    rw [← hnear.taken, hall, hfar.sent, List.length_map]
  · have hready := hnear.ready
    rw [hidle.ready s] at hready
    exact List.map_eq_nil_iff.1 hready.symm

end SocketPair

/-- Whatever happens at the two ends is a conversation. -/
theorem socket_carries {hosts : Bool → Host} {connections : Bool → Connection}
    {events : List SocketStep}
    (hsteady : Runs.Meets (SocketPair.step hosts) (SocketPair.Steady hosts)
      (SocketPair.start connections) events)
    (hfits : Runs.Always (SocketPair.step hosts) SocketPair.Fits (SocketPair.start connections)
      events) :
    ∃ run : List ConversationStep,
      (events.foldl (SocketPair.step hosts) (SocketPair.start connections)).Carries hosts
          (run.foldl (Conversation.step hosts) (Conversation.start connections)) ∧
        (run.foldl (Conversation.step hosts) (Conversation.start connections)).Matched hosts := by
  have hmeets : Runs.Meets (SocketPair.step hosts)
      (fun l e => l.Steady hosts e ∧ l.Fits ∧ (l.step hosts e).Fits)
      (SocketPair.start connections) events := by
    intro before e hbefore
    have hafter := hfits _ hbefore
    rw [List.foldl_append] at hafter
    exact ⟨hsteady before e hbefore, hfits before ((List.prefix_append _ _).trans hbefore), hafter⟩
  obtain ⟨run, hcarries⟩ := hmeets.simulates
    (fun _ _ e h he => h.step e he.2.1 he.2.2 he.1.delivers he.1.lasts)
    (SocketPair.carries_start hosts connections)
  exact ⟨run, hcarries, hcarries.ledgers.matched
    (SocketPair.fits_of_ends (fun t => ⟨_, _, hcarries.ends t⟩) hfits.last)⟩

/-- **What happens over a socket is a conversation**, however the operating system cuts the two
streams: there is a run of the conversation in which both ends have made the same calls, have sent the
same messages and have handled as many of them, the same callers are parked, and the same calls have
been completed.  In it, calls and answers belong together. -/
theorem socket_conversation (hosts : Bool → Host) (connections : Bool → Connection)
    (events : List SocketStep)
    (hsteady : Runs.Meets (SocketPair.step hosts) (SocketPair.Steady hosts)
      (SocketPair.start connections) events)
    (hfits : Runs.Always (SocketPair.step hosts) SocketPair.Fits (SocketPair.start connections)
      events) :
    ∃ run : List ConversationStep,
      let l := events.foldl (SocketPair.step hosts) (SocketPair.start connections)
      let c := run.foldl (Conversation.step hosts) (Conversation.start connections)
      (∀ s, (l s).line.Similar Wired.Logs (c s).line ∧
        (l s).tcp.inflow.messages.length = (c s).taken) ∧ c.Matched hosts := by
  obtain ⟨run, hcarries, hmatched⟩ := socket_carries hsteady hfits
  refine ⟨run, fun s => ⟨?_, (hcarries.ends s).wired.taken⟩, hmatched⟩
  exact Line.Similar.mono (hcarries.ends s) Wired.Carries.toLogs

/-- A call without arguments. -/
def getCall : Call Opening := ⟨true, ascii "A", cString (ascii "get"), { calls := [] }, ⟨3, true⟩⟩

/-- Nobody is suspended, and nobody makes a call when he is resumed. -/
def atOnce : ℕ → Handling := fun _ => ⟨false, ⟨3, true⟩, []⟩

/-- What is sent by the call. -/
def getRequest : Octets :=
  [71, 73, 79, 80, 1, 2, 1, 0, 60, 0, 0, 0, 0, 0, 0, 0, 3, 0, 0, 0, 0, 0, 0, 0, 1, 0, 0, 0, 65,
    0, 0, 0, 4, 0, 0, 0, 103, 101, 116, 0, 1, 0, 0, 0, 5, 0, 0, 0, 20, 0, 0, 0, 1, 0, 0, 0, 1, 0,
    0, 0, 5, 0, 0, 0, 110, 101, 97, 114, 0, 0, 250, 10]

/-- What a big-endian host answers. -/
def getReply : Octets :=
  [71, 73, 79, 80, 1, 2, 0, 1, 0, 0, 0, 16, 0, 0, 0, 0, 0, 0, 0, 0, 0, 0, 0, 0, 0, 0, 0, 5]

/-- A request is written in two pieces and arrives in two others. -/
theorem socket_conversation_get :
    let hosts : Bool → Host := fun s => ⟨if s then ⟨.big⟩ else ⟨.little⟩, fun _ => some five⟩
    let events : List SocketStep := [⟨false, .call getCall⟩, ⟨true, .accept 4⟩,
      ⟨false, .canWrite true [.sent 20]⟩,
      ⟨true, .canRead (.received (getRequest.take 14)) atOnce⟩,
      ⟨false, .canWrite true [.sent 52]⟩,
      ⟨true, .canRead (.received (getRequest.drop 14)) atOnce⟩,
      ⟨true, .canWrite true [.sent 28]⟩, ⟨false, .canRead (.received getReply) atOnce⟩]
    (events.foldl (SocketPair.step hosts) (SocketPair.start fun _ => ORB.addConnection)
        false).line.completed = [(0, 0)] ∧
      ∃ run : List ConversationStep,
        let c := run.foldl (Conversation.step hosts) (Conversation.start fun _ => ORB.addConnection)
        (c false).line.completed = [(0, 0)] ∧ c.Matched hosts := by
  intro hosts events
  have hcompleted : (events.foldl (SocketPair.step hosts)
      (SocketPair.start fun _ => ORB.addConnection) false).line.completed = [(0, 0)] := by
    decide +kernel
  obtain ⟨run, hends, hmatched⟩ :=
    socket_conversation hosts (fun _ => ORB.addConnection) events
      (by
        simp only [events, Runs.meets_cons, Runs.meets_nil, and_true]
        refine ⟨⟨trivial, ?_⟩, ⟨trivial, ?_⟩, ⟨trivial, ?_⟩, ⟨(?_ : _ <+: _), ?_⟩, ⟨trivial, ?_⟩,
          ⟨(?_ : _ <+: _), ?_⟩, ⟨trivial, ?_⟩, ⟨(?_ : _ <+: _), ?_⟩⟩ <;> decide +kernel)
      (by
        simp only [events, Runs.always_cons, Runs.always_nil]
        refine ⟨?_, ?_, ?_, ?_, ?_, ?_, ?_, ?_, ?_⟩ <;> decide +kernel)
  exact ⟨hcompleted, run, (hends false).1.completed.symm.trans hcompleted, hmatched⟩

/-- **When nothing is left to be done at the sockets, who still waits has not been answered**: the far
end has handled the request and has sent nothing. -/
theorem socket_conversation_ends (hosts : Bool → Host) (connections : Bool → Connection)
    (events : List SocketStep)
    (hsteady : Runs.Meets (SocketPair.step hosts) (SocketPair.Steady hosts)
      (SocketPair.start connections) events)
    (hfits : Runs.Always (SocketPair.step hosts) SocketPair.Fits (SocketPair.start connections)
      events)
    (hidle : (events.foldl (SocketPair.step hosts) (SocketPair.start connections)).Idle) (s : Bool) :
    let l := events.foldl (SocketPair.step hosts) (SocketPair.start connections)
    ∀ x ∈ (l s).line.waiting, ∃ r ∈ (l s).line.side.requests, r.requestId = x.1 ∧ r.call = x.2 ∧
      ∃ connection, ((hosts !s).socketRcvd connection r.message).events = [] := by
  intro l x hx
  obtain ⟨run, hcarries, hmatched⟩ := socket_carries hsteady hfits
  have hrest := hcarries.rests hfits.last hidle
  obtain ⟨r, k, hr, hid, hcall, hplace⟩ := hmatched.under_way s x ((hcarries.ends s).waiting ▸ hx)
  refine ⟨r, (hcarries.ends s).side.requests ▸ hr.1, hid, hcall, ?_⟩
  rcases hplace with htaken | ⟨m, hm⟩ | ⟨j, m, hj, hm⟩ | hnone
  · have hlt := (List.getElem?_eq_some_iff.1 hr.2).1
    have hall := (hrest !s).1
    rw [Bool.not_not] at hall
    omega
  · rw [(hrest !s).2] at hm
    cases hm
  · have hlt := (List.getElem?_eq_some_iff.1 hm).1
    have hall := (hrest s).1
    omega
  · exact hnone

/-- The servant refuses, and the caller waits. -/
theorem socket_conversation_ends_refused :
    let hosts : Bool → Host := fun s => ⟨if s then ⟨.big⟩ else ⟨.little⟩, fun _ => some refuses⟩
    let events : List SocketStep := [⟨false, .call getCall⟩, ⟨true, .accept 4⟩,
      ⟨false, .canWrite true [.sent 72]⟩, ⟨true, .canRead (.received getRequest) atOnce⟩]
    let l := events.foldl (SocketPair.step hosts) (SocketPair.start fun _ => ORB.addConnection)
    (l false).line.waiting = [(0, 0)] ∧ ∃ r ∈ (l false).line.side.requests, r.requestId = 0 ∧
      ∃ connection, ((hosts true).socketRcvd connection r.message).events = [] := by
  intro hosts events l
  have hwaiting : (l false).line.waiting = [(0, 0)] := by decide +kernel
  have hends := socket_conversation_ends hosts (fun _ => ORB.addConnection) events
    (by
      simp only [events, Runs.meets_cons, Runs.meets_nil, and_true]
      refine ⟨⟨trivial, ?_⟩, ⟨trivial, ?_⟩, ⟨trivial, ?_⟩, ⟨(?_ : _ <+: _), ?_⟩⟩ <;> decide +kernel)
    (by
      simp only [events, Runs.always_cons, Runs.always_nil]
      refine ⟨?_, ?_, ?_, ?_, ?_⟩ <;> decide +kernel)
    ⟨by decide +kernel, by decide +kernel, by decide +kernel, by decide +kernel⟩ false
  obtain ⟨r, hr, hid, -, hnone⟩ := hends (0, 0) (hwaiting ▸ List.mem_singleton_self _)
  exact ⟨hwaiting, r, hr, hid, hnone⟩

end Corba
