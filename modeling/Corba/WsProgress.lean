/-
Whether a client over WebSockets goes on.

A client has to send the request for the upgrade, and after it what wslay has queued.  Both are done in
`WsConnection::canWrite` of `src/corba/net/ws/connection.cc`, which is only called while the write
watcher is active.  `up`, `canWrite` and `flushSendBuffer` start it and stop it, by what `connect` and
`wslay_event_send` return.

Main definitions:

* `Corba.WsClientEvent` — what happens to a client, the frames wslay queues by itself included;
* `Corba.WsConnection.Progresses` — what is still to be sent is waited for;
* `Corba.WsConnection.Proceeds` — the steps that keep it so.

Main results:

* `Corba.WsConnection.flushSendBuffer_fields` — what wslay has queued after it was given the packets;
* `Corba.WsClientEvent.step_progresses_iff` — one step;
* `Corba.progresses_always_iff` — a client always makes progress exactly when all steps are of these
  kinds.
-/

import Corba.WsConnection

set_option relaxedAutoImplicit false
set_option autoImplicit false

namespace Corba

open Layout Exec

/-! ### What happens to a client -/

/-- What is called, and what the operating system, wslay and the source of random keys answer
meanwhile.  While wslay reads, it queues frames by itself that answer those it has received. -/
inductive WsClientEvent where
  | send (packet : Octets) (connect : ConnectResult) (answer : WslayAnswer)
  | canWrite (key : Octets) (result : SendResult) (answer : WslayAnswer)
  | canRead (result : RecvResult) (initialized : Bool) (answer : WslayAnswer)
      (frames : List Octets)
  | timer

/-- What wslay has taken of these packets, the first of which has a number. -/
def WslayAnswer.accepted (answer : WslayAnswer) : List Octets → ℕ → List Octets
  | [], _ => []
  | packet :: packets, n =>
      if answer.queueMsg n = 0 then packet :: answer.accepted packets (n + 1)
      else answer.accepted packets (n + 1)

namespace WsConnection

/-- A packet is waiting. -/
def buffered (packet : Octets) (c : WsConnection) : WsConnection :=
  { c with sendBuffer := c.sendBuffer ++ [packet] }

/-- What wslay has queued by itself. -/
def answered (frames : List Octets) (c : WsConnection) : WsConnection :=
  { c with ctx := c.ctx.map fun ctx => ⟨ctx.queue ++ frames⟩ }

/-- What has been written to the current socket for the upgrade. -/
def written (c : WsConnection) : Octets :=
  match c.sockets with
  | [] => []
  | k :: _ => k.written

/-- What wslay has taken and not sent yet. -/
def queued (c : WsConnection) : List Octets :=
  match c.ctx with
  | none => []
  | some ctx => ctx.queue

/-- **A client makes progress**: as long as it has a socket, the request for the upgrade has been sent
exactly once, or it is waited for that the socket can be written to, and after the upgrade it is
waited for that as long as something is queued. -/
structure Progresses (c : WsConnection) : Prop where
  request : c.fd ≠ none → c.wsstate = .httpClient →
    c.written = upgradeRequest c.protocolLocal c.client_key ∨ c.writeWatcher = true
  queue : c.fd ≠ none → c.wsstate = .ws → c.queued ≠ [] → c.writeWatcher = true

end WsConnection

/-- The connection after the call.  An exception leaves it as it is at that point. -/
def WsClientEvent.step [Nettle] (c : WsConnection) : WsClientEvent → WsConnection
  | .send packet connect answer => State (WsConnection.send packet connect answer c)
  | .canWrite key result answer => State (WsConnection.canWrite key result answer c)
  | .canRead result initialized answer frames =>
      let c' := State (WsConnection.canRead result .failed initialized answer c)
      if c.wsstate = .ws then c'.answered frames else c'
  | .timer => State (WsConnection.timer c)

namespace WsConnection

/-! ### Giving packets to wslay -/

/-- What wslay has been given is queued behind what was there. -/
theorem queueMsgs_run (answer : WslayAnswer) (packets : List Octets) (n : ℕ) (c : WsConnection) :
    ∃ uses, queueMsgs answer packets n c = .ok ⟨⟩
      { c with ctx := c.ctx.map fun ctx => ⟨ctx.queue ++ answer.accepted packets n⟩, uses } := by
  induction packets generalizing n c with
  | nil =>
      refine ⟨c.uses, ?_⟩
      obtain ⟨l, upgrade, state, fd, r, w, active, running, headers, key, ctx, buffer, sockets, uses⟩ := c
      cases ctx <;> simp [queueMsgs, WslayAnswer.accepted]
  | cons packet packets ih =>
      rw [queueMsgs, use, modify_bind]
      by_cases hqueue : answer.queueMsg n = 0
      · simp only [hqueue, if_true, modify_bind, WslayAnswer.accepted]
        obtain ⟨uses, hrun⟩ := ih (n + 1) { c with
          uses := c.uses ++ [⟨.queueMsg, c.wsstate, c.ctx.isSome⟩],
          ctx := c.ctx.map fun ctx => ⟨ctx.queue ++ [packet]⟩ }
        refine ⟨uses, hrun.trans ?_⟩
        obtain ⟨l, upgrade, state, fd, r, w, active, running, headers, key, ctx, buffer, sockets, us⟩ := c
        cases ctx <;> simp
      · simp only [hqueue, if_false, WslayAnswer.accepted]
        exact ih (n + 1) _

/-- What has been taken of the packets is queued behind what was there, and what has been sent is gone.
When not all is well, it is waited for that the socket can be written to. -/
theorem flushSendBuffer_fields (answer : WslayAnswer) (c : WsConnection)
    (hbuffer : c.sendBuffer ≠ []) :
    let c' := State (flushSendBuffer answer c)
    c'.fd = c.fd ∧ c'.wsstate = c.wsstate ∧ c'.sockets = c.sockets ∧
      c'.protocolLocal = c.protocolLocal ∧ c'.client_key = c.client_key ∧
      c'.ctx = c.ctx.map (fun ctx =>
        ⟨(ctx.queue ++ answer.accepted c.sendBuffer 0).drop answer.sent⟩) ∧
      c'.writeWatcher = (c.writeWatcher || decide (answer.eventSend ≠ 0)) := by
  obtain ⟨uses, hqueue⟩ := queueMsgs_run answer c.sendBuffer 0 c
  rw [flushSendBuffer, get_bind, if_pos hbuffer, bind_ok hqueue]
  simp only [eventSend, use, modify_bind, pure_bind, bind_assoc]
  obtain ⟨l, upgrade, state, fd, r, w, active, running, headers, key, ctx, buffer, sockets, us⟩ := c
  by_cases hsend : answer.eventSend = 0
  · rw [if_neg (by simpa using hsend)]
    cases ctx <;> simp [hsend]
  · rw [if_pos hsend]
    cases ctx <;> simp [hsend, startWriteHandler]

/-- After `flushSendBuffer` it is waited for that the socket can be written to, or nothing is queued. -/
def Flushes (c : WsConnection) (answer : WslayAnswer) : Prop :=
  c.writeWatcher = true ∨
    if c.sendBuffer = [] then c.queued = []
    else answer.eventSend ≠ 0 ∨
      ∀ ctx ∈ c.ctx, (ctx.queue ++ answer.accepted c.sendBuffer 0).length ≤ answer.sent

theorem flushSendBuffer_queue_iff (answer : WslayAnswer) (c : WsConnection) :
    ((State (flushSendBuffer answer c)).queued ≠ [] →
      (State (flushSendBuffer answer c)).writeWatcher = true) ↔ c.Flushes answer := by
  rw [Flushes]
  by_cases hbuffer : c.sendBuffer = []
  · rw [flushSendBuffer, get_bind, if_neg (by simpa using hbuffer), if_pos hbuffer, pure_run,
      State_ok]
    by_cases hqueue : c.queued = []
    · simp [hqueue]
    · simp [hqueue]
  · obtain ⟨-, -, -, -, -, hctx, hwatcher⟩ := flushSendBuffer_fields answer c hbuffer
    rw [if_neg hbuffer, hwatcher, Bool.or_eq_true, decide_eq_true_eq, queued, hctx]
    cases hc : c.ctx with
    | none => simp
    | some ctx =>
        simp only [Option.map_some, ne_eq, List.drop_eq_nil_iff, Option.mem_def, Option.some.injEq,
          forall_eq']
        tauto

/-- Whether a packet is sent does not matter to what is known about the request. -/
theorem flushSendBuffer_keeps (answer : WslayAnswer) (c : WsConnection) :
    let c' := State (flushSendBuffer answer c)
    c'.fd = c.fd ∧ c'.wsstate = c.wsstate ∧ c'.sockets = c.sockets ∧
      c'.protocolLocal = c.protocolLocal ∧ c'.client_key = c.client_key ∧
      (c.writeWatcher = true → c'.writeWatcher = true) := by
  by_cases hbuffer : c.sendBuffer = []
  · rw [flushSendBuffer, get_bind, if_neg (by simpa using hbuffer), pure_run, State_ok]
    exact ⟨rfl, rfl, rfl, rfl, rfl, id⟩
  · obtain ⟨hfd, hws, hsockets, hlocal, hkey, -, hwatcher⟩ := flushSendBuffer_fields answer c hbuffer
    refine ⟨hfd, hws, hsockets, hlocal, hkey, fun hyes => ?_⟩
    rw [hwatcher, hyes, Bool.true_or]

/-- No context comes or goes. -/
theorem flushSendBuffer_ctx (answer : WslayAnswer) (c : WsConnection) :
    (State (flushSendBuffer answer c)).ctx.isSome = c.ctx.isSome := by
  by_cases hbuffer : c.sendBuffer = []
  · rw [flushSendBuffer, get_bind, if_neg (by simpa using hbuffer), pure_run, State_ok]
  · obtain ⟨-, -, -, -, -, hctx, -⟩ := flushSendBuffer_fields answer c hbuffer
    rw [hctx, Option.isSome_map]

/-- Flushing keeps the progress of a client exactly when it leaves nothing to be forgotten. -/
theorem Progresses.flush_iff {c : WsConnection} (h : c.fd ≠ none → c.wsstate = .httpClient →
      c.written = upgradeRequest c.protocolLocal c.client_key ∨ c.writeWatcher = true)
    (answer : WslayAnswer) :
    (State (flushSendBuffer answer c)).Progresses ↔
      (c.fd ≠ none → c.wsstate = .ws → c.Flushes answer) := by
  obtain ⟨hfd, hws, hsockets, hlocal, hkey, hwatcher⟩ := flushSendBuffer_keeps answer c
  have hqueue := flushSendBuffer_queue_iff answer c
  constructor
  · intro hafter hopen hstate
    exact hqueue.1 (hafter.queue (by rwa [hfd]) (by rwa [hws]))
  · intro hflushes
    refine ⟨?_, ?_⟩
    · intro hopen hstate
      rw [hfd] at hopen
      rw [hws] at hstate
      rw [written, hsockets, hlocal, hkey]
      exact (h hopen hstate).imp_right hwatcher
    · intro hopen hstate
      rw [hfd] at hopen
      rw [hws] at hstate
      exact hqueue.2 (hflushes hopen hstate)

/-! ### One step -/

/-- What holds of every client: it is none of the servers, and what it has opened is its current
socket. -/
structure Outgoing (c : WsConnection) : Prop where
  client : c.wsstate ≠ .httpServer
  socket : c.fd ≠ none → c.sockets ≠ []

section Step

variable [Nettle] {c : WsConnection}

/-- The steps that keep what is to be sent waited for.

* A connection that is there at once is one for which no request and no message is waiting.
* When the request is sent, the system takes it as a whole, and nothing has been sent before.
* wslay does not report that all is well while something is left, unless it is waited for anyway.
* wslay queues nothing by itself unless it is waited for. -/
def Proceeds (c : WsConnection) : WsClientEvent → Prop
  | .send packet connect answer =>
      match c.state with
      | .idle => c.fd = none → ∀ fd, connect = .opened fd false →
          c.wsstate ≠ .httpClient ∧ (c.wsstate = .ws → c.queued = [])
      | .established => c.fd ≠ none → c.wsstate = .ws →
          (c.buffered packet).Flushes answer
      | _ => True
  | .canWrite key result answer => c.fd ≠ none →
      match c.wsstate with
      | .httpClient =>
          c.written ++ result.taken (upgradeRequest c.protocolLocal key) =
            upgradeRequest c.protocolLocal key
      | .httpServer => True
      | .ws => answer.eventSend ≠ 0 ∨ c.queued.length ≤ answer.sent
  | .canRead result initialized answer frames =>
      match c.wsstate with
      | .httpClient => ∀ octets, result = .received octets → c.Completes result →
          ((c.headed octets).switched initialized).Flushes answer
      | .httpServer => True
      | .ws => c.fd ≠ none → c.writeWatcher = true ∨ c.ctx = none ∨ frames = []
  | .timer => True

omit [Nettle] in
/-- A new socket, to which nothing has been written. -/
theorem up_opened (hfd : c.fd = none) (fd : ℕ) (inProgress : Bool) :
    let c' := State (up (.opened fd inProgress) c)
    c'.fd = some fd ∧ c'.wsstate = c.wsstate ∧ c'.written = [] ∧ c'.sockets ≠ [] ∧
      c'.ctx = c.ctx ∧ c'.writeWatcher = inProgress := by
  obtain ⟨l, upgrade, state, fd, r, w, active, running, headers, key, ctx, buffer, sockets, uses⟩ := c
  obtain rfl : fd = none := hfd
  cases inProgress <;> cases active <;> exact ⟨rfl, rfl, rfl, List.cons_ne_nil _ _, rfl, rfl⟩

omit [Nettle] in
theorem up_open (hfd : c.fd ≠ none) (connect : ConnectResult) : State (up connect c) = c := by
  obtain ⟨l, upgrade, state, fd, r, w, active, running, headers, key, ctx, buffer, sockets, uses⟩ := c
  cases fd with
  | none => exact absurd rfl hfd
  | some fd => cases connect <;> rfl

omit [Nettle] in
theorem up_failed (hfd : c.fd = none) (peer error : String) :
    let c' := State (up (.failed peer error) c)
    c'.fd = none ∧ c'.wsstate = c.wsstate ∧ c'.sockets = c.sockets := by
  obtain ⟨l, upgrade, state, fd, r, w, active, running, headers, key, ctx, buffer, sockets, uses⟩ := c
  obtain rfl : fd = none := hfd
  exact ⟨rfl, rfl, rfl⟩

omit [Nettle] in
/-- Without a socket there is nothing to be waited for. -/
theorem progresses_of_fd (hfd : c.fd = none) : c.Progresses :=
  ⟨fun hopen => absurd hfd hopen, fun hopen => absurd hfd hopen⟩

omit [Nettle] in
theorem up_progresses_iff (h : c.Progresses) (connect : ConnectResult) :
    (State (up connect c)).Progresses ↔
      (c.fd = none → ∀ fd, connect = .opened fd false →
        c.wsstate ≠ .httpClient ∧ (c.wsstate = .ws → c.queued = [])) := by
  by_cases hfd : c.fd = none
  · cases connect with
    | failed peer error =>
        obtain ⟨hnone, -, -⟩ := up_failed hfd peer error
        exact iff_of_true (progresses_of_fd hnone) nofun
    | opened fd inProgress =>
        obtain ⟨hopen, hstate, hwritten, -, hctx, hwatcher⟩ := up_opened hfd fd inProgress
        cases inProgress with
        | true => exact iff_of_true ⟨fun _ _ => .inr hwatcher, fun _ _ _ => hwatcher⟩ nofun
        | false =>
            -- nobody sends the request when the connection is there at once
            have hsome : (State (up (.opened fd false) c)).fd ≠ none := by rw [hopen]; simp
            have hunwatched : (State (up (.opened fd false) c)).writeWatcher ≠ true := by
              rw [hwatcher]
              exact Bool.false_ne_true
            constructor
            · intro hafter _ _ _
              refine ⟨fun hclient => ?_, fun hws => ?_⟩
              · rcases hafter.request hsome (hstate.trans hclient) with hsent | hyes
                · rw [hwritten] at hsent
                  simp [upgradeRequest, ascii] at hsent
                · exact hunwatched hyes
              · by_contra hqueue
                refine hunwatched (hafter.queue hsome (hstate.trans hws) ?_)
                rw [queued, hctx]
                exact hqueue
            · intro hcond
              obtain ⟨hclient, hws⟩ := hcond hfd fd rfl
              refine ⟨fun _ hyes => absurd (hstate.symm.trans hyes) hclient, fun _ hyes hqueue => ?_⟩
              rw [queued, hctx] at hqueue
              exact absurd (hws (hstate.symm.trans hyes)) hqueue
  · rw [up_open hfd]
    exact iff_of_true h fun hnone => absurd hnone hfd

omit [Nettle] in
/-- What is done with a packet depends on the state. -/
theorem send_run (packet : Octets) (connect : ConnectResult) (answer : WslayAnswer) :
    (c.state = .idle → send packet connect answer c = up connect (c.buffered packet)) ∧
    (c.state = .pending ∨ c.state = .inprogress →
      send packet connect answer c = .ok () (c.buffered packet)) ∧
    (c.state = .established →
      send packet connect answer c = flushSendBuffer answer (c.buffered packet)) := by
  obtain ⟨l, upgrade, state, fd, r, w, active, running, headers, key, ctx, buffer, sockets, uses⟩ := c
  refine ⟨?_, ?_, ?_⟩
  · rintro rfl
    rfl
  · rintro (rfl | rfl) <;> rfl
  · rintro rfl
    rfl

theorem send_progresses_iff (h : c.Progresses) (packet : Octets) (connect : ConnectResult)
    (answer : WslayAnswer) :
    (State (send packet connect answer c)).Progresses ↔
      c.Proceeds (.send packet connect answer) := by
  have hbuffered : (c.buffered packet).Progresses := ⟨h.request, h.queue⟩
  obtain ⟨hidle, hwaiting, hestablished⟩ := send_run (c := c) packet connect answer
  rw [Proceeds]
  cases hstate : c.state with
  | idle =>
      rw [hidle hstate]
      exact up_progresses_iff hbuffered connect
  | pending =>
      rw [hwaiting (.inl hstate)]
      exact iff_of_true hbuffered trivial
  | inprogress =>
      rw [hwaiting (.inr hstate)]
      exact iff_of_true hbuffered trivial
  | established =>
      rw [hestablished hstate]
      exact Progresses.flush_iff hbuffered.request answer

omit [Nettle] in
/-- The request is sent by a client that has a socket. -/
theorem httpClientSend_fields (hopen : c.fd ≠ none) (hsocket : c.sockets ≠ []) (key : Octets)
    (result : SendResult) :
    let c' := State (httpClientSend key result c)
    c'.fd = c.fd ∧ c'.wsstate = c.wsstate ∧ c'.protocolLocal = c.protocolLocal ∧
      c'.client_key = key ∧ c'.writeWatcher = c.writeWatcher ∧
      c'.written = c.written ++ result.taken (upgradeRequest c.protocolLocal key) := by
  obtain ⟨l, upgrade, state, fd, r, w, active, running, headers, k, ctx, buffer, sockets, uses⟩ := c
  cases fd with
  | none => exact absurd rfl hopen
  | some fd =>
      cases sockets with
      | nil => exact absurd rfl hsocket
      | cons socket sockets =>
          cases result with
          | sent n =>
              rw [httpClientSend, modify_bind, get_bind]
              simp only [Option.isSome_some, if_true, modify_bind]
              split
              · exact ⟨rfl, rfl, rfl, rfl, rfl, rfl⟩
              · exact ⟨rfl, rfl, rfl, rfl, rfl, rfl⟩
          | epipe => exact ⟨rfl, rfl, rfl, rfl, rfl, (List.append_nil _).symm⟩
          | failed => exact ⟨rfl, rfl, rfl, rfl, rfl, (List.append_nil _).symm⟩

omit [Nettle] in
theorem httpClientSend_closed (hfd : c.fd = none) (key : Octets) (result : SendResult) :
    (State (httpClientSend key result c)).fd = none := by
  obtain ⟨l, upgrade, state, fd, r, w, active, running, headers, k, ctx, buffer, sockets, uses⟩ := c
  obtain rfl : fd = none := hfd
  rfl

omit [Nettle] in
/-- What `canWrite` does depends on the upgrade. -/
theorem canWrite_run (key : Octets) (result : SendResult) (answer : WslayAnswer) :
    ∃ state, (c.wsstate = .httpClient → canWrite key result answer c =
        httpClientSend key result { c with state, writeWatcher := false }) ∧
      (c.wsstate = .ws → ∃ uses, State (canWrite key result answer c) =
        { c with
          state
          ctx := c.ctx.map fun ctx => ⟨ctx.queue.drop answer.sent⟩
          uses
          writeWatcher := c.writeWatcher && decide (answer.eventSend ≠ 0) }) := by
  obtain ⟨l, upgrade, state, fd, r, w, active, running, headers, k, ctx, buffer, sockets, uses⟩ := c
  have hws : ∀ s, ∃ uses', State ((do
      let r ← eventSend answer
      if r = 0 then
        stopWriteHandler : WsM Unit)
      ⟨l, .ws, s, fd, r, w, active, running, headers, k, ctx, buffer, sockets, uses⟩) =
      ⟨l, .ws, s, fd, r, w && decide (answer.eventSend ≠ 0), active, running, headers, k,
        ctx.map fun ctx => ⟨ctx.queue.drop answer.sent⟩, buffer, sockets, uses'⟩ := by
    intro s
    refine ⟨uses ++ [⟨.eventSend, .ws, ctx.isSome⟩], ?_⟩
    simp only [eventSend, use, modify_bind, pure_bind, bind_assoc]
    by_cases hsend : answer.eventSend = 0
    · rw [if_pos hsend]
      simp [stopWriteHandler, hsend]
    · rw [if_neg hsend]
      simp [hsend]
  refine ⟨if state = .inprogress then .established else state, ?_, ?_⟩
  · rintro rfl
    cases state <;> rfl
  · rintro rfl
    cases state <;> exact hws _

theorem canWrite_progresses_iff (houtgoing : c.Outgoing) (h : c.Progresses) (key : Octets)
    (result : SendResult) (answer : WslayAnswer) :
    (State (canWrite key result answer c)).Progresses ↔
      c.Proceeds (.canWrite key result answer) := by
  obtain ⟨state, hclient, hws⟩ := canWrite_run (c := c) key result answer
  rw [Proceeds]
  cases hstate : c.wsstate with
  | httpServer => exact absurd hstate houtgoing.client
  | httpClient =>
      rw [hclient hstate]
      by_cases hfd : c.fd = none
      · refine iff_of_true (progresses_of_fd ?_) fun hopen => absurd hfd hopen
        exact httpClientSend_closed (by exact hfd) key result
      · obtain ⟨hopen, hstate', hlocal, hkey, hwatcher, hwritten⟩ := httpClientSend_fields
          (c := { c with state, writeWatcher := false }) hfd (houtgoing.socket hfd) key result
        have hws' : (State (httpClientSend key result
            { c with state, writeWatcher := false })).wsstate = .httpClient := hstate'.trans hstate
        constructor
        · intro hafter _
          -- the watcher has been stopped before the request was sent
          rcases hafter.request (by rwa [hopen]) hws' with hsent | hyes
          · rw [hwritten, hlocal, hkey] at hsent
            exact hsent
          · rw [hwatcher] at hyes
            cases hyes
        · intro hsent
          refine ⟨fun _ _ => .inl ?_, fun _ hyes => ?_⟩
          · rw [hwritten, hlocal, hkey]
            exact hsent hfd
          · rw [hws'] at hyes
            cases hyes
  | ws =>
      obtain ⟨uses, hrun⟩ := hws hstate
      rw [hrun]
      constructor
      · intro hafter hopen
        by_contra hnot
        rw [not_or, not_not, not_le] at hnot
        obtain ⟨hsend, hlength⟩ := hnot
        -- wslay has reported that all is well, with something left in its queue
        have hwatcher := hafter.queue hopen hstate (by
          rw [queued] at hlength ⊢
          cases hctx : c.ctx with
          | none => simp [hctx] at hlength
          | some ctx =>
              rw [hctx] at hlength
              simpa using hlength)
        rw [Bool.and_eq_true, decide_eq_true_eq] at hwatcher
        exact hwatcher.2 hsend
      · intro hcond
        refine ⟨fun _ hyes => ?_, fun hopen _ hqueue => ?_⟩
        · exact absurd (hyes.symm.trans hstate) (by simp)
        · have hlong : answer.sent < c.queued.length := by
            rw [queued] at hqueue ⊢
            cases hctx : c.ctx with
            | none => simp [hctx] at hqueue
            | some ctx => simpa [hctx] using hqueue
          have hsend := (hcond hopen).resolve_right (by omega)
          have hwatcher := h.queue hopen hstate (List.ne_nil_of_length_pos (by omega))
          simp [hwatcher, hsend]

/-! ### Reading -/

omit [Nettle] in
theorem answered_progresses_iff (h : c.Progresses) (hws : c.wsstate = .ws) (frames : List Octets) :
    (c.answered frames).Progresses ↔
      (c.fd ≠ none → c.writeWatcher = true ∨ c.ctx = none ∨ frames = []) := by
  have hqueued : (c.answered frames).queued ≠ [] ↔
      c.queued ≠ [] ∨ (c.ctx ≠ none ∧ frames ≠ []) := by
    rw [answered, queued, queued]
    cases c.ctx with
    | none => simp
    | some ctx =>
        simp only [Option.map_some, ne_eq, List.append_eq_nil_iff]
        tauto
  constructor
  · intro hafter hopen
    by_contra hnot
    rw [not_or, not_or] at hnot
    exact hnot.1 (hafter.queue hopen hws (hqueued.2 (.inr hnot.2)))
  · intro hcond
    refine ⟨h.request, fun hopen _ hqueue => ?_⟩
    rcases hqueued.1 hqueue with hold | ⟨hctx, hframes⟩
    · exact h.queue hopen hws hold
    · exact (hcond hopen).resolve_right (not_or.2 ⟨hctx, hframes⟩)

/-- What is granted is what the client expects. -/
theorem completes_received_iff (hws : c.wsstate = .httpClient) (hfd : c.fd ≠ none)
    (octets : Octets) :
    c.Completes (.received octets) ↔ (c.headed octets).Complete ∧
      headerValue (ascii "Sec-WebSocket-Accept: ") (c.headed octets).headers =
        some (create_acceptkey c.client_key) := by
  have hgranted : (c.headed octets).Granted ↔ headerValue (ascii "Sec-WebSocket-Accept: ")
      (c.headed octets).headers = some (create_acceptkey c.client_key) := by
    rw [Granted, show (c.headed octets).wsstate = _ from hws]
    exact Iff.rfl
  rw [← hgranted]
  constructor
  · rintro ⟨-, _, ⟨⟩, hcomplete, hyes⟩
    exact ⟨hcomplete, hyes⟩
  · rintro ⟨hcomplete, hyes⟩
    exact ⟨hfd, octets, rfl, hcomplete, hyes⟩

/-- A client that has received something waits for more, or is upgraded. -/
theorem httpClientRcvd_received (hws : c.wsstate = .httpClient) (hfd : c.fd ≠ none)
    (octets : Octets) (initialized : Bool) (answer : WslayAnswer) :
    (c.Completes (.received octets) →
      State (httpClientRcvd (.received octets) initialized answer c) =
        State (flushSendBuffer answer ((c.headed octets).switched initialized))) ∧
    (¬ c.Completes (.received octets) →
      State (httpClientRcvd (.received octets) initialized answer c) = c.headed octets) := by
  have hsame : (c.headed octets).client_key = c.client_key := rfl
  rw [completes_received_iff hws hfd, httpClientRcvd, bind_ok (httpRcvd_received hfd octets), Complete]
  constructor
  · rintro ⟨hcomplete, hkey⟩
    rw [if_pos hcomplete, get_bind, hsame, if_pos hkey, startWSMode_run]
  · intro hnot
    split
    · rename_i hcomplete
      rw [get_bind, hsame, if_neg fun hkey => hnot ⟨hcomplete, hkey⟩]
      rfl
    · rfl

theorem httpClientRcvd_nothing {result : RecvResult}
    (h : ∀ octets, c.fd ≠ none → result ≠ .received octets) (initialized : Bool)
    (answer : WslayAnswer) : State (httpClientRcvd result initialized answer c) = c := by
  rw [httpClientRcvd, bind_ok (httpRcvd_nothing h)]
  rfl

/-- A client that is not upgraded has at most got more of the headers. -/
theorem httpClientRcvd_waiting (hws : c.wsstate = .httpClient) {result : RecvResult}
    (h : ¬ c.Completes result) (initialized : Bool) (answer : WslayAnswer) :
    ∃ headers, State (httpClientRcvd result initialized answer c) = { c with headers } := by
  by_cases hreceived : c.fd ≠ none ∧ ∃ octets, result = .received octets
  · obtain ⟨hfd, octets, rfl⟩ := hreceived
    exact ⟨_, (httpClientRcvd_received hws hfd octets initialized answer).2 h⟩
  · refine ⟨c.headers, httpClientRcvd_nothing ?_ initialized answer⟩
    intro octets hfd heq
    exact hreceived ⟨hfd, octets, heq⟩

theorem canRead_httpClient (hws : c.wsstate = .httpClient) (result : RecvResult)
    (reply : SendResult) (initialized : Bool) (answer : WslayAnswer) :
    canRead result reply initialized answer c = httpClientRcvd result initialized answer c := by
  rw [canRead, get_bind, hws]

theorem canRead_progresses_iff (houtgoing : c.Outgoing) (h : c.Progresses) (result : RecvResult)
    (initialized : Bool) (answer : WslayAnswer) (frames : List Octets) :
    (WsClientEvent.step c (.canRead result initialized answer frames)).Progresses ↔
      c.Proceeds (.canRead result initialized answer frames) := by
  rw [WsClientEvent.step, Proceeds]
  cases hws : c.wsstate with
  | httpServer => exact absurd hws houtgoing.client
  | httpClient =>
      dsimp only
      rw [if_neg (by simp), canRead_httpClient hws]
      by_cases hcompletes : c.Completes result
      · obtain ⟨hopen, octets, rfl, -⟩ := id hcompletes
        rw [(httpClientRcvd_received hws hopen octets initialized answer).1 hcompletes,
          Progresses.flush_iff]
        · constructor
          · rintro hflushes _ ⟨⟩ -
            exact hflushes hopen rfl
          · intro hflushes _ _
            exact hflushes octets rfl hcompletes
        · intro _ hclient
          cases hclient
      · obtain ⟨headers, hrun⟩ := httpClientRcvd_waiting hws hcompletes initialized answer
        rw [hrun]
        exact iff_of_true ⟨h.request, h.queue⟩ fun _ _ hyes => absurd hyes hcompletes
  | ws =>
      rw [canRead, get_bind, hws]
      dsimp only
      rw [if_pos rfl]
      exact answered_progresses_iff (c := State (use .eventRecv c)) ⟨h.request, h.queue⟩ hws frames

omit [Nettle] in
/-- The timer closes the socket or does nothing. -/
theorem timer_closes (c : WsConnection) :
    (State (timer c)).fd = none ∨ ∃ running, State (timer c) = { c with timerRunning := running } := by
  obtain ⟨l, upgrade, state, fd, r, w, active, running, headers, key, ctx, buffer, sockets, uses⟩ := c
  cases state with
  | inprogress => exact .inl rfl
  | _ => exact .inr ⟨false, rfl⟩

/-- **What is still to be sent is waited for after a step exactly when it is one of these.** -/
theorem step_progresses_iff (houtgoing : c.Outgoing) (h : c.Progresses) (event : WsClientEvent) :
    (event.step c).Progresses ↔ c.Proceeds event := by
  cases event with
  | send packet connect answer => exact send_progresses_iff h packet connect answer
  | canWrite key result answer => exact canWrite_progresses_iff houtgoing h key result answer
  | canRead result initialized answer frames =>
      exact canRead_progresses_iff houtgoing h result initialized answer frames
  | timer =>
      refine iff_of_true ?_ trivial
      rw [WsClientEvent.step]
      rcases timer_closes c with hfd | ⟨running, hrun⟩
      · exact progresses_of_fd hfd
      · rw [hrun]
        exact ⟨h.request, h.queue⟩

/-! ### What holds of every client -/

omit [Nettle] in
/-- What does not touch the upgrade, the descriptor and the sockets keeps it. -/
theorem Outgoing.congr {c' : WsConnection} (h : c.Outgoing) (hws : c'.wsstate = c.wsstate)
    (hfd : c'.fd = c.fd) (hsockets : c'.sockets = c.sockets) : c'.Outgoing := by
  refine ⟨by rw [hws]; exact h.client, fun hopen => ?_⟩
  rw [hsockets]
  exact h.socket (by rwa [← hfd])

omit [Nettle] in
theorem outgoing_up (connect : ConnectResult) (h : c.Outgoing) :
    (State (up connect c)).Outgoing := by
  by_cases hfd : c.fd = none
  · cases connect with
    | failed peer error =>
        obtain ⟨hnone, hws, -⟩ := up_failed hfd peer error
        exact ⟨by rw [hws]; exact h.client, fun hopen => absurd hnone hopen⟩
    | opened fd inProgress =>
        obtain ⟨-, hws, -, hsockets, -⟩ := up_opened hfd fd inProgress
        exact ⟨by rw [hws]; exact h.client, fun _ => hsockets⟩
  · rw [up_open hfd]
    exact h

omit [Nettle] in
theorem outgoing_flushSendBuffer (answer : WslayAnswer) (h : c.Outgoing) :
    (State (flushSendBuffer answer c)).Outgoing := by
  obtain ⟨hfd, hws, hsockets, -⟩ := flushSendBuffer_keeps answer c
  exact h.congr hws hfd hsockets

omit [Nettle] in
theorem outgoing_send (h : c.Outgoing) (packet : Octets) (connect : ConnectResult)
    (answer : WslayAnswer) : (State (send packet connect answer c)).Outgoing := by
  have hbuffered : (c.buffered packet).Outgoing := ⟨h.client, h.socket⟩
  obtain ⟨hidle, hwaiting, hestablished⟩ := send_run (c := c) packet connect answer
  cases hstate : c.state with
  | idle =>
      rw [hidle hstate]
      exact outgoing_up connect hbuffered
  | pending =>
      rw [hwaiting (.inl hstate)]
      exact hbuffered
  | inprogress =>
      rw [hwaiting (.inr hstate)]
      exact hbuffered
  | established =>
      rw [hestablished hstate]
      exact outgoing_flushSendBuffer answer hbuffered

omit [Nettle] in
theorem outgoing_httpClientSend (key : Octets) (result : SendResult) :
    Preserves Outgoing (httpClientSend key result) := by
  have hwrote : ∀ (c : WsConnection) (octets : Octets), c.Outgoing → (c.wrote octets).Outgoing := by
    intro c octets h
    refine ⟨h.client, fun hopen => ?_⟩
    obtain ⟨socket, sockets, hsockets⟩ := List.exists_cons_of_ne_nil (h.socket hopen)
    simp [wrote, hsockets]
  refine (Preserves.modify fun c h => ⟨h.client, h.socket⟩).bind fun _ => ?_
  refine Preserves.get_bind fun c _ => ?_
  dsimp only
  split
  · refine (Preserves.modify fun c h => hwrote c _ h).bind fun _ => ?_
    split
    · exact Preserves.throw _
    · exact Preserves.pure _
  · exact Preserves.throw _

omit [Nettle] in
theorem outgoing_canWrite (h : c.Outgoing) (key : Octets) (result : SendResult)
    (answer : WslayAnswer) : (State (canWrite key result answer c)).Outgoing := by
  obtain ⟨state, hclient, hws⟩ := canWrite_run (c := c) key result answer
  cases hstate : c.wsstate with
  | httpServer => exact absurd hstate h.client
  | httpClient =>
      rw [hclient hstate]
      exact outgoing_httpClientSend key result _ ⟨h.client, h.socket⟩
  | ws =>
      obtain ⟨uses, hrun⟩ := hws hstate
      rw [hrun]
      exact ⟨h.client, h.socket⟩

theorem outgoing_canRead (h : c.Outgoing) (result : RecvResult) (initialized : Bool)
    (answer : WslayAnswer) (frames : List Octets) :
    (WsClientEvent.step c (.canRead result initialized answer frames)).Outgoing := by
  rw [WsClientEvent.step]
  cases hws : c.wsstate with
  | httpServer => exact absurd hws h.client
  | httpClient =>
      rw [if_neg (by simp), canRead_httpClient hws]
      by_cases hcompletes : c.Completes result
      · obtain ⟨hopen, octets, rfl, -⟩ := id hcompletes
        rw [(httpClientRcvd_received hws hopen octets initialized answer).1 hcompletes]
        refine outgoing_flushSendBuffer answer ⟨?_, h.socket⟩
        simp [switched]
      · obtain ⟨headers, hrun⟩ := httpClientRcvd_waiting hws hcompletes initialized answer
        rw [hrun]
        exact ⟨h.client, h.socket⟩
  | ws =>
      rw [canRead, get_bind, hws]
      exact ⟨h.client, h.socket⟩

theorem step_outgoing (h : c.Outgoing) (event : WsClientEvent) : (event.step c).Outgoing := by
  cases event with
  | send packet connect answer => exact outgoing_send h packet connect answer
  | canWrite key result answer => exact outgoing_canWrite h key result answer
  | canRead result initialized answer frames => exact outgoing_canRead h result initialized answer frames
  | timer =>
      rw [WsClientEvent.step]
      obtain ⟨l, upgrade, state, fd, r, w, active, running, headers, key, ctx, buffer, sockets, uses⟩ := c
      cases state with
      | inprogress => exact ⟨h.client, fun hopen => absurd rfl hopen⟩
      | _ => exact ⟨h.client, h.socket⟩

end Step

end WsConnection

/-! ### All steps -/

/-- **A client always makes progress exactly when every connection to be upgraded takes time to be
made, every request is sent as a whole at the first attempt, and wslay reports, as long as something
is left to be sent, that not all is well.** -/
theorem progresses_always_iff [Nettle] (protocolLocal : HostAndPort)
    (events : List WsClientEvent) :
    Runs.Always WsClientEvent.step WsConnection.Progresses (.new protocolLocal .httpClient) events ↔
      Runs.Meets WsClientEvent.step WsConnection.Proceeds (.new protocolLocal .httpClient) events :=
  Runs.always_iff_meets (I := WsConnection.Outgoing)
    (fun _ event houtgoing => WsConnection.step_outgoing houtgoing event)
    (fun _ event houtgoing h => WsConnection.step_progresses_iff houtgoing h event)
    ⟨by simp [WsConnection.new], fun hopen => absurd rfl hopen⟩
    (WsConnection.progresses_of_fd rfl)

/-- A client the server of which answers at once does not send the request for the upgrade. -/
theorem connected_at_once_not_progresses :
    letI : Nettle := ⟨id, id⟩
    ∃ events : List WsClientEvent,
      let c := events.foldl WsClientEvent.step (.new ⟨ascii "near", 2810⟩ .httpClient)
      c.fd = some 3 ∧ c.wsstate = .httpClient ∧ c.sockets.map Socket.written = [[]] ∧
        c.writeWatcher = false ∧ ¬ c.Progresses := by
  let : Nettle := ⟨id, id⟩
  refine ⟨[.send [1] (.opened 3 false) {}], rfl, rfl, rfl, rfl, fun h => ?_⟩
  rcases h.request (by decide) rfl with hsent | hwatched
  · exact absurd hsent (by decide +kernel)
  · cases hwatched

/-- What wslay could not send without blocking is not waited for either: it reports that all is well. -/
theorem blocked_not_progresses :
    letI : Nettle := ⟨id, id⟩
    ∃ events : List WsClientEvent,
      let c := events.foldl WsClientEvent.step (.new ⟨ascii "near", 2810⟩ .httpClient)
      c.fd = some 3 ∧ c.wsstate = .ws ∧ c.queued = [[1]] ∧ c.writeWatcher = false ∧
        ¬ c.Progresses := by
  let : Nettle := ⟨id, id⟩
  refine ⟨[.send [1] (.opened 3 true) {}, .canWrite [75] (.sent 1000) {},
    .canRead (.received (upgradeReply (create_acceptkey [75]))) true {} []],
    ?_⟩
  intro c
  have hrun : c.fd = some 3 ∧ c.wsstate = .ws ∧ c.queued = [[1]] ∧ c.writeWatcher = false := by
    decide +kernel
  obtain ⟨hfd, hws, hqueued, hwatcher⟩ := hrun
  refine ⟨hfd, hws, hqueued, hwatcher, fun h => ?_⟩
  have hwatched := h.queue (by rw [hfd]; exact Option.some_ne_none 3) hws
    (by rw [hqueued]; exact List.cons_ne_nil _ _)
  rw [hwatcher] at hwatched
  cases hwatched

end Corba
