/-
Connections over WebSockets.

`WsConnection` of `src/corba/net/ws/connection.cc` begins with an HTTP request that asks for the
upgrade, and hands everything else to wslay, which comes from outside of the repository, as does the
library that computes the keys of the upgrade.  What wslay answers is an input, as is what the
operating system does.  A context that has not been initialised must not be used, so the calls of
wslay are recorded.

Main definitions:

* `Corba.Nettle`, `Corba.create_acceptkey` — the keys;
* `Corba.WsConnection` — the connection;
* `Corba.WsConnection.send`, `up`, `accept`, `canWrite`, `canRead`, `timer` — its functions;
* `Corba.WsEvent`, `Corba.WsConnection.step` — what happens to a connection;
* `Corba.WsConnection.Upgraded` — wslay has only been used after the upgrade;
* `Corba.WsConnection.SendsInTime`, `Corba.WsConnection.InitSucceeds` — nothing is sent before the
  upgrade, and it succeeds.

Main results:

* `Corba.WsConnection.step_contexted` — an upgraded connection has got a context;
* `Corba.WsConnection.step_upgraded_iff` — which steps use wslay too early;
* `Corba.upgraded_always_iff` — wslay is only used after the upgrade exactly in the runs without such
  steps.
-/

import Corba.Runs
import Corba.TcpConnection

set_option relaxedAutoImplicit false
set_option autoImplicit false

namespace Corba

open Layout Exec

/-! ### The upgrade -/

/-- The functions of nettle the keys are made with. -/
class Nettle where
  sha1 : Octets → Octets
  base64 : Octets → Octets

def create_acceptkey [Nettle] (clientkey : Octets) : Octets :=
  Nettle.base64 (Nettle.sha1 (clientkey ++ ascii "258EAFA5-E914-47DA-95CA-C5AB0DC85B11"))

/-- `headers.find(text)`. -/
def find (text : Octets) : Octets → Option ℕ
  | [] => if text = [] then some 0 else none
  | x :: xs => if text <+: x :: xs then some 0 else (find text xs).map (· + 1)

/-- What stands behind the name of a header up to the end of the line. -/
def headerValue (name headers : Octets) : Option Octets :=
  (find name headers).map fun start =>
    let rest := headers.drop (start + name.length)
    match find (ascii "\r\n") rest with
    | some n => rest.take n
    | none => rest

/-- The request of a client. -/
def upgradeRequest (protocolLocal : HostAndPort) (key : Octets) : Octets :=
  ascii "GET / HTTP/1.1\r\nHost: " ++ protocolLocal.host ++ ascii ":" ++
    ascii (toString protocolLocal.port.toNat) ++ ascii "\r\nUpgrade: websocket\r\n" ++
    ascii "Connection: Upgrade\r\nSec-WebSocket-Key: " ++ key ++
    ascii "\r\nSec-WebSocket-Version: 13\r\n\r\n"

/-- The answer of a server. -/
def upgradeReply (acceptKey : Octets) : Octets :=
  ascii "HTTP/1.1 101 Switching Protocols\r\nUpgrade: websocket\r\nConnection: Upgrade\r\n" ++
    ascii "Sec-WebSocket-Accept: " ++ acceptKey ++ ascii "\r\n\r\n"

/-- What has been taken of some octets. -/
def SendResult.taken (octets : Octets) : SendResult → Octets
  | .sent n => octets.take n
  | _ => []

/-! ### The connection -/

inductive WsConnectionState where
  | httpServer | httpClient | ws
  deriving DecidableEq, Repr

/-- The messages a context of wslay has taken and not sent yet. -/
structure WslayContext where
  queue : List Octets := []
  deriving DecidableEq, Repr

inductive WslayCall where
  | queueMsg | eventSend | eventRecv
  deriving DecidableEq, Repr

/-- A call of wslay: what the state of the upgrade is, and whether there is a context. -/
structure WslayUse where
  call : WslayCall
  wsstate : WsConnectionState
  initialized : Bool
  deriving DecidableEq, Repr

/-- `WsConnection`, without the part that is used by calls.  `timerRunning` is what the event loop
knows of the timer.  The sockets, with what has been written to them for the upgrade, and the calls
of wslay are a record. -/
structure WsConnection where
  protocolLocal : HostAndPort
  wsstate : WsConnectionState
  state : ConnectionState := .idle
  fd : Option ℕ := none
  readWatcher : Bool := false
  writeWatcher : Bool := false
  timerActive : Bool := false
  timerRunning : Bool := false
  headers : Octets := []
  client_key : Octets := []
  ctx : Option WslayContext := none
  sendBuffer : List Octets := []
  sockets : List Socket := []
  uses : List WslayUse := []
  deriving DecidableEq, Repr

abbrev WsM := EStateM Fault WsConnection

/-- What wslay answers while it is given messages and sends them: what `wslay_event_queue_msg`
returns for each of them, what `wslay_event_send` returns, and how many have been sent. -/
structure WslayAnswer where
  queueMsg : ℕ → ℤ := fun _ => 0
  eventSend : ℤ := 0
  sent : ℕ := 0

namespace WsConnection

/-- A new connection.  `connectOutgoing` makes clients and `connectIncoming` servers, which it then
lets accept the client. -/
def new (protocolLocal : HostAndPort) (initialState : WsConnectionState) : WsConnection :=
  { protocolLocal, wsstate := initialState }

/-- `::close(fd); fd = -1;` -/
def closed (c : WsConnection) : WsConnection :=
  { c with fd := none, sockets := c.sockets.modifyHead ({ · with closed := true }) }

/-- Something is written to the socket by the connection itself. -/
def wrote (octets : Octets) (c : WsConnection) : WsConnection :=
  { c with
    sockets := c.sockets.modifyHead fun k => { k with written := k.written ++ octets } }

/-- The connection has got a socket, and `ev_io_init` has been called for both watchers. -/
def attached (fd : ℕ) (incoming : Bool) (c : WsConnection) : WsConnection :=
  { c with
    fd := some fd
    readWatcher := false
    writeWatcher := false
    sockets := { incoming } :: c.sockets }

def startReadHandler : WsM Unit := modify ({ · with readWatcher := true })

def stopReadHandler : WsM Unit := modify ({ · with readWatcher := false })

def startWriteHandler : WsM Unit := modify ({ · with writeWatcher := true })

def stopWriteHandler : WsM Unit := modify ({ · with writeWatcher := false })

def startTimer : WsM Unit := do
  if !(← get).timerActive then
    modify ({ · with timerActive := true, timerRunning := true })

/-! ### wslay -/

def use (call : WslayCall) : WsM Unit :=
  modify fun c => { c with uses := c.uses ++ [⟨call, c.wsstate, c.ctx.isSome⟩] }

/-- `wslay_event_queue_msg` for all packets, the first of which has a number. -/
def queueMsgs (answer : WslayAnswer) : List Octets → ℕ → WsM Unit
  | [], _ => return
  | packet :: packets, n => do
      use .queueMsg
      if answer.queueMsg n = 0 then
        modify fun c => { c with ctx := c.ctx.map fun ctx => ⟨ctx.queue ++ [packet]⟩ }
      queueMsgs answer packets (n + 1)

def eventSend (answer : WslayAnswer) : WsM ℤ := do
  use .eventSend
  modify fun c => { c with ctx := c.ctx.map fun ctx => ⟨ctx.queue.drop answer.sent⟩ }
  return answer.eventSend

def flushSendBuffer (answer : WslayAnswer) : WsM Unit := do
  let c ← get
  if c.sendBuffer ≠ [] then
    queueMsgs answer c.sendBuffer 0
    let r ← eventSend answer
    modify ({ · with sendBuffer := [] })
    if r ≠ 0 then
      startWriteHandler

/-! ### The functions of the connection -/

def up (connect : ConnectResult) : WsM Unit := do
  if (← get).fd.isNone then
    match connect with
    | .failed peer error =>
        modify ({ · with state := .pending })
        throw (.thrown (.runtimeError ("WsConnection()::up(): " ++ peer ++ ": " ++ error)))
    | .opened fd inProgress =>
        modify (attached fd false)
        startTimer
        if inProgress then
          modify ({ · with state := .inprogress })
          startWriteHandler
        else
          modify ({ · with state := .established })
        startReadHandler

def accept (client : ℕ) : WsM Unit := do
  if (← get).fd.isSome then
    throw (.thrown (.runtimeError "WsConnection::accept(int fd): fd is already set"))
  modify (attached client true)
  startReadHandler
  modify ({ · with state := .established })

def send (packet : Octets) (connect : ConnectResult) (answer : WslayAnswer) : WsM Unit := do
  modify fun c => { c with sendBuffer := c.sendBuffer ++ [packet] }
  match (← get).state with
  | .idle => up connect
  | .pending => return
  | .inprogress => return
  | .established => flushSendBuffer answer

/-- The request has to be taken as a whole. -/
def httpClientSend (key : Octets) (result : SendResult) : WsM Unit := do
  modify ({ · with client_key := key })
  let c ← get
  let request := upgradeRequest c.protocolLocal key
  match if c.fd.isSome then result else .failed with
  | .sent n =>
      modify (wrote (request.take n))
      if n < request.length then
        throw (.thrown (.runtimeError "failed"))
  | _ => throw (.thrown (.runtimeError "failed"))

/-- What has been received is put at the end of the headers.  It ends with whether they are
complete. -/
def httpRcvd (result : RecvResult) : WsM Bool := do
  match if (← get).fd.isSome then result else .failed with
  | .received octets =>
      modify fun c => { c with headers := c.headers ++ octets.take 8192 }
      return (find (ascii "\r\n\r\n") (← get).headers).isSome
  | _ => return false

/-- Whether there is enough memory for a context is an input. -/
def startWSMode (initialized : Bool) (answer : WslayAnswer) : WsM Unit := do
  if initialized then
    modify ({ · with ctx := some {} })
  modify ({ · with headers := [], wsstate := .ws })
  flushSendBuffer answer

section Upgrade

variable [Nettle]

/-- The key of a request that asks for the upgrade. -/
def requestKey (headers : Octets) : Option Octets :=
  if (find (ascii "Upgrade: websocket\r\n") headers).isSome ∧
      (find (ascii "Connection: Upgrade\r\n") headers).isSome then
    headerValue (ascii "Sec-WebSocket-Key: ") headers
  else none

/-- It does not matter how much of the reply is taken. -/
def httpServerRcvd (result : RecvResult) (reply : SendResult) (initialized : Bool)
    (answer : WslayAnswer) : WsM Unit := do
  if ← httpRcvd result then
    match requestKey (← get).headers with
    | none => return
    | some key =>
        modify (wrote (reply.taken (upgradeReply (create_acceptkey key))))
        startWSMode initialized answer

def httpClientRcvd (result : RecvResult) (initialized : Bool) (answer : WslayAnswer) :
    WsM Unit := do
  if ← httpRcvd result then
    let c ← get
    if headerValue (ascii "Sec-WebSocket-Accept: ") c.headers =
        some (create_acceptkey c.client_key) then
      startWSMode initialized answer

/-- What `wslay_event_recv` hands on is handled afterwards. -/
def canRead (result : RecvResult) (reply : SendResult) (initialized : Bool)
    (answer : WslayAnswer) : WsM Unit := do
  match (← get).wsstate with
  | .httpServer => httpServerRcvd result reply initialized answer
  | .httpClient => httpClientRcvd result initialized answer
  | .ws => use .eventRecv

end Upgrade

def canWrite (key : Octets) (result : SendResult) (answer : WslayAnswer) : WsM Unit := do
  if (← get).state = .inprogress then
    modify ({ · with state := .established })
  match (← get).wsstate with
  | .httpClient =>
      stopWriteHandler
      httpClientSend key result
  | .httpServer => return
  | .ws =>
      let r ← eventSend answer
      if r = 0 then
        stopWriteHandler

/-- The callers that are parked are resumed with the exception it ends with. -/
def timer : WsM (Option SystemException) := do
  modify ({ · with timerRunning := false })
  if (← get).state = .inprogress then
    stopReadHandler
    modify closed
    modify ({ · with state := .idle })
    return some ⟨.timeout, 0, .no⟩
  return none

end WsConnection

/-! ### What happens to a connection -/

/-- What is called, and what the operating system, wslay and the source of random keys answer
meanwhile. -/
inductive WsEvent where
  | send (packet : Octets) (connect : ConnectResult) (answer : WslayAnswer)
  | up (connect : ConnectResult)
  | accept (client : ℕ)
  | canWrite (key : Octets) (result : SendResult) (answer : WslayAnswer)
  | canRead (result : RecvResult) (reply : SendResult) (initialized : Bool) (answer : WslayAnswer)
  | timer

namespace WsConnection

section Step

variable [Nettle]

/-- The connection after the call.  An exception leaves it as it is at that point. -/
def step (c : WsConnection) : WsEvent → WsConnection
  | .send packet connect answer => State (send packet connect answer c)
  | .up connect => State (up connect c)
  | .accept client => State (accept client c)
  | .canWrite key result answer => State (canWrite key result answer c)
  | .canRead result reply initialized answer => State (canRead result reply initialized answer c)
  | .timer => State (timer c)

end Step

/-- The connection has been upgraded, and there is a context. -/
def Ready (c : WsConnection) : Prop := c.wsstate = .ws ∧ c.ctx.isSome = true

/-- Once the connection has been upgraded, there is a context. -/
def Contexted (c : WsConnection) : Prop := c.wsstate = .ws → c.ctx.isSome = true

/-- **wslay has only been used after the upgrade**, and with a context. -/
def Upgraded (c : WsConnection) : Prop :=
  ∀ u ∈ c.uses, u.wsstate = .ws ∧ u.initialized = true

theorem Upgraded.congr {c c' : WsConnection} (h : c.Upgraded) (huses : c'.uses = c.uses) :
    c'.Upgraded := by
  rw [Upgraded, huses]
  exact h

theorem Contexted.congr {c c' : WsConnection} (h : c.Contexted) (hwsstate : c'.wsstate = c.wsstate)
    (hctx : c'.ctx = c.ctx) : c'.Contexted := by
  rw [Contexted, hwsstate, hctx]
  exact h

theorem Contexted.ready_iff {c : WsConnection} (h : c.Contexted) : c.Ready ↔ c.wsstate = .ws :=
  and_iff_left_of_imp h

/-! ### Using wslay -/

/-- wslay has only been used after the upgrade, and can be used. -/
def Usable (c : WsConnection) : Prop := c.Upgraded ∧ c.Ready

theorem usable_use (call : WslayCall) : Preserves Usable (use call) := by
  intro c h
  refine ⟨fun u hu => ?_, h.2⟩
  rcases List.mem_append.1 hu with hu | hu
  · exact h.1 u hu
  · obtain rfl := List.mem_singleton.1 hu
    exact h.2

theorem mem_use (call : WslayCall) (u : WslayUse) :
    Preserves (fun c => u ∈ c.uses) (use call) := fun _ h => List.mem_append_left _ h

/-- What a use of wslay keeps is kept when packets are handed to it. -/
theorem preserves_queueMsgs {P : WsConnection → Prop} (huse : ∀ call, Preserves P (use call))
    (hctx : ∀ c f, P c → P { c with ctx := c.ctx.map f }) (answer : WslayAnswer)
    (packets : List Octets) (n : ℕ) : Preserves P (queueMsgs answer packets n) := by
  induction packets generalizing n with
  | nil => exact Preserves.pure _
  | cons packet packets ih =>
      rw [queueMsgs]
      refine (huse _).bind fun _ => ?_
      dsimp only
      split
      · exact (Preserves.modify fun c h => hctx c _ h).bind fun _ => ih _
      · exact ih _

theorem preserves_eventSend {P : WsConnection → Prop} (huse : ∀ call, Preserves P (use call))
    (hctx : ∀ c f, P c → P { c with ctx := c.ctx.map f }) (answer : WslayAnswer) :
    Preserves P (eventSend answer) :=
  (huse _).bind fun _ => (Preserves.modify fun c h => hctx c _ h).bind fun _ => Preserves.pure _

theorem preserves_flushSendBuffer {P : WsConnection → Prop}
    (huse : ∀ call, Preserves P (use call))
    (hctx : ∀ c f, P c → P { c with ctx := c.ctx.map f })
    (hbuffer : ∀ c, P c → P { c with sendBuffer := [] })
    (hwatcher : ∀ c, P c → P { c with writeWatcher := true }) (answer : WslayAnswer) :
    Preserves P (flushSendBuffer answer) := by
  refine Preserves.get_bind fun c _ => ?_
  split
  · refine (preserves_queueMsgs huse hctx answer _ _).bind fun _ => ?_
    refine (preserves_eventSend huse hctx answer).bind fun r => ?_
    refine (Preserves.modify hbuffer).bind fun _ => ?_
    split
    · exact Preserves.modify hwatcher
    · exact Preserves.pure _
  · exact Preserves.pure _

theorem usable_map {c : WsConnection} (h : c.Usable) (f : WslayContext → WslayContext) :
    ({ c with ctx := c.ctx.map f } : WsConnection).Usable :=
  ⟨h.1, h.2.1, (Option.isSome_map ..).trans h.2.2⟩

theorem usable_flushSendBuffer (answer : WslayAnswer) : Preserves Usable (flushSendBuffer answer) :=
  preserves_flushSendBuffer usable_use (fun _ f h => usable_map h f) (fun _ h => h) (fun _ h => h)
    answer

/-- A use of wslay. -/
theorem use_upgraded_iff {c : WsConnection} (h : c.Upgraded) (call : WslayCall) :
    (State (use call c)).Upgraded ↔ c.Ready := by
  constructor
  · intro hused
    exact hused ⟨call, c.wsstate, c.ctx.isSome⟩ (List.mem_append_right _ (List.mem_singleton_self _))
  · intro hready
    exact (usable_use call c ⟨h, hready⟩).1

theorem eventSend_upgraded_iff {c : WsConnection} (h : c.Upgraded) (answer : WslayAnswer) :
    (State (eventSend answer c)).Upgraded ↔ c.Ready := use_upgraded_iff h .eventSend

/-- When there is something to be sent, wslay is used. -/
theorem use_mem_flushSendBuffer {c : WsConnection} (hbuffer : c.sendBuffer ≠ [])
    (answer : WslayAnswer) :
    ⟨.queueMsg, c.wsstate, c.ctx.isSome⟩ ∈ (State (flushSendBuffer answer c)).uses := by
  obtain ⟨packet, packets, hpackets⟩ := List.exists_cons_of_ne_nil hbuffer
  rw [flushSendBuffer, get_bind, if_pos hbuffer, hpackets]
  refine Preserves.after (P := fun c' : WsConnection => _ ∈ c'.uses) (fun _ => ?_) ?_
  · refine (preserves_eventSend (mem_use · _) (fun _ _ h => h) answer).bind fun r => ?_
    refine (Preserves.modify fun _ h => by exact h).bind fun _ => ?_
    split
    · exact Preserves.modify fun _ h => h
    · exact Preserves.pure _
  · rw [queueMsgs]
    refine Preserves.after (P := fun c' : WsConnection => _ ∈ c'.uses) (fun _ => ?_) ?_
    · dsimp only
      split
      · refine (Preserves.modify fun _ h => by exact h).bind fun _ => ?_
        exact preserves_queueMsgs (mem_use · _) (fun _ _ h => h) answer _ _
      · exact preserves_queueMsgs (mem_use · _) (fun _ _ h => h) answer _ _
    · exact List.mem_append_right _ (List.mem_singleton_self _)

theorem flushSendBuffer_upgraded_iff {c : WsConnection} (h : c.Upgraded) (answer : WslayAnswer) :
    (State (flushSendBuffer answer c)).Upgraded ↔ (c.sendBuffer ≠ [] → c.Ready) := by
  constructor
  · intro hflushed hbuffer
    exact hflushed _ (use_mem_flushSendBuffer hbuffer answer)
  · intro hready
    by_cases hbuffer : c.sendBuffer = []
    · rw [flushSendBuffer, get_bind, if_neg (by simpa using hbuffer)]
      exact h
    · exact (usable_flushSendBuffer answer c ⟨h, hready hbuffer⟩).1

/-! ### Steps that use wslay -/

/-- wslay has not been used, and the upgrade is where it has been. -/
structure Unused (c c' : WsConnection) : Prop where
  uses : c'.uses = c.uses
  wsstate : c'.wsstate = c.wsstate
  ctx : c'.ctx = c.ctx

theorem Unused.upgraded {c c' : WsConnection} (h : Unused c c') (hc : c.Upgraded) : c'.Upgraded :=
  hc.congr h.uses

theorem Unused.contexted {c c' : WsConnection} (h : Unused c c') (hc : c.Contexted) :
    c'.Contexted := hc.congr h.wsstate h.ctx

theorem up_unused (connect : ConnectResult) (c : WsConnection) : Unused c (State (up connect c)) := by
  obtain ⟨l, upgrade, state, fd, r, w, active, running, headers, key, ctx, buffer, sockets, uses⟩ := c
  cases fd with
  | some fd => cases connect <;> exact ⟨rfl, rfl, rfl⟩
  | none =>
      cases connect with
      | failed peer error => exact ⟨rfl, rfl, rfl⟩
      | opened fd inProgress => cases inProgress <;> cases active <;> exact ⟨rfl, rfl, rfl⟩

theorem accept_unused (client : ℕ) (c : WsConnection) : Unused c (State (accept client c)) := by
  obtain ⟨l, upgrade, state, fd, r, w, active, running, headers, key, ctx, buffer, sockets, uses⟩ := c
  cases fd <;> exact ⟨rfl, rfl, rfl⟩

theorem timer_unused (c : WsConnection) : Unused c (State (timer c)) := by
  obtain ⟨l, upgrade, state, fd, r, w, active, running, headers, key, ctx, buffer, sockets, uses⟩ := c
  cases state <;> exact ⟨rfl, rfl, rfl⟩

theorem httpClientSend_unused (key : Octets) (result : SendResult) (c : WsConnection) :
    Unused c (State (httpClientSend key result c)) := by
  have hkeep : Preserves (Unused c) (httpClientSend key result) := by
    refine (Preserves.modify fun _ h => ⟨h.uses, h.wsstate, h.ctx⟩).bind fun _ =>
      Preserves.get_bind fun c' _ => ?_
    dsimp only
    split
    · refine (Preserves.modify fun _ h => ⟨h.uses, h.wsstate, h.ctx⟩).bind fun _ => ?_
      split
      · exact Preserves.throw _
      · exact Preserves.pure _
    · exact Preserves.throw _
  exact hkeep c ⟨rfl, rfl, rfl⟩

/-- Being handed packets, wslay keeps its context. -/
theorem contexted_flushSendBuffer (answer : WslayAnswer) :
    Preserves Contexted (flushSendBuffer answer) :=
  preserves_flushSendBuffer (fun _ _ h => h)
    (fun _ _ h hws => (Option.isSome_map ..).trans (h hws)) (fun _ h => h) (fun _ h => h) answer

/-- The connection after something has been received. -/
def headed (octets : Octets) (c : WsConnection) : WsConnection :=
  { c with headers := c.headers ++ octets.take 8192 }

/-- The headers are complete. -/
def Complete (c : WsConnection) : Prop := (find (ascii "\r\n\r\n") c.headers).isSome = true

theorem httpRcvd_received {c : WsConnection} (h : c.fd ≠ none) (octets : Octets) :
    httpRcvd (.received octets) c =
      .ok (find (ascii "\r\n\r\n") (c.headed octets).headers).isSome (c.headed octets) := by
  obtain ⟨l, upgrade, state, fd, r, w, active, running, headers, key, ctx, buffer, sockets, uses⟩ := c
  cases fd with
  | none => exact absurd rfl h
  | some fd => rfl

theorem httpRcvd_nothing {c : WsConnection} {result : RecvResult}
    (h : ∀ octets, c.fd ≠ none → result ≠ .received octets) :
    httpRcvd result c = .ok false c := by
  obtain ⟨l, upgrade, state, fd, r, w, active, running, headers, key, ctx, buffer, sockets, uses⟩ := c
  cases fd with
  | none => rfl
  | some fd =>
      cases result with
      | received octets => exact absurd rfl (h octets (Option.some_ne_none fd))
      | _ => rfl

/-- The connection in the moment of the upgrade. -/
def switched (initialized : Bool) (c : WsConnection) : WsConnection :=
  { c with ctx := if initialized then some {} else c.ctx, headers := [], wsstate := .ws }

theorem startWSMode_run (initialized : Bool) (answer : WslayAnswer) (c : WsConnection) :
    startWSMode initialized answer c = flushSendBuffer answer (c.switched initialized) := by
  cases initialized <;> rfl

/-- A connection is upgraded with a context, if wslay has had the memory for it. -/
theorem switched_contexted (c : WsConnection) : (c.switched true).Contexted := fun _ => rfl

theorem startWSMode_upgraded {c : WsConnection} (h : c.Upgraded) (answer : WslayAnswer) :
    (State (startWSMode true answer c)).Upgraded := by
  rw [startWSMode_run, flushSendBuffer_upgraded_iff (by exact h)]
  intro _
  exact ⟨rfl, rfl⟩

theorem startWSMode_contexted (answer : WslayAnswer) (c : WsConnection) :
    (State (startWSMode true answer c)).Contexted := by
  rw [startWSMode_run]
  exact contexted_flushSendBuffer answer _ c.switched_contexted

section Step

variable [Nettle]

/-- The headers ask for the upgrade, or grant it. -/
def Granted (c : WsConnection) : Prop :=
  match c.wsstate with
  | .httpServer => (requestKey c.headers).isSome = true
  | .httpClient =>
      headerValue (ascii "Sec-WebSocket-Accept: ") c.headers = some (create_acceptkey c.client_key)
  | .ws => False

/-- What is received completes the upgrade. -/
def Completes (c : WsConnection) (result : RecvResult) : Prop :=
  c.fd ≠ none ∧ ∃ octets, result = .received octets ∧ (c.headed octets).Complete ∧
    (c.headed octets).Granted

section Reading

variable {P : WsConnection → Prop} {c : WsConnection}

/-- What is received keeps what the headers do not matter for, and what is done with complete headers
keeps. -/
theorem httpRcvd_keeps (hheaded : ∀ c octets, P c → P (c.headed octets)) (h : P c)
    {next : WsM Unit} {result : RecvResult}
    (hnext : ∀ octets, ((c.headed octets).Granted → c.Completes result) →
      P (State (next (c.headed octets)))) :
    P (State ((do if ← httpRcvd result then next : WsM Unit) c)) := by
  by_cases hreceived : c.fd ≠ none ∧ ∃ octets, result = .received octets
  · obtain ⟨hfd, octets, rfl⟩ := hreceived
    rw [bind_ok (httpRcvd_received hfd octets)]
    split
    · rename_i hcomplete
      exact hnext octets fun hgranted => ⟨hfd, octets, rfl, hcomplete, hgranted⟩
    · exact hheaded c octets h
  · have hnothing : ∀ octets, c.fd ≠ none → result ≠ .received octets :=
      fun octets hfd heq => hreceived ⟨hfd, octets, heq⟩
    rw [bind_ok (httpRcvd_nothing hnothing)]
    exact h

variable (hheaded : ∀ c octets, P c → P (c.headed octets))
  (hstart : ∀ c answer, P c → P (State (startWSMode true answer c))) (h : P c)
  {result : RecvResult} {initialized : Bool} (hinit : c.Completes result → initialized = true)
  (answer : WslayAnswer)

include hheaded hstart h hinit

theorem httpClientRcvd_keeps (hstate : c.wsstate = .httpClient) :
    P (State (httpClientRcvd result initialized answer c)) := by
  refine httpRcvd_keeps hheaded h fun octets hcompletes => ?_
  have hgranted : (c.headed octets).Granted ↔ headerValue (ascii "Sec-WebSocket-Accept: ")
      (c.headed octets).headers = some (create_acceptkey (c.headed octets).client_key) := by
    rw [Granted, show (c.headed octets).wsstate = _ from hstate]
  rw [get_bind]
  split
  · rename_i hkey
    rw [hinit (hcompletes (hgranted.2 hkey))]
    exact hstart _ answer (hheaded c octets h)
  · exact hheaded c octets h

variable (hwrote : ∀ c octets, P c → P (c.wrote octets)) (reply : SendResult)

include hwrote

theorem httpServerRcvd_keeps (hstate : c.wsstate = .httpServer) :
    P (State (httpServerRcvd result reply initialized answer c)) := by
  refine httpRcvd_keeps hheaded h fun octets hcompletes => ?_
  have hgranted : (c.headed octets).Granted ↔
      (requestKey (c.headed octets).headers).isSome = true := by
    rw [Granted, show (c.headed octets).wsstate = _ from hstate]
  rw [get_bind]
  cases hkey : requestKey (c.headed octets).headers with
  | none => exact hheaded c octets h
  | some key =>
      rw [hinit (hcompletes (hgranted.2 (by rw [hkey]; rfl)))]
      exact hstart _ answer (hwrote _ _ (hheaded c octets h))

/-- What an end that is not upgraded yet keeps when it reads. -/
theorem canRead_keeps (hws : c.wsstate ≠ .ws) :
    P (State (canRead result reply initialized answer c)) := by
  rw [canRead, get_bind]
  cases hstate : c.wsstate with
  | httpServer =>
      exact httpServerRcvd_keeps hheaded hstart h hinit answer hwrote reply hstate
  | httpClient => exact httpClientRcvd_keeps hheaded hstart h hinit answer hstate
  | ws => exact absurd hstate hws

end Reading

/-- A read that completes the upgrade sets up a context, if wslay has the memory for it. -/
theorem canRead_contexted {c : WsConnection} (h : c.Contexted) {result : RecvResult}
    {initialized : Bool} (hinit : c.Completes result → initialized = true) (reply : SendResult)
    (answer : WslayAnswer) : (State (canRead result reply initialized answer c)).Contexted := by
  by_cases hws : c.wsstate = .ws
  · rw [canRead, get_bind, hws]
    exact h
  · exact canRead_keeps (P := Contexted) (fun _ _ h => h)
      (fun c answer _ => startWSMode_contexted answer c) h hinit answer (fun _ _ h => h) reply hws

theorem canRead_upgraded {c : WsConnection} (h : c.Upgraded) (hctx : c.Contexted)
    {result : RecvResult} {initialized : Bool} (hinit : c.Completes result → initialized = true)
    (reply : SendResult) (answer : WslayAnswer) :
    (State (canRead result reply initialized answer c)).Upgraded := by
  by_cases hws : c.wsstate = .ws
  · rw [canRead, get_bind, hws]
    exact (use_upgraded_iff h .eventRecv).2 (hctx.ready_iff.2 hws)
  · exact canRead_keeps (P := Upgraded) (fun _ _ h => h)
      (fun _ answer h => startWSMode_upgraded h answer) h hinit answer (fun _ _ h => h) reply hws

omit [Nettle] in
/-- What is kept by a step that asks for the upgrade, and by the use of wslay after it, is kept when
the socket can be written to. -/
theorem canWrite_keeps {P : WsConnection → Prop} (hunused : ∀ c c', Unused c c' → P c → P c')
    (hsent : ∀ answer c, c.wsstate = .ws → P c → P (State (eventSend answer c)))
    {c : WsConnection} (h : P c) (key : Octets) (result : SendResult) (answer : WslayAnswer) :
    P (State (canWrite key result answer c)) := by
  have hrest : ∀ c' : WsConnection, P c' → P (State ((do
        match (← get).wsstate with
        | .httpClient =>
            stopWriteHandler
            httpClientSend key result
        | .httpServer => return
        | .ws =>
            let r ← eventSend answer
            if r = 0 then
              stopWriteHandler : WsM Unit) c')) := by
    intro c' h'
    rw [get_bind]
    cases hws : c'.wsstate with
    | httpServer => exact h'
    | httpClient =>
        refine hunused _ _ (httpClientSend_unused key result _) ?_
        exact hunused c' _ ⟨rfl, rfl, rfl⟩ h'
    | ws =>
        have hafter := hsent answer c' hws h'
        refine Preserves.after (P := P) (fun r => ?_) hafter
        split
        · exact Preserves.modify fun c h => hunused c _ ⟨rfl, rfl, rfl⟩ h
        · exact Preserves.pure _
  rw [canWrite, get_bind]
  split
  · exact hrest _ (hunused c _ ⟨rfl, rfl, rfl⟩ h)
  · exact hrest _ h

omit [Nettle] in
theorem eventSend_contexted {c : WsConnection} (h : c.Contexted) (answer : WslayAnswer) :
    (State (eventSend answer c)).Contexted :=
  preserves_eventSend (fun _ _ h => h) (fun _ _ h hws => (Option.isSome_map ..).trans (h hws)) answer
    c h

omit [Nettle] in
theorem canWrite_contexted {c : WsConnection} (h : c.Contexted) (key : Octets)
    (result : SendResult) (answer : WslayAnswer) :
    (State (canWrite key result answer c)).Contexted :=
  canWrite_keeps (fun _ _ hunused h => hunused.contexted h)
    (fun answer _ _ h => eventSend_contexted h answer) h key result answer

omit [Nettle] in
theorem canWrite_upgraded {c : WsConnection} (h : c.Upgraded) (hctx : c.Contexted) (key : Octets)
    (result : SendResult) (answer : WslayAnswer) :
    (State (canWrite key result answer c)).Upgraded := by
  refine (canWrite_keeps (P := fun c => c.Upgraded ∧ c.Contexted) ?_ ?_ ⟨h, hctx⟩ key result
    answer).1
  · rintro c c' hunused ⟨h, hctx⟩
    exact ⟨hunused.upgraded h, hunused.contexted hctx⟩
  · rintro answer c hws ⟨h, hctx⟩
    exact ⟨(eventSend_upgraded_iff h answer).2 (hctx.ready_iff.2 hws),
      eventSend_contexted hctx answer⟩

/-- The steps that leave the upgrade its time: nothing is sent on a connection that has been
established and is not upgraded yet. -/
def SendsInTime (c : WsConnection) : WsEvent → Prop
  | .send _ _ _ => c.state = .established → c.wsstate = .ws
  | _ => True

instance (c : WsConnection) : (event : WsEvent) → Decidable (c.SendsInTime event)
  | .send _ _ _ => inferInstanceAs (Decidable (c.state = .established → c.wsstate = .ws))
  | .up _ | .accept _ | .canWrite _ _ _ | .canRead _ _ _ _ | .timer => isTrue trivial

/-- wslay has the memory for a context when the upgrade is completed. -/
def InitSucceeds (c : WsConnection) : WsEvent → Prop
  | .canRead result _ initialized _ => c.Completes result → initialized = true
  | _ => True

/-- An upgraded connection has got a context in every state. -/
theorem step_contexted {c : WsConnection} (h : c.Contexted) {event : WsEvent}
    (hinit : c.InitSucceeds event) : (c.step event).Contexted := by
  cases event with
  | send packet connect answer =>
      rw [step, send, modify_bind, get_bind]
      cases c.state with
      | idle => exact (up_unused connect _).contexted h
      | pending => exact h
      | inprogress => exact h
      | established => exact contexted_flushSendBuffer answer _ h
  | up connect => exact (up_unused connect c).contexted h
  | accept client => exact (accept_unused client c).contexted h
  | canWrite key result answer => exact canWrite_contexted h key result answer
  | canRead result reply initialized answer => exact canRead_contexted h hinit reply answer
  | timer => exact (timer_unused c).contexted h

/-- **A step uses wslay only after the upgrade exactly when it leaves the upgrade its time.** -/
theorem step_upgraded_iff {c : WsConnection} (h : c.Upgraded) (hctx : c.Contexted) {event : WsEvent}
    (hinit : c.InitSucceeds event) : (c.step event).Upgraded ↔ c.SendsInTime event := by
  cases event with
  | send packet connect answer =>
      rw [step, send, modify_bind, get_bind, SendsInTime]
      cases hstate : c.state with
      | idle => exact iff_of_true ((up_unused connect _).upgraded h) nofun
      | pending => exact iff_of_true h nofun
      | inprogress => exact iff_of_true h nofun
      | established =>
          dsimp only
          rw [flushSendBuffer_upgraded_iff (by exact h)]
          constructor
          · intro hready _
            exact (hready (by simp)).1
          · intro hws _
            exact ⟨hws rfl, hctx (hws rfl)⟩
  | up connect => exact iff_of_true ((up_unused connect c).upgraded h) trivial
  | accept client => exact iff_of_true ((accept_unused client c).upgraded h) trivial
  | canWrite key result answer =>
      exact iff_of_true (canWrite_upgraded h hctx key result answer) trivial
  | canRead result reply initialized answer =>
      exact iff_of_true (canRead_upgraded h hctx hinit reply answer) trivial
  | timer => exact iff_of_true ((timer_unused c).upgraded h) trivial

end Step

end WsConnection

/-- **wslay is only used after the upgrade exactly when nothing is sent between the connection and the
upgrade**, if wslay has had the memory for its context.  This holds of clients and of servers. -/
theorem upgraded_always_iff [Nettle] (protocolLocal : HostAndPort)
    (initialState : WsConnectionState) (hinitial : initialState ≠ .ws) (events : List WsEvent)
    (hinit : Runs.Meets WsConnection.step WsConnection.InitSucceeds
      (.new protocolLocal initialState) events) :
    Runs.Always WsConnection.step WsConnection.Upgraded (.new protocolLocal initialState) events ↔
      Runs.Meets WsConnection.step WsConnection.SendsInTime (.new protocolLocal initialState)
        events :=
  Runs.always_iff_meets_given (I := WsConnection.Contexted)
    (fun _ _ h hinit => WsConnection.step_contexted h hinit)
    (fun _ _ hctx hinit h => WsConnection.step_upgraded_iff h hctx hinit)
    (fun hws => absurd hws hinitial) nofun hinit

/-- A client whose second packet is sent after the server has answered. -/
theorem upgraded_always_answered :
    letI : Nettle := ⟨id, id⟩
    let new : WsConnection := .new ⟨ascii "near", 2810⟩ .httpClient
    let events : List WsEvent := [.send [1] (.opened 3 true) {},
      .canWrite [75] (.sent (upgradeRequest ⟨ascii "near", 2810⟩ [75]).length) {},
      .canRead (.received (upgradeReply (create_acceptkey [75]))) .failed true {},
      .send [2] (.opened 4 true) {}]
    Runs.Always WsConnection.step WsConnection.Upgraded new events ∧
      (events.foldl WsConnection.step new).uses.length = 4 := by
  let : Nettle := ⟨id, id⟩
  refine ⟨(upgraded_always_iff _ _ (by decide) _ ?_).2 (by decide +kernel), by decide +kernel⟩
  simp [WsConnection.InitSucceeds]

/-- A client that has asked for the upgrade and not been answered yet sends a second packet. -/
theorem second_packet_before_upgrade :
    letI : Nettle := ⟨id, id⟩
    ∃ events : List WsEvent,
      let c := events.foldl WsConnection.step (.new ⟨ascii "near", 2810⟩ .httpClient)
      c.state = .established ∧ c.wsstate = .httpClient ∧ c.ctx = none ∧
        c.uses = [⟨.queueMsg, .httpClient, false⟩, ⟨.queueMsg, .httpClient, false⟩,
          ⟨.eventSend, .httpClient, false⟩] ∧ ¬ c.Upgraded := by
  let : Nettle := ⟨id, id⟩
  refine ⟨[.send [1] (.opened 3 true) {},
    .canWrite [75] (.sent (upgradeRequest ⟨ascii "near", 2810⟩ [75]).length) {},
    .send [2] (.opened 4 true) {}], by decide +kernel, by decide +kernel,
    by decide +kernel, by decide +kernel, fun h => ?_⟩
  exact absurd (h ⟨.queueMsg, .httpClient, false⟩ (by decide +kernel)).1 (by decide)

end Corba
