/-
The upgrade of both ends of a connection.

The client and the server are two machines with octets on their way between them.  Whatever else
happens to them meanwhile, and however the octets are cut, they must not disagree about the upgrade:
who writes frames to an end that still looks for headers has lost them.

Main definitions:

* `Corba.WsConnection.Undisturbed`, `Asks`, `Collects`, `Upgrades` — what a step does to the upgrade;
* `Corba.WsLink` — a client and its server;
* `Corba.WsLink.Permitted` — the steps of two ends that are connected;
* `Corba.WsLink.Agrees` — what both ends know of each other.

Main results:

* `Corba.WsConnection.step_cases` — a step does one of these;
* `Corba.WsLink.Inv.step` — every step keeps the ends in agreement;
* `Corba.upgrade_agreed` — they agree in every state of every run, and when nothing is on its way any
  more, both are upgraded or none of them is.
-/

import Corba.UpgradeTexts

set_option relaxedAutoImplicit false
set_option autoImplicit false

namespace Corba

open Layout Exec

/-! ### One end -/

namespace WsConnection

/-- The upgrade is where it has been. -/
structure Undisturbed (c c' : WsConnection) : Prop where
  protocolLocal : c'.protocolLocal = c.protocolLocal
  wsstate : c'.wsstate = c.wsstate
  headers : c'.headers = c.headers
  client_key : c'.client_key = c.client_key
  written : c'.written = c.written

/-- What holds of an end that has got at most one socket: without it nothing has happened, and while a
client waits for the socket to become writable, it has not asked for the upgrade yet. -/
structure SingleUse (c : WsConnection) : Prop where
  socket : c.fd ≠ none → c.sockets ≠ []
  fresh : c.fd = none →
    c.wsstate = .httpClient ∧ c.sockets = [] ∧ c.headers = [] ∧ c.writeWatcher = false
  once : c.wsstate = .httpClient → c.writeWatcher = true → c.written = []

/-- The steps of an end whose connection is made in time: nobody accepts a second client, the socket
is written to when it is waited for, and nothing is sent between the connection and the upgrade. -/
def Proper [Nettle] (c : WsConnection) (event : WsEvent) : Prop :=
  c.SendsInTime event ∧
    match event with
    | .accept _ => False
    | .canWrite _ _ _ => c.writeWatcher = true
    | .canRead result _ _ _ => ∀ octets, result = .received octets → octets.length ≤ 8192
    | .timer => c.state ≠ .inprogress
    | _ => True

theorem flushSendBuffer_frame (answer : WslayAnswer) (c : WsConnection) :
    ∃ ctx sendBuffer uses writeWatcher, State (flushSendBuffer answer c) =
      { c with ctx, sendBuffer, uses, writeWatcher } := by
  by_cases hbuffer : c.sendBuffer = []
  · refine ⟨c.ctx, c.sendBuffer, c.uses, c.writeWatcher, ?_⟩
    rw [flushSendBuffer, get_bind, if_neg (by simpa using hbuffer), pure_run, State_ok]
  · obtain ⟨uses, hqueue⟩ := queueMsgs_run answer c.sendBuffer 0 c
    rw [flushSendBuffer, get_bind, if_pos hbuffer, bind_ok hqueue]
    simp only [eventSend, use, modify_bind, pure_bind, bind_assoc]
    split
    · exact ⟨_, _, _, _, rfl⟩
    · exact ⟨_, _, _, _, rfl⟩

theorem httpClientSend_frame (key : Octets) (result : SendResult) (c : WsConnection) :
    ∃ sockets, State (httpClientSend key result c) = { c with client_key := key, sockets } := by
  obtain ⟨l, upgrade, state, fd, r, w, active, running, headers, k, ctx, buffer, sockets, uses⟩ := c
  cases fd with
  | none => exact ⟨_, rfl⟩
  | some fd =>
      cases result with
      | sent n =>
          rw [httpClientSend, modify_bind, get_bind]
          simp only [Option.isSome_some, if_true, modify_bind]
          split
          · exact ⟨_, rfl⟩
          · exact ⟨_, rfl⟩
      | epipe => exact ⟨_, rfl⟩
      | failed => exact ⟨_, rfl⟩

section Step

variable {c : WsConnection}

theorem Undisturbed.refl (c : WsConnection) : Undisturbed c c := ⟨rfl, rfl, rfl, rfl, rfl⟩

/-- A connection comes with a socket to which nothing has been written. -/
theorem SingleUse.up (h : c.SingleUse) (connect : ConnectResult) :
    (State (up connect c)).SingleUse ∧ Undisturbed c (State (WsConnection.up connect c)) := by
  by_cases hfd : c.fd = none
  · obtain ⟨hws, hsockets, hheaders, hwatcher⟩ := h.fresh hfd
    obtain ⟨l, upgrade, state, fd, r, w, active, running, headers, key, ctx, buffer, sockets,
      uses⟩ := c
    obtain rfl : fd = none := hfd
    obtain rfl : sockets = [] := hsockets
    cases connect with
    | failed peer error => exact ⟨⟨nofun, fun _ => ⟨hws, rfl, hheaders, hwatcher⟩, h.once⟩,
        rfl, rfl, rfl, rfl, rfl⟩
    | opened fd inProgress =>
        cases inProgress <;> cases active <;>
          exact ⟨⟨nofun, nofun, fun _ _ => rfl⟩, rfl, rfl, rfl, rfl, rfl⟩
  · rw [up_open hfd]
    exact ⟨h, .refl c⟩

theorem SingleUse.flush (h : c.SingleUse) (hws : c.wsstate = .ws) (answer : WslayAnswer) :
    (State (flushSendBuffer answer c)).SingleUse ∧
      Undisturbed c (State (flushSendBuffer answer c)) := by
  obtain ⟨ctx, sendBuffer, uses, writeWatcher, hrun⟩ := flushSendBuffer_frame answer c
  rw [hrun]
  refine ⟨⟨h.socket, fun hfd => ?_, fun hclient => ?_⟩, rfl, rfl, rfl, rfl, rfl⟩
  · exact absurd ((h.fresh hfd).1.symm.trans hws) (by simp)
  · exact absurd (Eq.symm hclient |>.trans hws) (by simp)

theorem SingleUse.send (h : c.SingleUse) {packet : Octets} {connect : ConnectResult}
    {answer : WslayAnswer} (hready : c.state = .established → c.wsstate = .ws) :
    (State (send packet connect answer c)).SingleUse ∧
      Undisturbed c (State (WsConnection.send packet connect answer c)) := by
  have hbuffered : (c.buffered packet).SingleUse := ⟨h.socket, h.fresh, h.once⟩
  obtain ⟨hidle, hwaiting, hestablished⟩ := send_run (c := c) packet connect answer
  cases hstate : c.state with
  | idle =>
      rw [hidle hstate]
      obtain ⟨hsingle, hsame⟩ := hbuffered.up connect
      exact ⟨hsingle, hsame.1, hsame.2, hsame.3, hsame.4, hsame.5⟩
  | pending =>
      rw [hwaiting (.inl hstate)]
      exact ⟨hbuffered, rfl, rfl, rfl, rfl, rfl⟩
  | inprogress =>
      rw [hwaiting (.inr hstate)]
      exact ⟨hbuffered, rfl, rfl, rfl, rfl, rfl⟩
  | established =>
      rw [hestablished hstate]
      obtain ⟨hsingle, hsame⟩ := hbuffered.flush (hready hstate) answer
      exact ⟨hsingle, hsame.1, hsame.2, hsame.3, hsame.4, hsame.5⟩

/-- A client has asked for the upgrade with this key, or with as much of the text as has been taken.
-/
structure Asks (key : Octets) (result : SendResult) (c c' : WsConnection) : Prop where
  client : c.wsstate = .httpClient
  first : c.written = []
  protocolLocal : c'.protocolLocal = c.protocolLocal
  wsstate : c'.wsstate = .httpClient
  headers : c'.headers = c.headers
  client_key : c'.client_key = key
  written : c'.written = result.taken (upgradeRequest c.protocolLocal key)

theorem SingleUse.canWrite (h : c.SingleUse) (hwatcher : c.writeWatcher = true) (key : Octets)
    (result : SendResult) (answer : WslayAnswer) :
    let c' := State (canWrite key result answer c)
    c'.SingleUse ∧ (Undisturbed c c' ∨ Asks key result c c') := by
  have hopen : c.fd ≠ none := by
    intro hfd
    have hnot := (h.fresh hfd).2.2.2
    rw [hwatcher] at hnot
    cases hnot
  obtain ⟨state, hclient, hws⟩ := canWrite_run (c := c) key result answer
  cases hstate : c.wsstate with
  | httpServer =>
      have hrun : ∃ state, State (WsConnection.canWrite key result answer c) = { c with state } := by
        obtain ⟨l, upgrade, state, fd, r, w, active, running, headers, k, ctx, buffer, sockets,
          uses⟩ := c
        obtain rfl : upgrade = .httpServer := hstate
        cases state <;> exact ⟨_, rfl⟩
      obtain ⟨state, hrun⟩ := hrun
      dsimp only
      rw [hrun]
      exact ⟨⟨h.socket, h.fresh, h.once⟩, .inl ⟨rfl, rfl, rfl, rfl, rfl⟩⟩
  | httpClient =>
      have hsocket := h.socket hopen
      have hfields := httpClientSend_fields (c := { c with state, writeWatcher := false }) hopen
        hsocket key result
      obtain ⟨sockets, hframe⟩ := httpClientSend_frame key result
        { c with state, writeWatcher := false }
      dsimp only at hfields ⊢
      rw [hclient hstate]
      obtain ⟨hfd, hws', hlocal, hkey, hwatcher', hwritten⟩ := hfields
      have hfirst := h.once hstate hwatcher
      have hwritten : _ = [] ++ result.taken (upgradeRequest c.protocolLocal key) :=
        hfirst ▸ hwritten
      refine ⟨⟨fun hyes => ?_, fun hnone => ?_, fun _ hyes => ?_⟩, .inr ⟨hstate, hfirst, hlocal,
        hws'.trans hstate, ?_, hkey, hwritten⟩⟩
      · exact (outgoing_httpClientSend key result { c with state, writeWatcher := false }
          ⟨by simp [hstate], h.socket⟩).socket hyes
      · rw [hfd] at hnone
        exact absurd hnone hopen
      · rw [hwatcher'] at hyes
        cases hyes
      · rw [hframe]
  | ws =>
      obtain ⟨uses, hrun⟩ := hws hstate
      dsimp only
      rw [hrun]
      refine ⟨⟨h.socket, fun hfd => absurd hfd hopen, fun hyes => ?_⟩, .inl ⟨rfl, rfl, rfl, rfl, rfl⟩⟩
      exact absurd (Eq.symm hyes |>.trans hstate) (by simp)

variable [Nettle]

/-- More of the headers has been received, and they are not complete yet, or not those that are waited
for. -/
structure Collects (octets : Octets) (c c' : WsConnection) : Prop where
  waiting : ¬ c.Completes (.received octets)
  after : c' = { c with headers := c.headers ++ octets }

/-- The end is upgraded. -/
structure Upgrades (octets : Octets) (reply : SendResult) (c c' : WsConnection) : Prop where
  completes : c.Completes (.received octets)
  protocolLocal : c'.protocolLocal = c.protocolLocal
  wsstate : c'.wsstate = .ws
  client_key : c'.client_key = c.client_key
  client : c.wsstate = .httpClient → c'.written = c.written
  server : c.wsstate = .httpServer → ∀ key, requestKey (c.headers ++ octets) = some key →
    c'.written = c.written ++ reply.taken (upgradeReply (create_acceptkey key))

theorem completes_request_iff (hws : c.wsstate = .httpServer) (hfd : c.fd ≠ none)
    (octets : Octets) :
    c.Completes (.received octets) ↔
      (c.headed octets).Complete ∧ (requestKey (c.headed octets).headers).isSome = true := by
  have hgranted : (c.headed octets).Granted ↔
      (requestKey (c.headed octets).headers).isSome = true := by
    rw [Granted, show (c.headed octets).wsstate = _ from hws]
  rw [← hgranted]
  constructor
  · rintro ⟨-, _, ⟨⟩, hyes⟩
    exact hyes
  · intro hyes
    exact ⟨hfd, octets, rfl, hyes⟩

theorem httpServerRcvd_received (hws : c.wsstate = .httpServer) (hfd : c.fd ≠ none)
    (octets : Octets) (reply : SendResult) (initialized : Bool) (answer : WslayAnswer) :
    (¬ c.Completes (.received octets) →
      State (httpServerRcvd (.received octets) reply initialized answer c) = c.headed octets) ∧
    (c.Completes (.received octets) → ∃ key, requestKey (c.headed octets).headers = some key ∧
      State (httpServerRcvd (.received octets) reply initialized answer c) =
        State (flushSendBuffer answer (((c.headed octets).wrote
          (reply.taken (upgradeReply (create_acceptkey key)))).switched initialized))) := by
  rw [completes_request_iff hws hfd, httpServerRcvd, bind_ok (httpRcvd_received hfd octets), Complete]
  constructor
  · intro hnot
    split
    · rename_i hcomplete
      rw [get_bind]
      cases hkey : requestKey (c.headed octets).headers with
      | none => rfl
      | some key => exact absurd ⟨hcomplete, by rw [hkey]; rfl⟩ hnot
    · rfl
  · rintro ⟨hcomplete, hyes⟩
    obtain ⟨key, hkey⟩ := Option.isSome_iff_exists.1 hyes
    refine ⟨key, hkey, ?_⟩
    rw [if_pos hcomplete, get_bind, hkey]
    dsimp only
    rw [modify_bind, startWSMode_run]

theorem httpServerRcvd_nothing {result : RecvResult}
    (h : ∀ octets, c.fd ≠ none → result ≠ .received octets) (reply : SendResult)
    (initialized : Bool) (answer : WslayAnswer) :
    State (httpServerRcvd result reply initialized answer c) = c := by
  rw [httpServerRcvd, bind_ok (httpRcvd_nothing h)]
  rfl

omit [Nettle] in
theorem written_wrote (hsocket : c.sockets ≠ []) (octets : Octets) :
    (c.wrote octets).written = c.written ++ octets ∧ (c.wrote octets).sockets ≠ [] := by
  obtain ⟨socket, sockets, hsockets⟩ := List.exists_cons_of_ne_nil hsocket
  simp [written, wrote, hsockets]

omit [Nettle] in
/-- After the upgrade, all that is asked of an end with a socket is that it has one. -/
theorem SingleUse.of_ws (hfd : c.fd ≠ none) (hsocket : c.sockets ≠ []) (hws : c.wsstate = .ws) :
    c.SingleUse :=
  ⟨fun _ => hsocket, fun hnone => absurd hnone hfd,
    fun hclient => absurd (hclient.symm.trans hws) (by simp)⟩

omit [Nettle] in
/-- One read takes all octets, when they fit in its buffer. -/
theorem headed_eq {octets : Octets} (hlength : octets.length ≤ 8192) (c : WsConnection) :
    c.headed octets = { c with headers := c.headers ++ octets } := by
  rw [headed, List.take_of_length_le hlength]

/-- What an end without the upgrade does with octets. -/
theorem SingleUse.received (h : c.SingleUse) (hfd : c.fd ≠ none) (hws : c.wsstate ≠ .ws)
    {octets : Octets} (hlength : octets.length ≤ 8192) (reply : SendResult) (initialized : Bool)
    (answer : WslayAnswer) :
    let c' := State (WsConnection.canRead (.received octets) reply initialized answer c)
    c'.SingleUse ∧ (Collects octets c c' ∨ Upgrades octets reply c c') := by
  have hheaded := headed_eq hlength c
  have hsocket := h.socket hfd
  have hcollects (hnot : ¬ c.Completes (.received octets)) :
      (c.headed octets).SingleUse ∧ (Collects octets c (c.headed octets) ∨
        Upgrades octets reply c (c.headed octets)) :=
    ⟨⟨h.socket, fun hnone => absurd hnone hfd, h.once⟩, .inl ⟨hnot, hheaded⟩⟩
  rw [WsConnection.canRead, get_bind]
  cases hstate : c.wsstate with
  | ws => exact absurd hstate hws
  | httpClient =>
      dsimp only
      obtain ⟨hyes, hno⟩ := httpClientRcvd_received hstate hfd octets initialized answer
      by_cases hcompletes : c.Completes (.received octets)
      · obtain ⟨ctx, sendBuffer, uses, writeWatcher, hrun⟩ :=
          flushSendBuffer_frame answer ((c.headed octets).switched initialized)
        rw [hyes hcompletes, hrun]
        refine ⟨.of_ws hfd hsocket rfl, .inr ⟨hcompletes, rfl, rfl, rfl, fun _ => rfl, ?_⟩⟩
        intro hserver
        rw [hstate] at hserver
        cases hserver
      · rw [hno hcompletes]
        exact hcollects hcompletes
  | httpServer =>
      dsimp only
      obtain ⟨hno, hyes⟩ := httpServerRcvd_received hstate hfd octets reply initialized answer
      by_cases hcompletes : c.Completes (.received octets)
      · obtain ⟨key, hkey, hupgraded⟩ := hyes hcompletes
        obtain ⟨ctx, sendBuffer, uses, writeWatcher, hrun⟩ := flushSendBuffer_frame answer
          (((c.headed octets).wrote
            (reply.taken (upgradeReply (create_acceptkey key)))).switched initialized)
        obtain ⟨hwritten, hsocket'⟩ := written_wrote (c := c.headed octets) hsocket
          (reply.taken (upgradeReply (create_acceptkey key)))
        rw [hupgraded, hrun]
        refine ⟨.of_ws hfd hsocket' rfl, .inr ⟨hcompletes, rfl, rfl, rfl, ?_, ?_⟩⟩
        · intro hclient
          rw [hstate] at hclient
          cases hclient
        · intro _ key' hkey'
          rw [hheaded] at hkey
          obtain rfl : key = key' := Option.some.inj (hkey.symm.trans hkey')
          exact hwritten
      · rw [hno hcompletes]
        exact hcollects hcompletes

theorem SingleUse.canRead (h : c.SingleUse) {result : RecvResult}
    (hlength : ∀ octets, result = .received octets → octets.length ≤ 8192) (reply : SendResult)
    (initialized : Bool) (answer : WslayAnswer) :
    let c' := State (WsConnection.canRead result reply initialized answer c)
    c'.SingleUse ∧ (Undisturbed c c' ∨ (c.wsstate ≠ .ws ∧ ∃ octets, result = .received octets ∧
      (Collects octets c c' ∨ Upgrades octets reply c c'))) := by
  by_cases hreceived : c.fd ≠ none ∧ c.wsstate ≠ .ws ∧ ∃ octets, result = .received octets
  · obtain ⟨hfd, hws, octets, rfl⟩ := hreceived
    obtain ⟨hsingle, hcases⟩ := h.received hfd hws (hlength octets rfl) reply initialized answer
    exact ⟨hsingle, .inr ⟨hws, octets, rfl, hcases⟩⟩
  · have hnothing (hws : c.wsstate ≠ .ws) : ∀ octets, c.fd ≠ none → result ≠ .received octets :=
      fun octets hfd heq => hreceived ⟨hfd, hws, octets, heq⟩
    rw [WsConnection.canRead, get_bind]
    cases hstate : c.wsstate with
    | ws => exact ⟨⟨h.socket, h.fresh, h.once⟩, .inl ⟨rfl, rfl, rfl, rfl, rfl⟩⟩
    | httpClient =>
        dsimp only
        rw [httpClientRcvd_nothing (hnothing (by simp [hstate]))]
        exact ⟨h, .inl (.refl c)⟩
    | httpServer =>
        dsimp only
        rw [httpServerRcvd_nothing (hnothing (by simp [hstate]))]
        exact ⟨h, .inl (.refl c)⟩

/-- **What a step does to the upgrade**: nothing, or the client asks for it, or an end receives more
of the headers or the last of them. -/
theorem step_cases (h : c.SingleUse) {event : WsEvent} (hproper : c.Proper event) :
    (c.step event).SingleUse ∧ (Undisturbed c (c.step event) ∨
      (∃ key result answer, event = .canWrite key result answer ∧
        Asks key result c (c.step event)) ∨
      (c.wsstate ≠ .ws ∧ ∃ octets reply initialized answer,
        event = .canRead (.received octets) reply initialized answer ∧
        (Collects octets c (c.step event) ∨ Upgrades octets reply c (c.step event)))) := by
  obtain ⟨hintime, hproper⟩ := hproper
  cases event with
  | send packet connect answer =>
      obtain ⟨hsingle, hsame⟩ := h.send hintime
      exact ⟨hsingle, .inl hsame⟩
  | up connect =>
      obtain ⟨hsingle, hsame⟩ := h.up connect
      exact ⟨hsingle, .inl hsame⟩
  | accept client => exact absurd hproper id
  | canWrite key result answer =>
      obtain ⟨hsingle, hsame | hasks⟩ := h.canWrite hproper key result answer
      · exact ⟨hsingle, .inl hsame⟩
      · exact ⟨hsingle, .inr (.inl ⟨key, result, answer, rfl, hasks⟩)⟩
  | canRead result reply initialized answer =>
      obtain ⟨hsingle, hsame | ⟨hws, octets, rfl, hcases⟩⟩ :=
        h.canRead hproper reply initialized answer
      · exact ⟨hsingle, .inl hsame⟩
      · exact ⟨hsingle, .inr (.inr ⟨hws, octets, reply, initialized, answer, rfl, hcases⟩)⟩
  | timer =>
      have hrun : c.step .timer = { c with timerRunning := false } := by
        obtain ⟨l, upgrade, state, fd, r, w, active, running, headers, key, ctx, buffer, sockets,
          uses⟩ := c
        cases state with
        | inprogress => exact absurd rfl hproper
        | _ => rfl
      rw [hrun]
      exact ⟨⟨h.socket, h.fresh, h.once⟩, .inl ⟨rfl, rfl, rfl, rfl, rfl⟩⟩

end Step

end WsConnection

/-! ### Both ends -/

/-- A client and the server that has accepted it. -/
structure WsLink where
  client : WsConnection
  server : WsConnection

inductive WsLinkEvent where
  | client (event : WsEvent)
  | server (event : WsEvent)

namespace WsLink

/-- The server is made when the client has got its socket, but nothing comes from there before. -/
def new (clientLocal serverLocal : HostAndPort) (fd : ℕ) : WsLink where
  client := .new clientLocal .httpClient
  server := State (WsConnection.accept fd (.new serverLocal .httpServer))

section Step

variable [Nettle]

def step (s : WsLink) : WsLinkEvent → WsLink
  | .client event => { s with client := s.client.step event }
  | .server event => { s with server := s.server.step event }

/-- What the client has asked for. -/
def request (s : WsLink) : Octets := upgradeRequest s.client.protocolLocal s.client.client_key

/-- What it waits for. -/
def reply (s : WsLink) : Octets := upgradeReply (create_acceptkey s.client.client_key)

/-- The two ends are connected: as long as an end is not upgraded, it receives what the other end has
written, in pieces and in order.  With the reply of the server its first frames can come.  The keys
of the client are texts of random octets, and the reply is taken as a whole. -/
def Connected (s : WsLink) : WsLinkEvent → Prop
  | .client (.canWrite key _ _) => ∃ random, key = Nettle.base64 random
  | .client (.canRead (.received octets) _ _ _) => s.client.wsstate = .httpClient →
      ∃ frames, (s.server.wsstate = .ws ∨ frames = []) ∧
        s.client.headers ++ octets <+: s.server.written ++ frames
  | .server (.canRead (.received octets) reply _ _) => s.server.wsstate = .httpServer →
      s.server.headers ++ octets <+: s.client.written ∧
        reply.taken s.reply = s.reply
  | _ => True

def Permitted (s : WsLink) (event : WsLinkEvent) : Prop :=
  s.Connected event ∧
    match event with
    | .client event => s.client.Proper event
    | .server event => s.server.Proper event

/-- **Both ends agree about the upgrade.**  An end that is not upgraded has received less than the
whole text of the other end; once the server is upgraded, it has been asked with the key of the
client and has answered this very key; and the client is upgraded after the server. -/
structure Agrees (s : WsLink) : Prop where
  asked : s.client.written <+: s.request
  waiting : s.server.wsstate ≠ .ws → s.server.written = [] ∧
    s.server.headers <+: s.client.written ∧ s.server.headers ≠ s.request
  granted : s.server.wsstate = .ws → s.client.written = s.request ∧ s.server.written = s.reply
  answered : s.client.wsstate ≠ .ws → s.client.headers <+: s.server.written ∧
    s.client.headers ≠ s.reply
  upgraded : s.client.wsstate = .ws → s.server.wsstate = .ws

/-- What is known in all states. -/
structure Inv (clientLocal : HostAndPort) (s : WsLink) : Prop extends Agrees s where
  client : s.client.SingleUse
  server : s.server.SingleUse
  clientRole : s.client.wsstate ≠ .httpServer
  serverRole : s.server.wsstate ≠ .httpClient
  protocolLocal : s.client.protocolLocal = clientLocal
  key : Word s.client.client_key

variable {clientLocal : HostAndPort} {s : WsLink}

/-- As long as the key and the near end of the client are the same, so are both texts. -/
theorem texts_eq {c : WsConnection} (hlocal : c.protocolLocal = s.client.protocolLocal)
    (hkey : c.client_key = s.client.client_key) :
    request { s with client := c } = s.request ∧ reply { s with client := c } = s.reply := by
  rw [request, reply, hlocal, hkey]
  exact ⟨rfl, rfl⟩

theorem Inv.client_undisturbed (h : s.Inv clientLocal) {c : WsConnection} (hsingle : c.SingleUse)
    (hsame : s.client.Undisturbed c) : Inv clientLocal { s with client := c } := by
  obtain ⟨hlocal, hws, hheaders, hkey, hwritten⟩ := hsame
  obtain ⟨hrequest, hreply⟩ := texts_eq hlocal hkey
  refine ⟨⟨?_, ?_, ?_, ?_, ?_⟩, hsingle, h.server, ?_, h.serverRole, ?_, ?_⟩
  · rw [hrequest, hwritten]
    exact h.asked
  · rw [hrequest, hwritten]
    exact h.waiting
  · rw [hrequest, hreply, hwritten]
    exact h.granted
  · rw [hreply, hws, hheaders]
    exact h.answered
  · rw [hws]
    exact h.upgraded
  · rw [hws]
    exact h.clientRole
  · rw [hlocal]
    exact h.protocolLocal
  · rw [hkey]
    exact h.key

theorem Inv.server_undisturbed (h : s.Inv clientLocal) {c : WsConnection} (hsingle : c.SingleUse)
    (hsame : s.server.Undisturbed c) : Inv clientLocal { s with server := c } := by
  obtain ⟨-, hws, hheaders, -, hwritten⟩ := hsame
  refine ⟨⟨h.asked, ?_, ?_, ?_, ?_⟩, h.client, hsingle, h.clientRole, ?_, h.protocolLocal, h.key⟩
  · rw [hws, hwritten, hheaders]
    exact h.waiting
  · rw [hws, hwritten]
    exact h.granted
  · rw [hwritten]
    exact h.answered
  · rw [hws]
    exact h.upgraded
  · rw [hws]
    exact h.serverRole

/-- A client that has not asked yet has not been answered. -/
theorem Inv.unasked (h : s.Inv clientLocal) (hfirst : s.client.written = []) :
    s.server.wsstate ≠ .ws ∧ s.server.headers = [] := by
  have hws : s.server.wsstate ≠ .ws := by
    intro hws
    have hasked := (h.granted hws).1
    rw [hfirst] at hasked
    exact upgradeRequest_ne_nil _ _ hasked.symm
  obtain ⟨-, hheaders, -⟩ := h.waiting hws
  rw [hfirst] at hheaders
  exact ⟨hws, List.prefix_nil.1 hheaders⟩

theorem Inv.client_asks (h : s.Inv clientLocal) {c : WsConnection} (hsingle : c.SingleUse)
    {key : Octets} {result : SendResult} (hkey : Word key) (hasks : s.client.Asks key result c) :
    Inv clientLocal { s with client := c } := by
  obtain ⟨hclient, hfirst, hlocal, hws, hheaders, hkey', hwritten⟩ := hasks
  obtain ⟨hunasked, hnone⟩ := h.unasked hfirst
  obtain ⟨hsilent, -, -⟩ := h.waiting hunasked
  obtain ⟨hanswered, -⟩ := h.answered (by simp [hclient])
  rw [hsilent, List.prefix_nil] at hanswered
  refine ⟨⟨?_, fun _ => ⟨hsilent, ?_, ?_⟩, fun hyes => absurd hyes hunasked, fun _ => ⟨?_, ?_⟩, ?_⟩,
    hsingle, h.server, ?_, h.serverRole, hlocal.trans h.protocolLocal, ?_⟩
  · dsimp only [request]
    rw [hwritten, hlocal, hkey']
    cases result with
    | sent n => exact List.take_prefix n _
    | epipe => exact List.nil_prefix
    | failed => exact List.nil_prefix
  · dsimp only
    rw [hnone]
    exact List.nil_prefix
  · dsimp only
    rw [hnone]
    exact (upgradeRequest_ne_nil _ _).symm
  · dsimp only
    rw [hheaders, hanswered]
    exact List.nil_prefix
  · dsimp only
    rw [hheaders, hanswered]
    exact (upgradeReply_ne_nil _).symm
  · dsimp only
    simp [hws]
  · dsimp only
    simp [hws]
  · dsimp only
    rw [hkey']
    exact hkey

theorem Inv.client_open (h : s.Inv clientLocal) (hasked : s.client.written ≠ []) :
    s.client.fd ≠ none := by
  intro hfd
  obtain ⟨-, hsockets, -⟩ := h.client.fresh hfd
  apply hasked
  rw [WsConnection.written, hsockets]

/-- Nothing has been received from a server that is not upgraded. -/
theorem Inv.silent (h : s.Inv clientLocal) (hnot : s.server.wsstate ≠ .ws) {p frames : Octets}
    (hframes : s.server.wsstate = .ws ∨ frames = [])
    (hfront : p <+: s.server.written ++ frames) : p = [] := by
  rw [(h.waiting hnot).1, hframes.resolve_left hnot] at hfront
  exact List.prefix_nil.1 hfront

section Received

variable {c : WsConnection} {octets frames : Octets} {reply : SendResult}

/-- The client receives more of the reply. -/
theorem Inv.client_collects (h : s.Inv clientLocal) (hbase : ∀ octets, Word (Nettle.base64 octets))
    (hsingle : c.SingleUse) (hclient : s.client.wsstate = .httpClient)
    (hlength : octets.length ≤ 8192) (hframes : s.server.wsstate = .ws ∨ frames = [])
    (hfront : s.client.headers ++ octets <+: s.server.written ++ frames)
    (hcollects : s.client.Collects octets c) : Inv clientLocal { s with client := c } := by
  obtain ⟨hwaiting, rfl⟩ := hcollects
  refine ⟨⟨h.asked, h.waiting, h.granted, fun _ => ?_, fun hyes => ?_⟩, hsingle, h.server,
    h.clientRole, h.serverRole, h.protocolLocal, h.key⟩
  · dsimp only
    by_cases hserver : s.server.wsstate = .ws
    · obtain ⟨hasked, hgranted⟩ := h.granted hserver
      have hopen : s.client.fd ≠ none := h.client_open (by
        rw [hasked]
        exact upgradeRequest_ne_nil _ _)
      rw [hgranted] at hfront ⊢
      rcases Nat.lt_or_ge (s.client.headers ++ octets).length s.reply.length with hlt | hge
      · refine ⟨List.prefix_of_prefix_length_le hfront (List.prefix_append _ _) hlt.le, ?_⟩
        intro heq
        have hsame : (s.client.headers ++ octets).length = s.reply.length := by rw [heq]; rfl
        omega
      · -- the whole reply has come, so that the client is upgraded
        obtain ⟨extra, hextra⟩ := List.prefix_of_prefix_length_le (List.prefix_append _ _)
          hfront hge
        refine absurd ?_ hwaiting
        rw [WsConnection.completes_received_iff hclient hopen, WsConnection.Complete,
          WsConnection.headed_eq hlength]
        dsimp only
        rw [← hextra]
        exact ⟨complete_reply_append _ extra, headerValue_reply (hbase _) extra⟩
    · rw [h.silent hserver hframes hfront]
      exact ⟨List.nil_prefix, (upgradeReply_ne_nil _).symm⟩
  · dsimp only at hyes
    rw [hclient] at hyes
    cases hyes

/-- The client receives the rest of the reply. -/
theorem Inv.client_upgrades (h : s.Inv clientLocal) (hsingle : c.SingleUse)
    (hclient : s.client.wsstate = .httpClient) (hlength : octets.length ≤ 8192)
    (hframes : s.server.wsstate = .ws ∨ frames = [])
    (hfront : s.client.headers ++ octets <+: s.server.written ++ frames)
    (hupgrades : s.client.Upgrades octets reply c) : Inv clientLocal { s with client := c } := by
  obtain ⟨hcompletes, hlocal, hws, hkey, hwritten, -⟩ := hupgrades
  have hserver : s.server.wsstate = .ws := by
    by_contra hnot
    have hnone := h.silent hnot hframes hfront
    obtain ⟨-, _, ⟨⟩, hcomplete, -⟩ := hcompletes
    rw [WsConnection.Complete, WsConnection.headed_eq hlength] at hcomplete
    dsimp only at hcomplete
    rw [hnone] at hcomplete
    exact absurd hcomplete (by decide)
  obtain ⟨hasked, hgranted⟩ := h.granted hserver
  obtain ⟨hrequest, hreply⟩ := texts_eq hlocal hkey
  refine ⟨⟨?_, fun hnot => absurd hserver hnot, fun _ => ?_, fun hnot => absurd hws hnot,
    fun _ => hserver⟩, hsingle, h.server, ?_, h.serverRole, ?_, ?_⟩
  · rw [hrequest, hwritten hclient]
    exact h.asked
  · rw [hrequest, hreply, hwritten hclient]
    exact ⟨hasked, hgranted⟩
  · simp [hws]
  · rw [hlocal]
    exact h.protocolLocal
  · rw [hkey]
    exact h.key

/-- The server finds the key of the client. -/
theorem Inv.requestKey_request (h : s.Inv clientLocal) (hhost : Word clientLocal.host) :
    WsConnection.requestKey s.request = some s.client.client_key := by
  rw [← h.protocolLocal] at hhost
  exact Corba.requestKey_request hhost h.key

/-- **The server is upgraded by the whole request**, and not before. -/
theorem Inv.server_completes_iff (h : s.Inv clientLocal) (hhost : Word clientLocal.host)
    (hserver : s.server.wsstate = .httpServer) (hlength : octets.length ≤ 8192)
    (hfront : s.server.headers ++ octets <+: s.client.written) :
    s.server.Completes (.received octets) ↔ s.server.headers ++ octets = s.request := by
  have hopen : s.server.fd ≠ none := by
    intro hfd
    have hrole := (h.server.fresh hfd).1
    rw [hserver] at hrole
    cases hrole
  have hhost' : Word s.client.protocolLocal.host := h.protocolLocal ▸ hhost
  have hcomplete := complete_request_iff hhost' h.key (hfront.trans h.asked)
  rw [WsConnection.completes_request_iff hserver hopen, WsConnection.Complete,
    WsConnection.headed_eq hlength]
  dsimp only
  constructor
  · rintro ⟨hyes, -⟩
    exact hcomplete.1 hyes
  · intro heq
    refine ⟨hcomplete.2 heq, ?_⟩
    rw [heq]
    exact Option.isSome_of_eq_some (h.requestKey_request hhost)

/-- The server receives more of the request. -/
theorem Inv.server_collects (h : s.Inv clientLocal) (hhost : Word clientLocal.host)
    (hsingle : c.SingleUse) (hserver : s.server.wsstate = .httpServer)
    (hlength : octets.length ≤ 8192) (hfront : s.server.headers ++ octets <+: s.client.written)
    (hcollects : s.server.Collects octets c) : Inv clientLocal { s with server := c } := by
  obtain ⟨hwaiting, rfl⟩ := hcollects
  have hnot : s.server.wsstate ≠ .ws := by simp [hserver]
  obtain ⟨hsilent, -, -⟩ := h.waiting hnot
  refine ⟨⟨h.asked, fun _ => ⟨hsilent, hfront, fun heq => ?_⟩, fun hyes => absurd hyes hnot,
    h.answered, fun hyes => absurd (h.upgraded hyes) hnot⟩, h.client, hsingle, h.clientRole,
    h.serverRole, h.protocolLocal, h.key⟩
  exact hwaiting ((h.server_completes_iff hhost hserver hlength hfront).2 heq)

/-- The server receives the rest of the request, and answers. -/
theorem Inv.server_upgrades (h : s.Inv clientLocal) (hhost : Word clientLocal.host)
    (hsingle : c.SingleUse) (hserver : s.server.wsstate = .httpServer)
    (hlength : octets.length ≤ 8192) (hfront : s.server.headers ++ octets <+: s.client.written)
    (hreply : reply.taken s.reply = s.reply) (hupgrades : s.server.Upgrades octets reply c) :
    Inv clientLocal { s with server := c } := by
  obtain ⟨hcompletes, -, hws, -, -, hwritten⟩ := hupgrades
  have hnot : s.server.wsstate ≠ .ws := by simp [hserver]
  obtain ⟨hsilent, -, -⟩ := h.waiting hnot
  obtain ⟨hanswered, hunanswered⟩ := h.answered fun hyes => hnot (h.upgraded hyes)
  have hwhole := (h.server_completes_iff hhost hserver hlength hfront).1 hcompletes
  have hasked : s.client.written = s.request := by
    rw [hwhole] at hfront
    exact h.asked.eq_of_length_le hfront.length_le
  rw [hwhole] at hwritten
  have hgranted : c.written = s.reply := by
    rw [hwritten hserver _ (h.requestKey_request hhost), hsilent, List.nil_append]
    exact hreply
  rw [hsilent, List.prefix_nil] at hanswered
  refine ⟨⟨h.asked, fun hyes => absurd hws hyes, fun _ => ⟨hasked, hgranted⟩, fun _ => ⟨?_, ?_⟩,
    fun _ => hws⟩, h.client, hsingle, h.clientRole, ?_, h.protocolLocal, h.key⟩
  · dsimp only
    rw [hanswered]
    exact List.nil_prefix
  · exact hunanswered
  · dsimp only
    simp [hws]

end Received

theorem Inv.step (h : s.Inv clientLocal) (hhost : Word clientLocal.host)
    (hbase : ∀ octets, Word (Nettle.base64 octets)) {event : WsLinkEvent}
    (hp : s.Permitted event) : (s.step event).Inv clientLocal := by
  obtain ⟨hconnected, hproper⟩ := hp
  cases event with
  | client event =>
      obtain ⟨hsingle, hcases⟩ := WsConnection.step_cases h.client hproper
      rw [WsLink.step]
      rcases hcases with hsame | ⟨key, result, answer, rfl, hasks⟩ |
        ⟨hnot, octets, reply, initialized, answer, rfl, hcases⟩
      · exact h.client_undisturbed hsingle hsame
      · obtain ⟨random, rfl⟩ := hconnected
        exact h.client_asks hsingle (hbase random) hasks
      · have hclient : s.client.wsstate = .httpClient := by
          cases hws : s.client.wsstate with
          | httpServer => exact absurd hws h.clientRole
          | httpClient => rfl
          | ws => exact absurd hws hnot
        obtain ⟨frames, hframes, hfront⟩ := hconnected hclient
        have hlength := hproper.2 octets rfl
        rcases hcases with hcollects | hupgrades
        · exact h.client_collects hbase hsingle hclient hlength hframes hfront hcollects
        · exact h.client_upgrades hsingle hclient hlength hframes hfront hupgrades
  | server event =>
      obtain ⟨hsingle, hcases⟩ := WsConnection.step_cases h.server hproper
      rw [WsLink.step]
      rcases hcases with hsame | ⟨key, result, answer, rfl, hasks⟩ |
        ⟨hnot, octets, reply, initialized, answer, rfl, hcases⟩
      · exact h.server_undisturbed hsingle hsame
      · exact absurd hasks.client h.serverRole
      · have hserver : s.server.wsstate = .httpServer := by
          cases hws : s.server.wsstate with
          | httpServer => rfl
          | httpClient => exact absurd hws h.serverRole
          | ws => exact absurd hws hnot
        obtain ⟨hfront, hreply⟩ := hconnected hserver
        have hlength := hproper.2 octets rfl
        rcases hcases with hcollects | hupgrades
        · exact h.server_collects hhost hsingle hserver hlength hfront hcollects
        · exact h.server_upgrades hhost hsingle hserver hlength hfront hreply hupgrades

theorem Inv.new (clientLocal serverLocal : HostAndPort) (fd : ℕ) :
    (WsLink.new clientLocal serverLocal fd).Inv clientLocal := by
  refine ⟨⟨List.nil_prefix, fun _ => ⟨rfl, List.nil_prefix, ?_⟩, nofun,
    fun _ => ⟨List.nil_prefix, ?_⟩, nofun⟩, ⟨nofun, fun _ => ⟨rfl, rfl, rfl, rfl⟩, nofun⟩,
    ⟨nofun, nofun, nofun⟩, nofun, nofun, rfl, nofun⟩
  · exact (upgradeRequest_ne_nil _ _).symm
  · exact (upgradeReply_ne_nil _).symm

end Step

/-- Nothing is on its way to an end that is not upgraded. -/
def Quiet (s : WsLink) : Prop :=
  (s.server.wsstate ≠ .ws → s.server.headers = s.client.written) ∧
    (s.client.wsstate ≠ .ws → s.client.headers = s.server.written)

/-- When nothing is on its way any more, both ends are upgraded or none of them is. -/
theorem Agrees.of_quiet [Nettle] {s : WsLink} (h : s.Agrees) (hquiet : s.Quiet) :
    (s.server.wsstate = .ws ↔ s.client.written = s.request) ∧
      (s.client.wsstate = .ws ↔ s.client.written = s.request) := by
  obtain ⟨hserver, hclient⟩ := hquiet
  have hasked : s.server.wsstate = .ws ↔ s.client.written = s.request := by
    constructor
    · intro hws
      exact (h.granted hws).1
    · intro hwhole
      by_contra hnot
      obtain ⟨-, -, hne⟩ := h.waiting hnot
      exact hne ((hserver hnot).trans hwhole)
  refine ⟨hasked, ?_⟩
  rw [← hasked]
  constructor
  · exact h.upgraded
  · intro hws
    by_contra hnot
    obtain ⟨-, hne⟩ := h.answered hnot
    exact hne ((hclient hnot).trans (h.granted hws).2)

end WsLink

open WsLink in
/-- **The ends agree about the upgrade in every state.**  When nothing is on its way any more, both
are upgraded if the request has been written as a whole, and neither is if not. -/
theorem upgrade_agreed [Nettle] (hbase : ∀ octets, Word (Nettle.base64 octets))
    {clientLocal : HostAndPort} (hhost : Word clientLocal.host) (serverLocal : HostAndPort) (fd : ℕ)
    {events : List WsLinkEvent}
    (hevents : Runs.Meets WsLink.step Permitted (.new clientLocal serverLocal fd) events) :
    let s := events.foldl WsLink.step (.new clientLocal serverLocal fd)
    s.Agrees ∧ (s.Quiet → (s.server.wsstate = .ws ↔ s.client.written = s.request) ∧
      (s.client.wsstate = .ws ↔ s.client.written = s.request)) := by
  have hinv := (Runs.always_of_meets (I := Inv clientLocal)
    (fun _ _ h hp => h.step hhost hbase hp) (Inv.new clientLocal serverLocal fd) hevents).last
  exact ⟨hinv.toAgrees, hinv.toAgrees.of_quiet⟩

/-- What nettle makes of one nonce and of the key it leads to. -/
abbrev sampleNettle : Nettle where
  sha1 := fun _ => [0xb3, 0x7a, 0x4f, 0x2c, 0xc0, 0x62, 0x4f, 0x16, 0x90, 0xf6, 0x46, 0x06, 0xcf,
    0x38, 0x59, 0x45, 0xb2, 0xbe, 0xc4, 0xea]
  base64 := fun octets =>
    if octets = ascii "the sample nonce" then ascii "dGhlIHNhbXBsZSBub25jZQ=="
    else ascii "s3pPLMBiTxaQ9kYGzzhZRbK+xOo="

/-- A client asks for the upgrade, and is answered. -/
theorem upgrade_agreed_sample :
    letI := sampleNettle
    ∃ events : List WsLinkEvent,
      let s := events.foldl WsLink.step (.new ⟨ascii "near", 2810⟩ ⟨ascii "far", 2811⟩ 5)
      s.Quiet ∧ s.client.wsstate = .ws ∧ s.server.wsstate = .ws ∧ s.Agrees := by
  let := sampleNettle
  have hbase : ∀ octets, Word (Nettle.base64 octets) := by
    intro octets
    by_cases hnonce : octets = ascii "the sample nonce"
    · rw [show Nettle.base64 octets = _ from if_pos hnonce]
      exact forall_mem_of_all (by decide)
    · rw [show Nettle.base64 octets = _ from if_neg hnonce]
      exact forall_mem_of_all (by decide)
  have hhost : Word (⟨ascii "near", 2810⟩ : HostAndPort).host := forall_mem_of_all (by decide)
  let key := Nettle.base64 (ascii "the sample nonce")
  let request := upgradeRequest ⟨ascii "near", 2810⟩ key
  let reply := upgradeReply (create_acceptkey key)
  let events : List WsLinkEvent := [.client (.send [1] (.opened 3 true) {}),
    .client (.canWrite key (.sent request.length) {}),
    .server (.canRead (.received request) (.sent reply.length) true {}),
    .client (.canRead (.received reply) .failed true {})]
  have hevents : Runs.Meets WsLink.step WsLink.Permitted
      (.new ⟨ascii "near", 2810⟩ ⟨ascii "far", 2811⟩ 5) events := by
    refine Runs.meets_cons.2 ⟨⟨trivial, nofun, trivial⟩,
      Runs.meets_cons.2 ⟨⟨⟨_, rfl⟩, trivial, ?_⟩,
      Runs.meets_cons.2 ⟨⟨fun _ => ⟨?_, ?_⟩, trivial, ?_⟩,
      Runs.meets_cons.2 ⟨⟨fun _ => ⟨[], .inr rfl, ?_⟩, trivial, ?_⟩, Runs.meets_nil⟩⟩⟩⟩
    · decide +kernel
    · decide +kernel
    · decide +kernel
    · rintro octets ⟨⟩
      decide +kernel
    · decide +kernel
    · rintro octets ⟨⟩
      decide +kernel
  have hboth := upgrade_agreed hbase hhost ⟨ascii "far", 2811⟩ 5 hevents
  refine ⟨events, ?_, ?_, ?_, hboth.1⟩
  · exact ⟨fun hnot => absurd (by decide +kernel) hnot, fun hnot => absurd (by decide +kernel) hnot⟩
  · decide +kernel
  · decide +kernel

end Corba
