/-
The near end of a connection is announced.

A request can carry a service context that says where its sender can be reached.  The connection
notes that this has been written, which it does for the first request that is encoded.  Whether the
request gets as far as a socket is decided later, and the connection can go through many sockets.

Main definitions:

* `Corba.ORB.Announces`, `Corba.ORB.Silent` — requests with and without this service context;
* `Corba.OutgoingEvent`, `Corba.Side.step` — calls on a connection, and what the system does;
* `Corba.Side.Numbered` — the request of the first call announces, and no other does;
* `Corba.Socket.Announced` — the first request on a socket announces, and no other does.

Main results:

* `Corba.ORB.IsRequest.flag_unique` — no request is both;
* `Corba.Side.Numbered.issue` — a call;
* `Corba.sockets_announced` — in which runs every socket is announced to.
-/

import Corba.ConnectionLoss

set_option relaxedAutoImplicit false
set_option autoImplicit false

namespace Corba

open Layout ByteOrder Placed Exec

/-! ### Requests that announce -/

section Requests

variable [Platform]

namespace ORB

/-- The message is a request with a service context that announces the near end. -/
def Announces (near : HostAndPort) (message : Octets) : Prop :=
  ∃ remote requestId responseExpected,
    IsRequest ⟨remote, near, false⟩ requestId responseExpected message

/-- The message is a request without service contexts. -/
def Silent (message : Octets) : Prop :=
  ∃ remote near requestId responseExpected,
    IsRequest ⟨remote, near, true⟩ requestId responseExpected message

end ORB

section Unique

variable {D : Octets} {o : ℕ} {e : Endian}

theorem blob_length_unique {v w : Octets} (h : Laid D o (Cdr.blob e v))
    (h' : Laid D o (Cdr.blob e w)) (hD : D.length < 2 ^ 32) : v.length = w.length := by
  have hle : ∀ {u : Octets}, Laid D o (Cdr.blob e u) → u.length < 2 ^ 32 := by
    intro u hu
    by_cases hne : u = []
    · subst hne
      decide
    · have hat := (GIOPDecoder.at_blob hu).le_length hne
      omega
  have hrun := CDRDecoder.readBlobView_run h (hle h) (by omega)
  rw [CDRDecoder.readBlobView_run h' (hle h') (by omega)] at hrun
  injection hrun with hview
  injection hview with _ hsize
  exact hsize.symm

end Unique

/-- Where the number of the service contexts stands in a request. -/
theorem ORB.IsRequest.laid {c : Connection} {id : UInt32} {b : Bool} {message : Octets}
    (h : IsRequest c id b message) :
    ∃ key operation : Octets, Laid message 22 (Cdr.blob native key) ∧
      Laid message (28 + key.length) (Cdr.blob native operation) ∧
      Laid message (roundUp 4 (28 + key.length) + 4 + operation.length)
        (Cdr.ulong native (if c.didSendBiDirIIOP then 0 else 1)) := by
  obtain ⟨key, operation, hlaid⟩ := h.request
  have hkey : roundUp 2 (roundUp 4 12 + 4 + 1 + 3) + 2 = 22 := rfl
  have hoperation : roundUp 4 22 + 4 = 28 := rfl
  simp only [Giop.request, Giop.requestHeader, Giop.requestHeaderFront, Giop.requestFront,
    laid_append, extent_append, Cdr.extent_ulong, Cdr.extent_octet, Cdr.extent_ushort,
    Cdr.extent_blob, Cdr.extent_string, extent_skip, extent_nil, Bool.false_eq_true, if_false,
    hkey, hoperation] at hlaid
  obtain ⟨⟨-, -, hkey, hoperation⟩, hcontext, -⟩ := hlaid
  refine ⟨key, operation ++ [0], hkey, ?_, ?_⟩
  · rw [Cdr.blob, List.length_append]
    exact hoperation
  · rw [List.length_append]
    obtain ⟨remote, near, sent⟩ := c
    cases sent with
    | true => exact hcontext
    | false => exact (laid_append.1 hcontext).1

/-- A message is a request either with or without the service context. -/
theorem ORB.IsRequest.flag_unique {c c' : Connection} {id id' : UInt32} {b b' : Bool}
    {message : Octets} (h : IsRequest c id b message) (h' : IsRequest c' id' b' message)
    (hlength : message.length < 2 ^ 32) : c.didSendBiDirIIOP = c'.didSendBiDirIIOP := by
  obtain ⟨key, operation, hkey, hoperation, hcount⟩ := h.laid
  obtain ⟨key', operation', hkey', hoperation', hcount'⟩ := h'.laid
  have hsame := blob_length_unique hkey hkey' hlength
  rw [← hsame] at hoperation' hcount'
  have hsame' := blob_length_unique hoperation hoperation' hlength
  rw [← hsame'] at hcount'
  have hnumber := Cdr.laid_ulong_inj hcount hcount'
  cases hflag : c.didSendBiDirIIOP <;> cases hflag' : c'.didSendBiDirIIOP <;>
    simp [hflag, hflag'] at hnumber ⊢

end Requests

/-! ### The first call -/

/-- The first call on a connection, when it can be encoded, sends a request that announces the near
end.  The requests of all other calls are silent. -/
structure Side.Numbered {τ : Type} [Platform] (near : HostAndPort) (s : Side τ) : Prop where
  protocolLocal : s.connection.protocolLocal = near
  flag : s.connection.didSendBiDirIIOP = true ↔ s.calls ≠ 0
  requests : ∀ r ∈ s.requests, r.call < s.calls ∧
    (r.call = 0 → ORB.Announces near r.message) ∧ (r.call ≠ 0 → ORB.Silent r.message)
  order : s.requests.Pairwise fun r r' => r.call < r'.call

section Numbered

variable {τ ι : Type} [Platform] {near : HostAndPort} {s : Side τ}

theorem Side.numbered_initial (remote near : HostAndPort) (transport : τ) :
    ({ connection := ⟨remote, near, false⟩, transport } : Side τ).Numbered near :=
  ⟨rfl, by simp, by simp, .nil⟩

theorem Side.Numbered.issue (h : s.Numbered near) (T : Transport τ ι) (call : Call ι) :
    (s.issue T call).1.Numbered near := by
  have hold : ∀ r ∈ s.requests, r.call < s.calls + 1 ∧
      (r.call = 0 → ORB.Announces near r.message) ∧ (r.call ≠ 0 → ORB.Silent r.message) := by
    intro r hr
    obtain ⟨hlt, hmessage⟩ := h.requests r hr
    exact ⟨Nat.lt_succ_of_lt hlt, hmessage⟩
  by_cases hsends : call.Sends s
  · obtain ⟨message, hmessage, hissue, -⟩ := Side.issue_of_sends T hsends
    obtain ⟨⟨remote, near', sent⟩, transport, requestId, calls, requests⟩ := s
    obtain rfl : near' = near := h.protocolLocal
    rw [hissue]
    refine ⟨rfl, by simp [Side.called], ?_, ?_⟩
    · intro r hr
      rcases List.mem_append.1 hr with hr | hr
      · exact hold r hr
      · obtain rfl := List.mem_singleton.1 hr
        refine ⟨Nat.lt_succ_self _, fun hfirst => ?_, fun hlater => ?_⟩
        · have hflag : sent = false := by
            have hiff := h.flag
            simpa [show calls = 0 from hfirst] using hiff
          subst hflag
          exact ⟨_, _, _, hmessage⟩
        · have hflag : sent = true := h.flag.2 hlater
          subst hflag
          exact ⟨_, _, _, _, hmessage⟩
    · refine List.pairwise_append.2 ⟨h.order, List.pairwise_singleton _ _, ?_⟩
      intro r hr r' hr'
      obtain rfl := List.mem_singleton.1 hr'
      exact (h.requests r hr).1
  · rw [Side.issue_of_not_sends T hsends]
    exact ⟨h.protocolLocal, by simp [Side.called], hold, h.order⟩

theorem Side.Numbered.transport (h : s.Numbered near) (transport : τ) :
    ({ s with transport } : Side τ).Numbered near := ⟨h.protocolLocal, h.flag, h.requests, h.order⟩

/-- Requests behind another one are silent. -/
theorem Side.Numbered.silent (h : s.Numbered near) {first : SentRequest} {rest : List SentRequest}
    (hrequests : s.requests = first :: rest) : ∀ r ∈ rest, ORB.Silent r.message := by
  intro r hr
  have horder := h.order
  rw [hrequests] at horder
  have hlt := (List.pairwise_cons.1 horder).1 r hr
  have hmem : r ∈ s.requests := hrequests ▸ List.mem_cons_of_mem _ hr
  exact (h.requests r hmem).2.2 (Nat.ne_of_gt (Nat.zero_lt_of_lt hlt))

end Numbered

/-! ### Runs of a connection -/

/-- What happens to a connection on which calls are made. -/
inductive OutgoingEvent where
  | call (call : Call ConnectResult)
  | up (connect : ConnectResult)
  | accept (client : ℕ)
  | canWrite (peer : Bool) (results : List SendResult)
  | canRead (result : RecvResult) (recv : ℕ → Option Thrown)
  | timer

section Runs

variable [Platform]

namespace Side

def onTransport (s : Side TcpConnection) (event : TcpEvent) : Side TcpConnection :=
  { s with transport := s.transport.step event }

def step (s : Side TcpConnection) : OutgoingEvent → Side TcpConnection
  | .call call => (s.issue tcp call).1
  | .up connect => s.onTransport (.up connect)
  | .accept client => s.onTransport (.accept client)
  | .canWrite peer results => s.onTransport (.canWrite peer results)
  | .canRead result recv => s.onTransport (.canRead result recv)
  | .timer => s.onTransport .timer

/-- Which requests announce does not depend on what the system does. -/
theorem Numbered.step {near : HostAndPort} {s : Side TcpConnection} (h : s.Numbered near)
    (event : OutgoingEvent) : (s.step event).Numbered near := by
  cases event with
  | call call => exact h.issue tcp call
  | _ => exact h.transport _

/-- The messages that have been handed to `send`. -/
def messages {τ : Type} (s : Side τ) : List Octets := s.requests.map SentRequest.message

end Side

/-- The requests on a socket: the first of them announces the near end, and the others are silent.
The last one need not have been sent completely. -/
def Socket.Announced (near : HostAndPort) (messages : List Octets) (k : Socket) : Prop :=
  k.written ≠ [] → ∃ first rest, first :: rest <:+: messages ∧
    k.written <+: (first :: rest).flatten ∧ ORB.Announces near first ∧ ∀ m ∈ rest, ORB.Silent m

omit [Platform] in
/-- The connection has opened a socket, and there is something to be written to it, but nothing has
been written yet. -/
def TcpConnection.Fresh (c : TcpConnection) : Prop :=
  c.fd ≠ none ∧ c.sendBuffer ≠ [] ∧ ∃ k ∈ c.sockets.head?, k.incoming = false ∧ k.written = []

/-- A new socket is only written to when no socket has been written to before, and when the first
call has been encoded. -/
def Side.WritesFirst (s : Side TcpConnection) : OutgoingEvent → Prop
  | .canWrite _ _ => s.transport.Fresh →
      s.transport.bytesSend = 0 ∧ s.transport.sendBuffer = s.messages ∧
        ∀ r ∈ s.requests.head?, r.call = 0
  | _ => True

/-- What has been and is going to be written to a socket are all requests, and the first one
announces the near end. -/
def AllRequests (near : HostAndPort) (messages : List Octets) (written rest : Octets) : Prop :=
  written ≠ [] → (∃ first ∈ messages.head?, ORB.Announces near first) ∧
    written ++ rest = messages.flatten

/-- What holds in all states of a run. -/
structure Side.Announcing (near : HostAndPort) (s : Side TcpConnection) : Prop where
  numbered : s.Numbered near
  fed : s.transport.Fed (AllRequests near) s.messages

theorem allRequests_append {near : HostAndPort} (ps : List Octets) (w u p : Octets)
    (h : AllRequests near ps w u) : AllRequests near (ps ++ [p]) w (u ++ p) := by
  intro hw
  obtain ⟨⟨first, hfirst, hannounces⟩, hall⟩ := h hw
  refine ⟨⟨first, ?_, hannounces⟩, ?_⟩
  · rw [List.head?_append, Option.mem_def.1 hfirst]
    rfl
  · rw [← List.append_assoc, hall, List.flatten_append, List.flatten_singleton]

variable {near : HostAndPort} {s : Side TcpConnection}

/-- Nothing is said of a socket before something is written to it. -/
theorem Side.Announcing.onTransport (h : s.Announcing near) (event : TcpEvent)
    (hnone : TcpConnection.packets [event] = [])
    (hwrite : ∀ peer results, event = .canWrite peer results →
      s.WritesFirst (.canWrite peer results)) : (s.onTransport event).Announcing near := by
  refine ⟨h.numbered.transport _, ?_⟩
  have hstep := h.fed.step allRequests_append event (fun _ hw => absurd rfl hw) ?_
  · rwa [hnone, List.append_nil] at hstep
  · intro peer results hevent hfd k hk hout out rest hrest hk' hw
    by_cases hempty : k.written = []
    · have hbuffer : s.transport.sendBuffer ≠ [] := by
        intro hnil
        rw [TcpConnection.unsent, hnil, List.flatten_nil, List.drop_nil] at hrest
        have hnothing := (List.append_eq_nil_iff.1 hrest).1
        rw [hempty, hnothing] at hw
        exact hw rfl
      obtain ⟨hzero, hqueue, hfirst⟩ := hwrite peer results hevent ⟨hfd, hbuffer, k, hk, hout, hempty⟩
      rw [hempty, List.nil_append, hrest, TcpConnection.unsent, hzero, hqueue]
      refine ⟨?_, rfl⟩
      cases hrequests : s.requests with
      | nil =>
          rw [Side.messages, hrequests] at hqueue
          exact absurd hqueue hbuffer
      | cons r requests =>
          have hmem : r ∈ s.requests := hrequests ▸ List.mem_cons_self ..
          refine ⟨r.message, ?_, (h.numbered.requests r hmem).2.1 (hfirst r ?_)⟩
          · rw [Side.messages, hrequests]
            rfl
          · rw [hrequests]
            rfl
    · rw [List.append_assoc, hrest]
      exact hk' hempty

/-- **One step.** -/
theorem Side.Announcing.step (h : s.Announcing near) (event : OutgoingEvent)
    (hwrite : s.WritesFirst event) : (s.step event).Announcing near := by
  cases event with
  | call call =>
      refine ⟨h.numbered.step (.call call), ?_⟩
      rw [Side.step]
      by_cases hsends : call.Sends s
      · obtain ⟨message, -, hissue, -⟩ := Side.issue_of_sends tcp hsends
        have hfed := h.fed.step allRequests_append (.send message call.input)
          (fun _ hw => absurd rfl hw) nofun
        rw [hissue, Side.messages, List.map_append]
        exact hfed
      · rw [Side.issue_of_not_sends tcp hsends]
        exact h.fed
  | up connect => exact h.onTransport _ rfl nofun
  | accept client => exact h.onTransport _ rfl nofun
  | canWrite peer results =>
      refine h.onTransport _ rfl ?_
      rintro peer' results' ⟨⟩
      exact hwrite
  | canRead result recv => exact h.onTransport _ rfl nofun
  | timer => exact h.onTransport _ rfl nofun

/-- The sockets are announced to. -/
theorem Side.Announcing.announced (h : s.Announcing near) {k : Socket}
    (hk : k ∈ s.transport.sockets) (hout : k.incoming = false) : k.Announced near s.messages := by
  intro hw
  obtain ⟨rest, hall⟩ := h.fed.past k hk hout
  obtain ⟨⟨first, hfirst, hannounces⟩, hflatten⟩ := hall hw
  cases hrequests : s.requests with
  | nil =>
      rw [Side.messages, hrequests] at hfirst
      cases hfirst
  | cons r requests =>
      have hmessages : s.messages = r.message :: requests.map SentRequest.message := by
        rw [Side.messages, hrequests]
        rfl
      rw [hmessages] at hfirst hflatten ⊢
      obtain rfl : r.message = first := Option.some.inj hfirst
      refine ⟨_, _, List.infix_rfl, ⟨rest, hflatten⟩, hannounces, ?_⟩
      intro m hm
      obtain ⟨q, hq, rfl⟩ := List.mem_map.1 hm
      exact h.numbered.silent hrequests q hq

end Runs

/-- **Every socket that is opened is announced to, as long as new sockets are only written to when no
other one has been written to before, and only when the first call has been encoded.** -/
theorem sockets_announced [Platform] (remote near : HostAndPort) (events : List OutgoingEvent)
    (h : Runs.Meets Side.step Side.WritesFirst
      { connection := ⟨remote, near, false⟩, transport := {} } events) :
    let s := events.foldl Side.step { connection := ⟨remote, near, false⟩, transport := {} }
    ∀ k ∈ s.transport.sockets, k.incoming = false → k.Announced near s.messages := by
  intro s k hk hout
  have hannouncing : s.Announcing near :=
    (Runs.always_of_meets (I := Side.Announcing near) (fun _ event h hwrite => h.step event hwrite)
      ⟨Side.numbered_initial remote near {}, TcpConnection.fed_initial _⟩ h).last
  exact hannouncing.announced hk hout

/-- The first attempt to connect takes too long.  Both requests are sent on the second socket. -/
theorem sockets_announced_timed_out :
    letI : Platform := ⟨.little⟩
    let near : HostAndPort := ⟨ascii "n", 1⟩
    let call (fd : ℕ) : Call ConnectResult :=
      ⟨true, ascii "A", cString (ascii "add"), { calls := [] }, .opened fd true⟩
    let events : List OutgoingEvent :=
      [.call (call 3), .timer, .call (call 4), .canWrite true [.sent 200, .sent 200]]
    let s := events.foldl Side.step { connection := ⟨⟨ascii "r", 2⟩, near, false⟩, transport := {} }
    ∀ k ∈ s.transport.sockets, k.incoming = false → k.Announced near s.messages := by
  let : Platform := ⟨.little⟩
  intro near call events
  refine sockets_announced ⟨ascii "r", 2⟩ near events ?_
  simp only [events, Runs.meets_cons, Runs.meets_nil, and_true]
  exact ⟨trivial, trivial, trivial, fun _ => by decide +kernel⟩

/-- The connection is lost after the first request has been sent.  The second one is sent on a new
socket, and does not say where its sender can be reached. -/
theorem second_socket_unannounced :
    letI : Platform := ⟨.little⟩
    ∃ (remote near : HostAndPort) (events : List OutgoingEvent),
      let s := events.foldl Side.step { connection := ⟨remote, near, false⟩, transport := {} }
      ∃ k ∈ s.transport.sockets, k.incoming = false ∧
        (∃ r ∈ s.requests, k.written = r.message ∧ ORB.Silent r.message) ∧
        ¬ k.Announced near s.messages := by
  let : Platform := ⟨.little⟩
  let near : HostAndPort := ⟨ascii "n", 1⟩
  let call (fd : ℕ) : Call ConnectResult :=
    ⟨true, ascii "A", cString (ascii "add"), { calls := [] }, .opened fd true⟩
  let events : List OutgoingEvent := [.call (call 3), .canWrite true [.sent 200],
    .canRead .failed fun _ => none, .call (call 4), .canWrite true [.sent 200]]
  refine ⟨⟨ascii "r", 2⟩, near, events, ?_⟩
  intro s
  have hnumbered : s.Numbered near := (Runs.always_of_step (I := Side.Numbered near)
    (fun _ event h => h.step event) (Side.numbered_initial _ near _) events).last
  obtain ⟨first, second, hrequests⟩ : ∃ first second, s.requests = [first, second] :=
    List.length_eq_two.1 (by decide +kernel)
  have hmessages : s.messages = [first.message, second.message] := by
    rw [Side.messages, hrequests]
    rfl
  have hsocket : (⟨false, s.messages.getD 1 [], false⟩ : Socket) ∈ s.transport.sockets := by
    decide +kernel
  have hlength : 0 < (s.messages.getD 1 []).length ∧
      (s.messages.getD 1 []).length ≤ (s.messages.getD 0 []).length ∧
      (s.messages.getD 0 []).length < 2 ^ 32 := by decide +kernel
  have hdiffer : ¬ s.messages.getD 1 [] <+: s.messages.getD 0 [] := by decide +kernel
  rw [hmessages] at hsocket hlength hdiffer
  obtain ⟨hpositive, hshorter, hlonger⟩ := hlength
  have hsilent : ORB.Silent second.message :=
    hnumbered.silent hrequests second (List.mem_singleton_self _)
  refine ⟨_, hsocket, rfl, ⟨second, ?_, rfl, hsilent⟩, fun hannounced => ?_⟩
  · rw [hrequests]
    exact List.mem_cons_of_mem _ (List.mem_singleton_self _)
  · obtain ⟨m, rest, hstretch, hbegins, hannounces, -⟩ :=
      hannounced (List.ne_nil_of_length_pos hpositive)
    rw [hmessages] at hstretch
    rcases List.mem_pair.1 (hstretch.subset (List.mem_cons_self ..)) with rfl | rfl
    · exact hdiffer (List.prefix_of_prefix_length_le hbegins (List.prefix_append _ _) hshorter)
    · obtain ⟨_, _, _, _, hsilent⟩ := hsilent
      obtain ⟨_, _, _, hannounces⟩ := hannounces
      have hflag := hannounces.flag_unique hsilent (hshorter.trans_lt hlonger)
      cases hflag

end Corba
