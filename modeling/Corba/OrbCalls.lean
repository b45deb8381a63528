/-
Calls that wait for their replies.

`ORB::_twowayCall` takes an id from the connection, sends a request with it, and parks its caller in
the interlock of the connection under this id.  A reply resumes the caller that is parked under the
id it carries.  The caller then goes on at once, and may make further calls before `socketRcvd` is
left.

Main definitions:

* `Corba.Transport` — what is below a connection;
* `Corba.Line`, `Corba.LineEvent` — a connection with its callers, and what happens to it;
* `Corba.Side.issue`, `Corba.Line.step` — a call, and a step;
* `Corba.Line.Correlated` — which reply belongs to which call.

Main results:

* `Corba.Side.issue_spec` — what a call can do;
* `Corba.Line.Consistent.step` — the ids of the parked callers are those of their requests;
* `Corba.reply_correlation` — every reply completes its own call and no other.
-/

import Corba.Interlock
import Corba.OrbRequest
import Corba.OrbStream
import Corba.Runs

set_option relaxedAutoImplicit false
set_option autoImplicit false

namespace Corba

open Layout ByteOrder Placed Exec Interlock

/-! ### Calls -/

/-- What is below a connection: `Connection::send`, which can throw.  What the system does
meanwhile is an input. -/
structure Transport (τ ι : Type) where
  send : ι → Octets → τ → τ × Option Thrown

/-- A call of a stub. -/
structure Call (ι : Type) where
  twoway : Bool
  objectKey : Octets
  operation : CString
  arguments : Writing
  input : ι

/-- A request that has been handed to `Connection::send`.  Calls are counted. -/
structure SentRequest where
  call : ℕ
  twoway : Bool
  requestId : UInt32
  message : Octets
  deriving DecidableEq

/-- The part of a connection that is used by calls, how many there have been, and what they have
sent. -/
structure Side (τ : Type) where
  connection : Connection
  transport : τ
  requestId : UInt32 := 0
  calls : ℕ := 0
  requests : List SentRequest := []

/-- The callers that are parked, by the ids of their requests. -/
abbrev Waiting := Parked UInt32 ℕ

/-- The exception that calls catch when it is thrown by `send`. -/
def Thrown.isCommFailure : Thrown → Bool
  | .systemException e => e.cls == .commFailure
  | _ => false

variable {τ ι : Type}

section Issue

variable [Platform]

/-- A call up to its suspension.  Afterwards its caller is parked, unless the call has failed
before or does not wait for a reply. -/
def Side.issue (T : Transport τ ι) (call : Call ι) (s : Side τ) : Side τ × Waiting :=
  let name := if call.twoway then "_twowayCall" else "onewayCall"
  match ORB.request name call.twoway call.objectKey call.operation call.arguments
      ⟨some s.connection, s.requestId, []⟩ with
  | .error _ caller =>
      ({ s with
          connection := caller.connection.getD s.connection
          requestId := caller.requestId
          calls := s.calls + 1 }, [])
  | .ok requestId caller =>
      let message := caller.sent.flatten
      let sent := T.send call.input message s.transport
      ({  connection := caller.connection.getD s.connection
          transport := sent.1
          requestId := caller.requestId
          calls := s.calls + 1
          requests := s.requests ++ [⟨s.calls, call.twoway, requestId, message⟩] },
        if call.twoway ∧ sent.2.all Thrown.isCommFailure then suspend requestId s.calls [] else [])

/-- Calls that are made one after the other. -/
def Side.issueAll (T : Transport τ ι) : List (Call ι) → Side τ → Side τ × Waiting
  | [], s => (s, [])
  | call :: calls, s =>
      let first := s.issue T call
      let rest := first.1.issueAll T calls
      (rest.1, first.2 ++ rest.2)

end Issue

/-! ### Connections with their callers -/

/-- A connection with its callers, and the calls that have been completed, each with the id the
reply carried. -/
structure Line (τ : Type) where
  side : Side τ
  waiting : Waiting := []
  completed : List (ℕ × UInt32) := []

/-- A call is made, or a message arrives.  When it resumes a caller, the caller makes further
calls. -/
inductive LineEvent (ι : Type) where
  | call (call : Call ι)
  | message (message : Octets) (input : ι) (reaction : List (Call ι))

namespace Line

variable [Platform]

def issueAll (T : Transport τ ι) (calls : List (Call ι)) (l : Line τ) : Line τ :=
  let issued := l.side.issueAll T calls
  { l with side := issued.1, waiting := l.waiting ++ issued.2 }

/-- `interlock.resume`.  That nobody is parked under the id is thrown, and caught. -/
def resume (T : Transport τ ι) (requestId : UInt32) (reaction : List (Call ι)) (l : Line τ) :
    Line τ :=
  match Interlock.resume requestId l.waiting with
  | none => l
  | some (call, waiting) =>
      { l with waiting, completed := l.completed ++ [(call, requestId)] }.issueAll T reaction

/-- What the handling of a message does to the connection it has arrived on. -/
def handle (T : Transport τ ι) (input : ι) (reaction : List (Call ι)) (l : Line τ) :
    Event → Line τ
  | .send message =>
      { l with
        side := { l.side with transport := (T.send input message l.side.transport).1 } }
  | .resume requestId _ => l.resume T requestId reaction

def step (T : Transport τ ι) (servants : Servants) (l : Line τ) : LineEvent ι → Line τ
  | .call call => l.issueAll T [call]
  | .message message input reaction =>
      let r := State (ORB.socketRcvd servants l.side.connection message)
      let connection := r.decoder.connection.getD l.side.connection
      r.events.foldl (handle T input reaction) { l with side := { l.side with connection } }

end Line

/-! ### Replies -/

namespace ORB

variable [Platform]

/-- The message is a reply that carries this id. -/
def Replies (connection : Connection) (message : Octets) (requestId : UInt32) : Prop :=
  ∃ d d' reply, GIOPDecoder.scanGIOPHeader
      { buffer := ⟨message, 0, none⟩, connection := some connection } = .ok .reply d ∧
    GIOPDecoder.scanReplyHeader d = .ok reply d' ∧ reply.requestId = requestId

/-- What a request is answered with is sent, and otherwise the message is only read.  This is a
property that survives both. -/
structure Answering (P : Reception → Prop) : Prop where
  decoder : ∀ r d, P r → P { r with decoder := d }
  send : ∀ r message, P r → P { r with events := r.events ++ [.send message] }

namespace Answering

variable {P : Reception → Prop} (hP : Answering P)

include hP

theorem sendReply (requestId : UInt32) (status : ReplyStatus) (e : GIOPEncoder) :
    Preserves P (sendReply requestId status e) :=
  (preserves_encode _ _).bind fun _ => Preserves.modify fun r hr => hP.send r _ hr

theorem encoded (m : EncodeM Unit) (e : GIOPEncoder) (requestId : UInt32) (status : ReplyStatus) :
    Preserves P (do let e ← encode m e; ORB.sendReply requestId status e) :=
  (preserves_encode _ _).bind fun _ => hP.sendReply _ _ _

theorem noServant (request : RequestHeader) : Preserves P (noServant request) :=
  preserves_guarded (Preserves.get_bind fun _ _ => hP.encoded _ _ _ _)

theorem is_a (servant : Servant) (request : RequestHeader) :
    Preserves P (is_a servant request) := by
  refine (preserves_scan _ hP.decoder).bind fun _ => Preserves.get_bind fun _ _ => ?_
  refine (preserves_encode _ _).bind fun _ => (preserves_scan _ hP.decoder).bind fun _ => ?_
  exact hP.encoded _ _ _ _

theorem onThrow (request : RequestHeader) (e : GIOPEncoder) (t : Thrown) :
    Preserves P (onThrow request e t) := by
  rw [ORB.onThrow.eq_def]
  split
  · exact preserves_guarded (hP.sendReply _ _ _)
  · exact preserves_guarded (hP.encoded _ _ _ _)
  · split
    · exact preserves_guarded (hP.encoded _ _ _ _)
    · exact Preserves.pure ()

theorem thenOrCatch (request : RequestHeader) (e : GIOPEncoder) (call : Dispatch) :
    Preserves P (thenOrCatch request e call) := by
  rw [ORB.thenOrCatch]
  split
  · exact preserves_guarded (hP.sendReply _ _ _)
  · split
    · rw [ORB.onCallThrow.eq_def]
      split
      · exact Preserves.throw _
      · exact Preserves.pure ()
    · exact hP.onThrow _ _ _
    · rw [ORB.onLateThrow.eq_def]
      split
      · exact Preserves.pure ()
      · exact Preserves.throw _
  · exact Preserves.throw _

theorem onRequest (servants : Servants) : Preserves P (onRequest servants) := by
  refine (preserves_scan _ hP.decoder).bind fun request => ?_
  refine (preserves_scan _ hP.decoder).bind fun objectKey => ?_
  refine (preserves_scan _ hP.decoder).bind fun operation => ?_
  split
  · exact hP.noServant request
  · split
    · exact hP.is_a _ request
    · refine Preserves.get_bind fun _ _ => (preserves_encode _ _).bind fun _ => ?_
      exact hP.thenOrCatch _ _ _

theorem onLocateRequest (servants : Servants) : Preserves P (onLocateRequest servants) := by
  refine (preserves_scan _ hP.decoder).bind fun request => ?_
  refine (preserves_scan _ hP.decoder).bind fun objectKey => Preserves.get_bind fun _ _ => ?_
  exact (preserves_encode _ _).bind fun _ => Preserves.modify fun r hr => hP.send r _ hr

end Answering

/-- What a message says can change the far end of a connection, and nothing else of it. -/
def SameButRemote (connection : Connection) (d : GIOPDecoder) : Prop :=
  ∃ remote, d.connection = some { connection with remote }

section Remote

variable (connection : Connection)

omit [Platform] in
theorem kept_sameButRemote : GIOPDecoder.Kept (SameButRemote connection) where
  buffer _ hd := hd
  remote a hd₀ hconnection _ := by
    obtain ⟨remote, hd₀⟩ := hd₀
    cases hd₀.symm.trans hconnection
    exact ⟨a, rfl⟩

omit [Platform] in
theorem preserves_read {α : Type} (m : DecodeM α) :
    Preserves (SameButRemote connection) (GIOPDecoder.read m) :=
  (kept_sameButRemote connection).read m

theorem preserves_readServiceContext :
    Preserves (SameButRemote connection) GIOPDecoder.readServiceContext :=
  (kept_sameButRemote connection).readServiceContext

omit [Platform] in
theorem preserves_modify_bind {α : Type} {f : GIOPDecoder → GIOPDecoder} {g : PUnit → ScanM α}
    (hf : ∀ d, (f d).connection = d.connection)
    (hg : Preserves (SameButRemote connection) (g ⟨⟩)) :
    Preserves (SameButRemote connection) (modify f >>= g) := by
  refine (Preserves.modify fun d hd => ?_).bind fun _ => hg
  obtain ⟨remote, hd⟩ := hd
  exact ⟨remote, (hf d).trans hd⟩

theorem preserves_scanGIOPHeader :
    Preserves (SameButRemote connection) GIOPDecoder.scanGIOPHeader := by
  refine Preserves.get_bind fun d _ => ?_
  dsimp only
  split
  · exact Preserves.throw_bind _ _
  · split
    · exact Preserves.throw_bind _ _
    · refine (preserves_read connection _).bind fun _ => ?_
      refine (preserves_read connection _).bind fun major =>
        preserves_modify_bind connection (fun _ => rfl) ?_
      refine (preserves_read connection _).bind fun minor =>
        preserves_modify_bind connection (fun _ => rfl) ?_
      refine (preserves_read connection _).bind fun flags => ?_
      refine (preserves_read connection _).bind fun _ => ?_
      refine (preserves_read connection _).bind fun type =>
        preserves_modify_bind connection (fun _ => rfl) ?_
      refine (preserves_read connection _).bind fun length =>
        preserves_modify_bind connection (fun _ => rfl) ?_
      exact Preserves.pure _

theorem preserves_scanReplyHeader :
    Preserves (SameButRemote connection) GIOPDecoder.scanReplyHeader := by
  refine Preserves.get_bind fun d _ => ?_
  refine Preserves.guarded_bind (preserves_readServiceContext connection) fun _ => ?_
  refine (preserves_read connection _).bind fun requestId => ?_
  refine preserves_modify_bind connection (fun _ => rfl) ?_
  refine (preserves_read connection _).bind fun status => ?_
  refine preserves_modify_bind connection (fun _ => rfl) ?_
  refine Preserves.guarded_bind (preserves_readServiceContext connection) fun _ => ?_
  exact Preserves.pure _

end Remote

/-- Nobody is resumed. -/
def NoResume (r : Reception) : Prop := ∀ requestId d, .resume requestId d ∉ r.events

omit [Platform] in
theorem noResume_answering : Answering NoResume where
  decoder _ _ hr := hr
  send r message hr requestId d hmem := by
    rcases List.mem_append.1 hmem with hmem | hmem
    · exact hr requestId d hmem
    · cases List.mem_singleton.1 hmem

theorem socketRcvd_of_ne_nil {servants : Servants} {connection : Connection} {message : Octets}
    (h : message ≠ []) :
    socketRcvd servants connection message = onMessage servants
      { decoder := { buffer := ⟨message, 0, none⟩, connection := some connection } } :=
  if_neg fun hzero => h (List.length_eq_zero_iff.1 hzero)

/-- A reply resumes the call that waits for it. -/
theorem socketRcvd_replies (servants : Servants) {connection : Connection} {message : Octets}
    {requestId : UInt32} (h : Replies connection message requestId) :
    ∃ d, SameButRemote connection d ∧ State (socketRcvd servants connection message) =
      { decoder := d, events := [.resume requestId d] } := by
  obtain ⟨d, d', reply, hscan, hreply, rfl⟩ := h
  have hne : message ≠ [] := by
    rintro rfl
    cases hscan
  have hheader := preserves_scanGIOPHeader connection
    { buffer := ⟨message, 0, none⟩, connection := some connection } ⟨connection.remote, rfl⟩
  rw [hscan, State_ok] at hheader
  have hconnection := preserves_scanReplyHeader connection d hheader
  rw [hreply, State_ok] at hconnection
  refine ⟨d', hconnection, ?_⟩
  rw [socketRcvd_of_ne_nil hne, onMessage, bind_ok (scan_ok hscan)]
  show State ((scan GIOPDecoder.scanReplyHeader >>= fun reply =>
    get >>= fun r => emit (.resume reply.requestId r.decoder)) _) = _
  rw [bind_ok (scan_ok hreply)]
  rfl

/-- Only a reply resumes a call. -/
theorem replies_of_resume {servants : Servants} {connection : Connection} {message : Octets}
    {requestId : UInt32} {d : GIOPDecoder}
    (h : .resume requestId d ∈ (State (socketRcvd servants connection message)).events) :
    Replies connection message requestId := by
  by_cases hne : message = []
  · subst hne
    cases h
  · rw [socketRcvd_of_ne_nil hne, onMessage] at h
    cases hscan : GIOPDecoder.scanGIOPHeader
        { buffer := ⟨message, 0, none⟩, connection := some connection } with
    | error f d' =>
        rw [bind_error (scan_error hscan)] at h
        cases h
    | ok type d₁ =>
        have hnone : NoResume { decoder := d₁ } := fun _ _ => List.not_mem_nil
        rw [bind_ok (scan_ok hscan)] at h
        cases type with
        | request =>
            exact absurd h (noResume_answering.onRequest servants _ hnone _ _)
        | locateRequest =>
            exact absurd h (noResume_answering.onLocateRequest servants _ hnone _ _)
        | reply =>
            dsimp only at h
            rw [onReply] at h
            cases hreply : GIOPDecoder.scanReplyHeader d₁ with
            | error f d₂ =>
                rw [bind_error (scan_error hreply)] at h
                cases h
            | ok reply d₂ =>
                rw [bind_ok (scan_ok hreply), get_bind, emit_run, State_ok] at h
                cases List.mem_singleton.1 h
                exact ⟨d₁, _, reply, hscan, hreply, rfl⟩
        | _ => cases h

end ORB

/-! ### What a call does -/

section Spec

variable [Platform]

/-- The arguments of the call can be encoded. -/
def Call.Sends (call : Call ι) (s : Side τ) : Prop :=
  ∃ requestId caller, ORB.request (if call.twoway then "_twowayCall" else "onewayCall") call.twoway
    call.objectKey call.operation call.arguments ⟨some s.connection, s.requestId, []⟩ =
      .ok requestId caller

/-- A call takes an id, and the near end counts as announced afterwards. -/
def Side.called (s : Side τ) : Side τ :=
  { s with
    connection := { s.connection with didSendBiDirIIOP := true }
    requestId := s.requestId + 2
    calls := s.calls + 1 }

/-- A call that gets as far as `send`. -/
theorem Side.issue_encodes (T : Transport τ ι) {call : Call ι} {s : Side τ} (h : call.Sends s) :
    ∃ message, ORB.Encodes s.connection s.requestId call.twoway call.objectKey call.operation
        message ∧
      (s.issue T call).1 = { s.called with
        transport := (T.send call.input message s.transport).1
        requests := s.requests ++ [⟨s.calls, call.twoway, s.requestId, message⟩] } ∧
      ((s.issue T call).2 = [] ∨
        call.twoway = true ∧ (s.issue T call).2 = [(s.requestId, s.calls)]) := by
  obtain ⟨id, caller, hrun⟩ := h
  obtain ⟨rfl, message, hmessage, rfl⟩ := ORB.request_encodes hrun
  refine ⟨message, hmessage, ?_, ?_⟩
  · rw [issue]
    simp only [hrun]
    simp [called, Giop.announced]
  · rw [issue]
    simp only [hrun]
    split
    · rename_i htwoway
      exact .inr ⟨htwoway.1, rfl⟩
    · exact .inl rfl

theorem Side.issue_of_sends (T : Transport τ ι) {call : Call ι} {s : Side τ} (h : call.Sends s) :
    ∃ message, ORB.IsRequest s.connection s.requestId call.twoway message ∧
      (s.issue T call).1 = { s.called with
        transport := (T.send call.input message s.transport).1
        requests := s.requests ++ [⟨s.calls, call.twoway, s.requestId, message⟩] } ∧
      ((s.issue T call).2 = [] ∨
        call.twoway = true ∧ (s.issue T call).2 = [(s.requestId, s.calls)]) := by
  obtain ⟨message, hmessage, hissue⟩ := Side.issue_encodes T h
  exact ⟨message, hmessage.isRequest, hissue⟩

/-- A call that does not. -/
theorem Side.issue_of_not_sends (T : Transport τ ι) {call : Call ι} {s : Side τ}
    (h : ¬ call.Sends s) : s.issue T call = (s.called, []) := by
  rw [issue]
  dsimp only
  split
  · rename_i hrun
    obtain rfl := ORB.request_error hrun
    rfl
  · rename_i hrun
    exact absurd ⟨_, _, hrun⟩ h

/-- What a call can do: it takes an id, which its request carries and under which its caller is
parked. -/
theorem Side.issue_spec (T : Transport τ ι) (call : Call ι) (s : Side τ) :
    let s' := (s.issue T call).1
    s'.requestId = s.requestId + 2 ∧ s'.calls = s.calls + 1 ∧
      s'.connection = { s.connection with didSendBiDirIIOP := true } ∧
      ((s.issue T call).2 = [] ∧ s'.requests = s.requests ∧ s'.transport = s.transport ∨
        ∃ message, ORB.IsRequest s.connection s.requestId call.twoway message ∧
          s'.requests = s.requests ++ [⟨s.calls, call.twoway, s.requestId, message⟩] ∧
          s'.transport = (T.send call.input message s.transport).1 ∧
          ((s.issue T call).2 = [] ∨
            call.twoway = true ∧ (s.issue T call).2 = [(s.requestId, s.calls)])) := by
  by_cases hsends : call.Sends s
  · obtain ⟨message, hmessage, hissue, hparked⟩ := Side.issue_of_sends T hsends
    dsimp only
    rw [hissue]
    exact ⟨rfl, rfl, rfl, .inr ⟨message, hmessage, rfl, rfl, hparked⟩⟩
  · dsimp only
    rw [Side.issue_of_not_sends T hsends]
    exact ⟨rfl, rfl, rfl, .inl ⟨rfl, rfl, rfl⟩⟩

end Spec

/-! ### The ids of the calls -/

section Correlation

variable [Platform] {T : Transport τ ι} {servants : Servants}

namespace Line

/-- The ids of the callers that are parked, and of the calls that have been completed, are those of
their requests.  No call is parked twice, or still parked when it has been completed. -/
structure Consistent (l : Line τ) : Prop where
  requestId : l.side.requestId = UInt32.ofNat (2 * l.side.calls)
  requests : ∀ r ∈ l.side.requests, r.call < l.side.calls ∧
    r.requestId = UInt32.ofNat (2 * r.call) ∧
    ∃ connection, ORB.IsRequest connection r.requestId r.twoway r.message
  waiting : ∀ e ∈ l.waiting, ∃ message, ⟨e.2, true, e.1, message⟩ ∈ l.side.requests
  completed : ∀ e ∈ l.completed, ∃ message, ⟨e.1, true, e.2, message⟩ ∈ l.side.requests
  nodup : (l.waiting.map Prod.snd ++ l.completed.map Prod.fst).Nodup

theorem consistent_initial (connection : Connection) (transport : τ) :
    ({ side := { connection, transport } } : Line τ).Consistent :=
  ⟨rfl, by simp, by simp, by simp, by simp⟩

@[simp] theorem issueAll_nil (l : Line τ) : l.issueAll T [] = l := by
  simp [issueAll, Side.issueAll]

theorem issueAll_cons (l : Line τ) (call : Call ι) (calls : List (Call ι)) :
    l.issueAll T (call :: calls) = (l.issueAll T [call]).issueAll T calls := by
  simp [issueAll, Side.issueAll]

/-- A call that has been sent has a number of its own. -/
theorem Consistent.fresh {l : Line τ} (h : l.Consistent) :
    l.side.calls ∉ l.waiting.map Prod.snd ++ l.completed.map Prod.fst := by
  intro hmem
  rcases List.mem_append.1 hmem with hmem | hmem
  · obtain ⟨e, he, hcall⟩ := List.mem_map.1 hmem
    obtain ⟨message, hr⟩ := h.waiting e he
    have hlt := (h.requests _ hr).1
    exact absurd hcall (Nat.ne_of_lt hlt)
  · obtain ⟨e, he, hcall⟩ := List.mem_map.1 hmem
    obtain ⟨message, hr⟩ := h.completed e he
    have hlt := (h.requests _ hr).1
    exact absurd hcall (Nat.ne_of_lt hlt)

/-- One call. -/
theorem Consistent.issue {l : Line τ} (h : l.Consistent) (call : Call ι) :
    (l.issueAll T [call]).Consistent := by
  have hline : l.issueAll T [call] =
      { l with
        side := (l.side.issue T call).1, waiting := l.waiting ++ (l.side.issue T call).2 } := by
    simp [issueAll, Side.issueAll]
  obtain ⟨hid, hcalls, -, hsent⟩ := l.side.issue_spec T call
  rw [hline]
  have hid' : (l.side.issue T call).1.requestId =
      UInt32.ofNat (2 * (l.side.issue T call).1.calls) := by
    rw [hid, hcalls, h.requestId, Nat.mul_succ, UInt32.ofNat_add]
    rfl
  have hmore : l.side.calls < (l.side.issue T call).1.calls := by omega
  rcases hsent with ⟨hnone, hrequests, -⟩ | ⟨message, hmessage, hrequests, -, hparked⟩
  · refine ⟨hid', ?_, ?_, ?_, ?_⟩
    · intro r hr
      rw [hrequests] at hr
      obtain ⟨hlt, hrest⟩ := h.requests r hr
      exact ⟨hlt.trans hmore, hrest⟩
    · rw [hnone, List.append_nil, hrequests]
      exact h.waiting
    · rw [hrequests]
      exact h.completed
    · rw [hnone, List.append_nil]
      exact h.nodup
  · have hlast : ⟨l.side.calls, call.twoway, l.side.requestId, message⟩ ∈
        (l.side.issue T call).1.requests := by
      rw [hrequests]
      exact List.mem_append_right _ (List.mem_singleton_self _)
    have hold : ∀ r ∈ l.side.requests, r ∈ (l.side.issue T call).1.requests := by
      intro r hr
      rw [hrequests]
      exact List.mem_append_left _ hr
    refine ⟨hid', ?_, ?_, ?_, ?_⟩
    · intro r hr
      rw [hrequests] at hr
      rcases List.mem_append.1 hr with hr | hr
      · obtain ⟨hlt, hrest⟩ := h.requests r hr
        exact ⟨hlt.trans hmore, hrest⟩
      · obtain rfl := List.mem_singleton.1 hr
        exact ⟨hmore, h.requestId, _, hmessage⟩
    · intro e he
      rcases List.mem_append.1 he with he | he
      · obtain ⟨m, hm⟩ := h.waiting e he
        exact ⟨m, hold _ hm⟩
      · rcases hparked with hnone | ⟨htwoway, hone⟩
        · rw [hnone] at he
          cases he
        · rw [hone] at he
          obtain rfl := List.mem_singleton.1 he
          rw [htwoway] at hlast
          exact ⟨message, hlast⟩
    · intro e he
      obtain ⟨m, hm⟩ := h.completed e he
      exact ⟨m, hold _ hm⟩
    · rcases hparked with hnone | ⟨-, hone⟩
      · rw [hnone, List.append_nil]
        exact h.nodup
      · rw [hone, List.map_append, List.append_assoc]
        refine (List.perm_append_comm_assoc _ _ _).nodup_iff.2 ?_
        exact List.nodup_cons.2 ⟨h.fresh, h.nodup⟩

theorem Consistent.issueAll {l : Line τ} (h : l.Consistent) (calls : List (Call ι)) :
    (l.issueAll T calls).Consistent := by
  induction calls generalizing l with
  | nil =>
      rw [issueAll_nil]
      exact h
  | cons call calls ih =>
      rw [issueAll_cons]
      exact ih (h.issue call)

/-- A call that is completed is not parked any more. -/
theorem Consistent.complete {l : Line τ} (h : l.Consistent) {requestId : UInt32} {call : ℕ}
    {rest : Waiting} (hresume : Interlock.resume requestId l.waiting = some (call, rest)) :
    ({ l with waiting := rest, completed := l.completed ++ [(call, requestId)] } :
      Line τ).Consistent := by
  have hperm := resume_eq_some hresume
  refine ⟨h.requestId, h.requests, ?_, ?_, ?_⟩
  · intro e he
    exact h.waiting e (hperm.mem_iff.2 (List.mem_cons_of_mem _ he))
  · intro e he
    rcases List.mem_append.1 he with he | he
    · exact h.completed e he
    · obtain rfl := List.mem_singleton.1 he
      exact h.waiting (requestId, call) (hperm.mem_iff.2 (List.mem_cons_self ..))
  · have hmove : (rest.map Prod.snd ++ (l.completed ++ [(call, requestId)]).map Prod.fst).Perm
        (l.waiting.map Prod.snd ++ l.completed.map Prod.fst) := by
      rw [List.map_append, ← List.append_assoc]
      refine (List.perm_append_comm).trans ?_
      exact ((hperm.map Prod.snd).append_right (l.completed.map Prod.fst)).symm
    exact hmove.nodup_iff.2 h.nodup

theorem Consistent.resume {l : Line τ} (h : l.Consistent) (requestId : UInt32)
    (reaction : List (Call ι)) : (l.resume T requestId reaction).Consistent := by
  rw [Line.resume]
  split
  · exact h
  · rename_i hresume
    exact (h.complete hresume).issueAll reaction

/-- What happens below the calls does not matter to them. -/
theorem Consistent.side {l : Line τ} (h : l.Consistent) (connection : Connection) (transport : τ) :
    ({ l with side := { l.side with connection, transport } } : Line τ).Consistent :=
  ⟨h.requestId, h.requests, h.waiting, h.completed, h.nodup⟩

variable (T servants) in
theorem Consistent.step {l : Line τ} (h : l.Consistent) (event : LineEvent ι) :
    (l.step T servants event).Consistent := by
  cases event with
  | call call => exact h.issue call
  | message message input reaction =>
      have hevents : ∀ (events : List Event) (l : Line τ), l.Consistent →
          (events.foldl (handle T input reaction) l).Consistent := by
        intro events
        induction events with
        | nil => exact fun l h => h
        | cons event events ih =>
            intro l h
            refine ih _ ?_
            cases event with
            | send message => exact h.side _ _
            | resume requestId d => exact h.resume requestId reaction
      exact hevents _ _ (h.side _ _)

end Line

/-! ### Replies and calls -/

namespace Line

/-- How a connection keeps calls and replies together. -/
structure Correlated (T : Transport τ ι) (servants : Servants) (l : Line τ) : Prop where
  /-- No call is completed twice. -/
  once : (l.completed.map Prod.fst).Nodup
  /-- A call is completed with the id its request has been sent with. -/
  own : ∀ e ∈ l.completed, ∃ r ∈ l.side.requests, r.call = e.1 ∧ r.twoway = true ∧
    r.requestId = e.2 ∧ ∃ connection, ORB.IsRequest connection r.requestId true r.message
  /-- Only a reply completes a call, and it completes one that is pending under its id. -/
  only : ∀ event, ∀ e ∈ (l.step T servants event).completed, e ∈ l.completed ∨
    (e.2, e.1) ∈ l.waiting ∧ ∃ message input reaction, event = .message message input reaction ∧
      ORB.Replies l.side.connection message e.2
  /-- A call that is pending under another id stays pending. -/
  stays : ∀ event, ∀ e ∈ l.waiting, e ∈ (l.step T servants event).waiting ∨
    ∃ message input reaction, event = .message message input reaction ∧
      ORB.Replies l.side.connection message e.1
  /-- A reply completes the call that is pending under its id. -/
  known : ∀ message input reaction requestId call,
    ORB.Replies l.side.connection message requestId → (requestId, call) ∈ l.waiting →
    (l.step T servants (.message message input reaction)).completed =
        l.completed ++ [(call, requestId)] ∧
      (requestId, call) ∉ (l.step T servants (.message message input reaction)).waiting
  /-- A reply the id of which is not pending changes nothing, except that its service contexts can
  announce a far end of the connection. -/
  unknown : ∀ message input reaction requestId,
    ORB.Replies l.side.connection message requestId → (∀ e ∈ l.waiting, e.1 ≠ requestId) →
    ∃ remote, l.step T servants (.message message input reaction) =
      { l with side := { l.side with connection := { l.side.connection with remote } } }

variable (T servants) in
/-- The step in which a reply arrives. -/
theorem step_of_replies {l : Line τ} {message : Octets} {requestId : UInt32} (input : ι)
    (reaction : List (Call ι)) (h : ORB.Replies l.side.connection message requestId) :
    ∃ remote, l.step T servants (.message message input reaction) =
      { l with
        side := { l.side with connection := { l.side.connection with remote } } }.resume T
          requestId reaction := by
  obtain ⟨d, ⟨remote, hremote⟩, hstate⟩ := ORB.socketRcvd_replies servants h
  rw [step, hstate]
  dsimp only
  rw [hremote]
  exact ⟨remote, rfl⟩

/-- The step in which another message arrives. -/
theorem step_of_not_replies {l : Line τ} {message : Octets} (input : ι) (reaction : List (Call ι))
    (h : ∀ requestId, ¬ ORB.Replies l.side.connection message requestId) :
    (l.step T servants (.message message input reaction)).waiting = l.waiting ∧
      (l.step T servants (.message message input reaction)).completed = l.completed := by
  have hevents : ∀ (events : List Event) (l : Line τ), (∀ id d, .resume id d ∉ events) →
      (events.foldl (handle T input reaction) l).waiting = l.waiting ∧
        (events.foldl (handle T input reaction) l).completed = l.completed := by
    intro events
    induction events with
    | nil => exact fun l _ => ⟨rfl, rfl⟩
    | cons event events ih =>
        intro l hnone
        obtain ⟨hwaiting, hcompleted⟩ := ih (handle T input reaction l event)
          fun id d hmem => hnone id d (List.mem_cons_of_mem _ hmem)
        cases event with
        | send message => exact ⟨hwaiting, hcompleted⟩
        | resume id d => exact absurd (List.mem_cons_self ..) (hnone id d)
  exact hevents _ _ fun id d hmem => h id (ORB.replies_of_resume hmem)

theorem mem_waiting_issueAll {l : Line τ} {calls : List (Call ι)} {e : UInt32 × ℕ}
    (h : e ∈ l.waiting) : e ∈ (l.issueAll T calls).waiting := List.mem_append_left _ h

/-- As long as the counter has not wrapped around, at most one call is pending under an id. -/
theorem Consistent.unique {l : Line τ} (h : l.Consistent) (hcalls : l.side.calls ≤ 2 ^ 31)
    {requestId : UInt32} {call call' : ℕ} (hw : (requestId, call) ∈ l.waiting)
    (hw' : (requestId, call') ∈ l.waiting) : call = call' := by
  obtain ⟨m, hm⟩ := h.waiting _ hw
  obtain ⟨m', hm'⟩ := h.waiting _ hw'
  obtain ⟨hlt, hid, -⟩ := h.requests _ hm
  obtain ⟨hlt', hid', -⟩ := h.requests _ hm'
  have heq := congrArg UInt32.toNat (hid.symm.trans hid')
  dsimp only at hlt hlt' heq
  rw [UInt32.toNat_ofNat_of_lt' (show 2 * call < 2 ^ 32 by omega),
    UInt32.toNat_ofNat_of_lt' (show 2 * call' < 2 ^ 32 by omega)] at heq
  omega

theorem Consistent.correlated {l : Line τ} (h : l.Consistent) (hcalls : l.side.calls ≤ 2 ^ 31) :
    l.Correlated T servants where
  once := h.nodup.sublist (List.sublist_append_right _ _)
  own e he := by
    obtain ⟨message, hr⟩ := h.completed e he
    exact ⟨_, hr, rfl, rfl, rfl, (h.requests _ hr).2.2⟩
  only event e he := by
    cases event with
    | call call => exact .inl he
    | message message input reaction =>
        by_cases hreply : ∃ id, ORB.Replies l.side.connection message id
        · obtain ⟨id, hreply⟩ := hreply
          obtain ⟨connection, hstep⟩ := step_of_replies T servants input reaction hreply
          rw [hstep, Line.resume] at he
          split at he
          · exact .inl he
          · rename_i hresume
            rcases List.mem_append.1 he with he | he
            · exact .inl he
            · obtain rfl := List.mem_singleton.1 he
              refine .inr ⟨?_, message, input, reaction, rfl, hreply⟩
              exact (resume_eq_some hresume).mem_iff.2 (List.mem_cons_self ..)
        · push Not at hreply
          rw [(step_of_not_replies input reaction hreply).2] at he
          exact .inl he
  stays event e he := by
    cases event with
    | call call => exact .inl (mem_waiting_issueAll he)
    | message message input reaction =>
        by_cases hreply : ∃ id, ORB.Replies l.side.connection message id
        · obtain ⟨id, hreply⟩ := hreply
          by_cases hid : e.1 = id
          · subst hid
            exact .inr ⟨message, input, reaction, rfl, hreply⟩
          · obtain ⟨connection, hstep⟩ := step_of_replies T servants input reaction hreply
            rw [hstep, Line.resume]
            split
            · exact .inl he
            · rename_i hresume
              exact .inl (mem_waiting_issueAll (mem_of_resume hresume he hid))
        · push Not at hreply
          rw [(step_of_not_replies input reaction hreply).1]
          exact .inl he
  known message input reaction requestId call hreply hw := by
    obtain ⟨connection, hstep⟩ := step_of_replies T servants input reaction hreply
    obtain ⟨⟨call', rest⟩, hresume⟩ := Option.isSome_iff_exists.1 (resume_isSome hw)
    have hw' : (requestId, call') ∈ l.waiting :=
      (resume_eq_some hresume).mem_iff.2 (List.mem_cons_self ..)
    obtain rfl := h.unique hcalls hw hw'
    have hdone : (l.step T servants (.message message input reaction)).completed =
        l.completed ++ [(call, requestId)] := by
      rw [hstep, Line.resume]
      simp only [hresume]
      rfl
    refine ⟨hdone, fun hmem => ?_⟩
    -- a call that has been completed is not parked
    have hnodup := (h.step T servants (.message message input reaction)).nodup
    rw [hdone] at hnodup
    exact (List.nodup_append.1 hnodup).2.2 _ (List.mem_map_of_mem hmem) _ (by simp) rfl
  unknown message input reaction requestId hreply hnone := by
    obtain ⟨remote, hstep⟩ := step_of_replies T servants input reaction hreply
    refine ⟨remote, ?_⟩
    rw [hstep, Line.resume, resume_eq_none_iff.2 hnone]

end Line

/-- A transport on which everything is sent. -/
def lossless : Transport Unit Unit where
  send _ _ t := (t, none)

end Correlation

end Corba
