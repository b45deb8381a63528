/-
Messages between hosts.

The two ends of a connection run the same program on hosts of their own, which need not have the same
byte order.  A message says which order it is in, so what one end has encoded the other can scan: a
request arrives with its id, its object key and its operation, and a reply with its id and status.

Main definitions:

* `Corba.Host` — an ORB with the byte order of its host and its servants;
* `Corba.ORB.handle` — what is done with a request whose header has been read;
* `Corba.ORB.Answer` — at most one message has been sent, which is a reply to the request.

Main results:

* `Corba.ORB.socketRcvd_encodes` — a request of another host arrives;
* `Corba.ORB.socketRcvd_isReply` — a reply of another host arrives;
* `Corba.ORB.answer_handle` — a request is answered at most once.
-/

import Corba.OrbCalls
import Corba.OrbException

set_option relaxedAutoImplicit false
set_option autoImplicit false

namespace Corba

open Layout ByteOrder Placed Exec

/-- An ORB: the host it runs on, and what has been activated there. -/
structure Host where
  platform : Platform
  servants : Servants

/-- `ORB::socketRcvd` at this host. -/
def Host.socketRcvd (h : Host) (connection : Connection) (message : Octets) : Reception :=
  State (@ORB.socketRcvd h.platform h.servants connection message)

/-- The decoder works on what has arrived over this connection, of which it may have been told another
name of the far end. -/
def GIOPDecoder.From (d : GIOPDecoder) (connection : Connection) : Prop :=
  ∃ c, d.connection = some c ∧ c.protocolLocal = connection.protocolLocal

theorem Connection.protocolLocal_adopt (c : Connection) (a : HostAndPort) :
    (c.adopt a).protocolLocal = c.protocolLocal := by
  rw [adopt]
  split <;> rfl

namespace ORB

/-! ### A request arrives -/

section Arrival

variable [Platform]

/-- What is done with a request whose header has been read. -/
def handle (servants : Servants) (request : RequestHeader) (objectKey operation : Octets) :
    RcvM Unit :=
  match servants objectKey with
  | none => noServant request
  | some servant =>
      if operation = ascii "_is_a" then is_a servant request
      else dispatch servant request operation

theorem handle_servant {servants : Servants} {servant : Servant} {objectKey operation : Octets}
    (h : servants objectKey = some servant) (hop : operation ≠ ascii "_is_a")
    (request : RequestHeader) :
    handle servants request objectKey operation = dispatch servant request operation := by
  rw [handle, h]
  exact if_neg hop

/-- **A request that has been encoded at one host is handled at another one**, with the id, the key
and the operation it has been sent with.  The decoder then stands at the arguments. -/
theorem socketRcvd_encodes {sender : Host} {connection : Connection} {requestId : UInt32}
    {responseExpected : Bool} {objectKey operation message : Octets}
    (h : @Encodes sender.platform connection requestId responseExpected objectKey operation message)
    (hsize : message.length < 2 ^ 32) (servants : Servants) (near : Connection) :
    ∃ (request : RequestHeader) (d : GIOPDecoder), request.requestId = requestId ∧
      request.responseExpected = responseExpected ∧ d.Speaks 1 2 ∧ d.From near ∧
      d.buffer = ⟨message, extent 12 (Giop.request sender.platform.native false (some connection)
        objectKey operation requestId responseExpected), some sender.platform.native⟩ ∧
      socketRcvd servants near message = handle servants request objectKey operation ⟨d, []⟩ := by
  obtain ⟨hhead, hrequest, hle, hmin⟩ := h
  have hfits := hle.trans_lt hsize
  have hscan := GIOPDecoder.scanGIOPHeader_run
    (d := { buffer := ⟨message, 0, none⟩, connection := some near }) hhead hmin rfl
  obtain ⟨key, op, hrun, hkey, hop⟩ := GIOPDecoder.scanRequestHeader_request
    (d := { buffer := ⟨message, 12, some sender.platform.native⟩, connection := some near
            m_length := (UInt32.ofNat (message.length - 12)).toNat }) hrequest hfits
    (by omega) rfl fun _ => rfl
  have hlt : operation.length < 2 ^ 32 := by
    by_contra hge
    have hop := hop.le_length (List.ne_nil_of_length_pos (by omega))
    omega
  have hend : ¬ (⟨op, operation.length⟩ : View).Endless := by
    rw [View.Endless]
    dsimp only
    omega
  have hhandled := socketRcvd_operation servants (by omega) hscan hrun hend
  have hkey' : (⟨key, objectKey.length⟩ : View).of message = objectKey := hkey.take_drop
  have hop' : (⟨op, operation.length⟩ : View).of message = operation := hop.take_drop
  rw [hkey', hop'] at hhandled
  obtain ⟨c, hfrom⟩ : ∃ c, GIOPDecoder.heard (some connection) (some near) = some c ∧
      c.protocolLocal = near.protocolLocal := by
    rw [GIOPDecoder.heard]
    split
    · exact ⟨near, rfl, rfl⟩
    · exact ⟨_, rfl, near.protocolLocal_adopt _⟩
  exact ⟨_, _, rfl, rfl, ⟨rfl, rfl⟩, ⟨_, hfrom⟩, rfl, hhandled⟩

/-- A reply whose headers can be read resumes the call with its id. -/
theorem socketRcvd_of_scan (servants : Servants) (near : Connection) {message : Octets}
    {d₁ d₂ : GIOPDecoder} {reply : ReplyHeader} (hne : message.length ≠ 0)
    (hscan : GIOPDecoder.scanGIOPHeader
      { buffer := ⟨message, 0, none⟩, connection := some near } = .ok .reply d₁)
    (hrun : GIOPDecoder.scanReplyHeader d₁ = .ok reply d₂) :
    socketRcvd servants near message = .ok () ⟨d₂, [.resume reply.requestId d₂]⟩ := by
  rw [socketRcvd, if_neg hne, onMessage, bind_ok (scan_ok hscan)]
  dsimp only
  rw [onReply, bind_ok (scan_ok hrun), get_bind, emit_run]
  rfl

/-- **A reply that has been sent at one host arrives at another one**: it resumes the call with its
id, and the decoder stands at its body. -/
theorem socketRcvd_isReply {sender : Host} {minor : ℕ} {requestId : UInt32} {status : ReplyStatus}
    {message : Octets} (h : @IsReply sender.platform 1 minor requestId status message)
    (hminor : minor ≤ 2) (hmin : 24 ≤ message.length) (hsize : message.length < 2 ^ 64)
    (servants : Servants) (near : Connection) :
    ∃ d : GIOPDecoder, Replies near message requestId ∧
      socketRcvd servants near message = .ok () ⟨d, [.resume requestId d]⟩ ∧
      d.buffer = ⟨message, 24, some sender.platform.native⟩ ∧ d.replyStatus = status ∧
      d.connection = some near := by
  obtain ⟨hhead, hreply⟩ := h
  have hversion : (UInt8.ofNat minor).toNat = minor :=
    UInt8.toNat_ofNat_of_lt' (show minor < 256 by omega)
  have hscan := GIOPDecoder.scanGIOPHeader_run
    (d := { buffer := ⟨message, 0, none⟩, connection := some near }) hhead (by omega) rfl
  rw [hversion] at hscan
  have hrun := GIOPDecoder.scanReplyHeader_run
    (d := { buffer := ⟨message, 12, some sender.platform.native⟩, connection := some near
            minorVersion := minor, m_type := .reply
            m_length := (UInt32.ofNat (message.length - 12)).toNat }) hreply hsize
  rw [Giop.extent_replyHeader] at hrun
  exact ⟨_, ⟨_, _, _, hscan, hrun, rfl⟩,
    socketRcvd_of_scan servants near (by omega) hscan hrun, rfl, rfl, rfl⟩

end Arrival

/-! ### What a request is answered with -/

section Answer

variable [Platform]

/-- At most one message has been sent, which is a reply to this request. -/
def Answer (requestId : UInt32) (r : Reception) : Prop :=
  r.events = [] ∨ ∃ status message, r.events = [.send message] ∧
    IsReply 1 2 requestId status message ∧ 24 ≤ message.length

variable {request : RequestHeader} {d : GIOPDecoder} {e : GIOPEncoder} {r : Reception}

theorem answer_sendReply (hd : d.Speaks 1 2) (he : (replyRoom d).Continues e) (hr : r.events = [])
    (requestId : UInt32) (status : ReplyStatus) :
    Answer requestId (State (sendReply requestId status e r)) := by
  obtain ⟨message, hrun, hreply, hlength, -⟩ := sendReply_run he requestId status r
  have hroom : 24 ≤ e.buffer.offset := he.le_offset
  rw [hd.1, hd.2] at hreply
  rw [hrun, State_ok]
  exact .inr ⟨status, message, by rw [hr]; rfl, hreply, hlength ▸ hroom⟩

/-- A body is written behind what is there, and the reply is sent. -/
theorem answer_sendBody {m : EncodeM Unit} {xs : Cdr.Items} (hd : d.Speaks 1 2)
    (he : (replyRoom d).Continues e) (hr : r.events = [])
    (hm : m e = .ok () { e with buffer := e.buffer.put xs }) (requestId : UInt32)
    (status : ReplyStatus) :
    Answer requestId (State ((do let e ← encode m e; sendReply requestId status e) r)) := by
  rw [bind_ok (encode_ok hm r)]
  exact answer_sendReply hd (he.put xs) hr _ _

theorem answer_guarded {x : RcvM Unit} {requestId : UInt32} (hr : r.events = [])
    (h : Answer requestId (State (x r))) (expected : Bool) :
    Answer requestId (State ((if expected then x else pure ()) r)) := by
  cases expected with
  | true => exact h
  | false => exact .inl hr

theorem answer_onThrow (hd : d.Speaks 1 2) (he : (replyRoom d).Continues e) (hr : r.events = [])
    (t : Thrown) : Answer request.requestId (State (onThrow request e t r)) := by
  cases t with
  | userException => exact answer_guarded hr (answer_sendReply hd he hr _ _) _
  | systemException ex =>
      refine answer_guarded hr ?_ _
      exact answer_sendBody hd he hr (writeSystemException_run _ _ _ e) _ _
  | other => exact .inl hr
  | outOfRange _ | lengthError _ | runtimeError _ | stdException _ _ =>
      refine answer_guarded hr ?_ _
      exact answer_sendBody hd he hr (writeGeneric_run _ _ e) _ _

theorem answer_thenOrCatch (hd : d.Speaks 1 2) (he : (replyRoom d).Continues e)
    (hr : r.events = []) (call : Dispatch) :
    Answer request.requestId (State (thenOrCatch request e call r)) := by
  have hcontinues := call.writing.preserves_continues e he
  rw [thenOrCatch]
  cases hrun : call.writing.run e with
  | ok u e' =>
      rw [hrun] at hcontinues
      exact answer_guarded hr (answer_sendReply hd hcontinues hr _ _) _
  | error f e' =>
      rw [hrun] at hcontinues
      cases f with
      | undefined u => exact .inl hr
      | thrown t =>
          cases call.phase with
          | call => cases t <;> exact .inl hr
          | coroutine => exact answer_onThrow hd hcontinues hr t
          | resumed => cases t <;> exact .inl hr

theorem answer_noServant (hd : r.decoder.Speaks 1 2) (hr : r.events = []) :
    Answer request.requestId (State (noServant request r)) := by
  refine answer_guarded hr ?_ _
  rw [get_bind, bind_ok (encode_ok (writeNotExist_run r.decoder) r)]
  exact answer_sendReply hd ((replyRoom_continues r.decoder).put _) hr _ _

theorem answer_is_a (servant : Servant) (hd : r.decoder.Speaks 1 2) (hr : r.events = []) :
    Answer request.requestId (State (is_a servant request r)) := by
  rw [is_a]
  cases hview : GIOPDecoder.readStringView r.decoder with
  | error f d =>
      rw [bind_error (scan_error hview)]
      exact .inl hr
  | ok view d =>
      have hd' := GIOPDecoder.speaks_read CDRDecoder.readStringView r.decoder hd
      rw [show GIOPDecoder.read CDRDecoder.readStringView r.decoder = .ok view d from hview,
        State_ok] at hd'
      rw [bind_ok (scan_ok hview), get_bind, bind_ok (encode_ok (skipReplyHeader_run d) _)]
      cases hrun : GIOPDecoder.octets view d with
      | error f d' =>
          rw [bind_error (scan_error hrun)]
          exact .inl hr
      | ok repositoryId d' =>
          rw [bind_ok (scan_ok hrun), bind_ok (encode_ok (writeBoolean_run _ _) _)]
          exact answer_sendReply (r := ⟨d', r.events⟩) hd' ((replyRoom_continues d).put _) hr _ _

/-- **A request is answered at most once**, and with nothing else than a reply to it. -/
theorem answer_handle (request : RequestHeader) (servants : Servants)
    (objectKey operation : Octets) (hd : d.Speaks 1 2) :
    Answer request.requestId (State (handle servants request objectKey operation ⟨d, []⟩)) := by
  rw [handle]
  cases servants objectKey with
  | none => exact answer_noServant hd rfl
  | some servant =>
      dsimp only
      split
      · exact answer_is_a servant hd rfl
      · rw [dispatch_run]
        exact answer_thenOrCatch hd (replyRoom_continues d) rfl _

end Answer

end ORB

end Corba
