/-
The messages of the broker survive the stream.

Whatever is written to an encoder, the header that is put in front says how long the message is.  So
the messages the broker sends are well formed, and the collector at the far end hands them out again
however the stream is cut.

Main definitions:

* `Corba.ORB.Produced` — a message the broker hands to `Connection::send`.

Main results:

* `Corba.ORB.Produced.wellFormed` — such a message is well formed;
* `Corba.ORB.produced_survive_stream` — and is handed out at the far end.
-/

import Corba.OrbAnswer
import Corba.OrbRequest
import Corba.Stream2Packet

set_option relaxedAutoImplicit false
set_option autoImplicit false

namespace Corba

open Layout ByteOrder Placed Exec Framing

namespace ORB

variable [Platform]

/-! ### What is produced -/

/-- A message a call or the handling of a message has handed to `Connection::send`. -/
inductive Produced : Octets → Prop
  | twoway {caller caller' : Caller} {objectKey : Octets} {operation : CString}
      {arguments : Writing} {requestId : UInt32} {message : Octets}
      (h : _twowayCall objectKey operation arguments caller = .ok requestId caller')
      (hsent : caller'.sent = caller.sent ++ [message]) : Produced message
  | oneway {caller caller' : Caller} {objectKey : Octets} {operation : CString}
      {arguments : Writing} {message : Octets}
      (h : onewayCall objectKey operation arguments caller = .ok () caller')
      (hsent : caller'.sent = caller.sent ++ [message]) : Produced message
  | answer {servants : Servants} {connection : Connection} {received message : Octets}
      (h : .send message ∈ (State (socketRcvd servants connection received)).events) :
      Produced message

/-- If its length can be expressed, it is well formed, and its header is looked at. -/
def Sendable (message : Octets) : Prop :=
  message.length < 2 ^ 32 → WellFormed message ∧ 16 ≤ message.length

/-- The header of the encoder tells the length of the message. -/
theorem sendable_of_header {message : Octets} {major minor : UInt8} {type : MessageType}
    (h : Laid message 0 (Giop.header native major minor type (UInt32.ofNat (message.length - 12))))
    (hlen : 16 ≤ message.length) : Sendable message := by
  intro hsize
  obtain ⟨hmagic, hoctets, hlength⟩ := GIOPDecoder.laid_header h
  have hflags : message.getD 6 0 = Giop.endianFlag native := by
    have hsix := hoctets 2 (show 2 < 4 by decide)
    rw [List.getD_eq_getElem?_getD, hsix]
    rfl
  have horder : flagsOrder (Giop.endianFlag native) = native := by
    cases native <;> rfl
  have hfield : (message.drop 8).take 4 =
      (native : Endian).bytes 4 (UInt32.ofNat (message.length - 12)).toNat := by
    have hat := (laid_raw.1 (laid_align.1 hlength)).1.take_drop
    rwa [Endian.length_bytes] at hat
  refine ⟨⟨hmagic, ?_⟩, hlen⟩
  rw [lengthField, hflags, horder, hfield, Endian.value_bytes _ (UInt32.toNat_lt _),
    UInt32.toNat_ofNat_of_lt' (show message.length - 12 < 2 ^ 32 by omega)]
  omega

/-- A message the header of which is put in front at last. -/
theorem setGIOPHeader_sendable {e e' : GIOPEncoder} {type : MessageType} (he : e.buffer.Clean)
    (hoff : 16 ≤ e.buffer.offset) (hrun : GIOPEncoder.setGIOPHeader type e = .ok () e') :
    Sendable e'.buffer.data := by
  obtain ⟨D, hset, hD, hhead, -⟩ :=
    GIOPEncoder.setGIOPHeader_spec e type he.length_le (by omega)
  rw [hset] at hrun
  cases hrun
  rw [← hD] at hhead hoff
  exact sendable_of_header hhead hoff

/-! ### Calls -/

/-- What both kinds of calls send is well formed, whatever the arguments are. -/
theorem request_sendable {name : String} {responseExpected : Bool} {objectKey : Octets}
    {operation : CString} {arguments : Writing} {requestId : UInt32} {caller caller' : Caller}
    {message : Octets}
    (h : request name responseExpected objectKey operation arguments caller =
      .ok requestId caller')
    (hsent : caller'.sent = caller.sent ++ [message]) : Sendable message := by
  obtain ⟨connection, nextId, sent⟩ := caller
  cases connection with
  | none => cases h
  | some connection =>
      obtain ⟨-, message', hrequest, rfl⟩ := request_ok h
      obtain rfl : message' = message := by
        simpa using hsent
      exact sendable_of_header hrequest.header hrequest.length

/-! ### Answers -/

/-- All messages that have been sent are well formed. -/
def AllSendable (r : Reception) : Prop := ∀ message, .send message ∈ r.events → Sendable message

omit [Platform] in
theorem preserves_scan {α : Type} {P : Reception → Prop} (m : ScanM α)
    (hP : ∀ r d, P r → P { r with decoder := d }) : Preserves P (scan m) := by
  intro r hr
  rw [scan]
  split <;> exact hP r _ hr

omit [Platform] in
theorem preserves_encode {P : Reception → Prop} (m : EncodeM Unit) (e : GIOPEncoder) :
    Preserves P (encode m e) := by
  intro r hr
  rw [encode]
  split <;> exact hr

omit [Platform] in
/-- The encoder a program of user code ends with. -/
theorem yields_encode {P : GIOPEncoder → Prop} {m : EncodeM Unit} {e : GIOPEncoder}
    (hm : Preserves P m) (he : P e) : Yields P (encode m e) := by
  intro r e' r' hrun
  have hstep := hm e he
  rw [encode] at hrun
  split at hrun
  · rename_i h
    cases hrun
    rwa [h] at hstep
  · cases hrun

omit [Platform] in
theorem sendable_scan {α : Type} (m : ScanM α) : Preserves AllSendable (scan m) :=
  preserves_scan m fun _ _ hr => hr

omit [Platform] in
theorem sendable_emit {event : Event} (h : ∀ message, event = .send message → Sendable message) :
    Preserves AllSendable (emit event) := by
  refine Preserves.modify fun r hr message hm => ?_
  rcases List.mem_append.1 hm with hm | hm
  · exact hr message hm
  · exact h message (List.mem_singleton.1 hm).symm

theorem sendable_sendReply {d : GIOPDecoder} {e : GIOPEncoder} (he : (replyRoom d).Continues e)
    (requestId : UInt32) (status : ReplyStatus) :
    Preserves AllSendable (sendReply requestId status e) := by
  intro r hr
  obtain ⟨message, hrun, hreply, hlength, -⟩ := sendReply_run he requestId status r
  have hle : 24 ≤ e.buffer.offset := he.le_offset
  rw [hrun]
  intro sent hsent
  rcases List.mem_append.1 hsent with hsent | hsent
  · exact hr sent hsent
  · cases List.mem_singleton.1 hsent
    exact sendable_of_header hreply.1 (by omega)

/-- A body is written to the encoder of a reply, and the reply is sent. -/
theorem sendable_encodeReply {d : GIOPDecoder} {e : GIOPEncoder} {m : EncodeM Unit}
    (he : (replyRoom d).Continues e) (hm : Preserves (replyRoom d).Continues m)
    (requestId : UInt32) (status : ReplyStatus) :
    Preserves AllSendable (do let e ← encode m e; sendReply requestId status e) :=
  (yields_encode hm he).preserves_bind (preserves_encode m e) fun _ he' =>
    sendable_sendReply he' requestId status

private theorem continues {d : GIOPDecoder} : GIOPEncoder.Survives (replyRoom d).Continues :=
  GIOPEncoder.continues_survives (replyRoom d)

theorem preserves_writeSystemException {d : GIOPDecoder} (exceptionId : Octets)
    (minor completed : UInt32) :
    Preserves (replyRoom d).Continues (writeSystemException exceptionId minor completed) :=
  (continues.writeString _).bind fun _ =>
    (continues.writeUlong _).bind fun _ => continues.writeUlong _

omit [Platform] in
/-- When a response is expected. -/
theorem preserves_guarded {P : Reception → Prop} {c : Prop} [Decidable c] {x : RcvM Unit}
    (h : Preserves P x) : Preserves P (if c then x else pure ()) := by
  split
  · exact h
  · exact Preserves.pure ()

theorem sendable_noServant (request : RequestHeader) :
    Preserves AllSendable (noServant request) := by
  refine preserves_guarded (Preserves.get_bind fun r _ => ?_)
  have hstart : encode (do
      GIOPEncoder.skipReplyHeader
      writeSystemException SystemExceptionClass.objectNotExist.repId 0x4f4d0001
        CompletionStatus.no.toUlong) (answerEncoder r.decoder) =
      encode (writeSystemException SystemExceptionClass.objectNotExist.repId 0x4f4d0001
        CompletionStatus.no.toUlong) (replyRoom r.decoder) := by
    funext r'
    rw [encode, encode, bind_ok (skipReplyHeader_run r.decoder)]
  rw [hstart]
  exact sendable_encodeReply (replyRoom_continues r.decoder) (preserves_writeSystemException _ _ _)
    _ _

theorem sendable_is_a (servant : Servant) (request : RequestHeader) :
    Preserves AllSendable (is_a servant request) := by
  refine (sendable_scan _).bind fun view => Preserves.get_bind fun r _ => ?_
  have hstart : encode GIOPEncoder.skipReplyHeader (answerEncoder r.decoder) =
      pure (replyRoom r.decoder) := by
    funext r'
    rw [encode_ok (skipReplyHeader_run r.decoder)]
    rfl
  rw [hstart, pure_bind]
  refine (sendable_scan _).bind fun repositoryId => ?_
  exact sendable_encodeReply (replyRoom_continues r.decoder)
    (continues.write fun b => b.writeBoolean_eq _) _ _

theorem sendable_onThrow {d : GIOPDecoder} {e : GIOPEncoder} (request : RequestHeader)
    (he : (replyRoom d).Continues e) (t : Thrown) :
    Preserves AllSendable (onThrow request e t) := by
  have hgeneric : ∀ typeName what : CString,
      Preserves AllSendable (if request.responseExpected then do
          let e ← encode (do
            writeSystemException genericId 0 0
            GIOPEncoder.writeString (genericText typeName what)) e
          sendReply request.requestId .systemException e
        else pure ()) := by
    intro typeName what
    refine preserves_guarded (sendable_encodeReply he ?_ _ _)
    exact (preserves_writeSystemException _ _ _).bind fun _ => continues.writeString _
  cases t with
  | userException => exact preserves_guarded (sendable_sendReply he _ _)
  | systemException ex =>
      exact preserves_guarded (sendable_encodeReply he (preserves_writeSystemException _ _ _) _ _)
  | outOfRange what => exact hgeneric _ _
  | lengthError what => exact hgeneric _ _
  | runtimeError what => exact hgeneric _ _
  | stdException typeName what => exact hgeneric _ _
  | other => exact Preserves.pure ()

omit [Platform] in
theorem sendable_onCallThrow (t : Thrown) : Preserves AllSendable (onCallThrow t) := by
  cases t with
  | other => exact Preserves.throw _
  | _ => exact Preserves.pure ()

omit [Platform] in
theorem sendable_onLateThrow (t : Thrown) : Preserves AllSendable (onLateThrow t) := by
  cases t with
  | other => exact Preserves.pure ()
  | _ => exact Preserves.throw _

theorem sendable_thenOrCatch {d : GIOPDecoder} {e : GIOPEncoder} (request : RequestHeader)
    (he : (replyRoom d).Continues e) (call : Dispatch) :
    Preserves AllSendable (thenOrCatch request e call) := by
  have hwriting := call.writing.preserves_continues _ he
  rw [thenOrCatch]
  split
  · rename_i hrun
    rw [hrun] at hwriting
    exact preserves_guarded (sendable_sendReply hwriting _ _)
  · rename_i t e' hrun
    rw [hrun] at hwriting
    cases call.phase with
    | call => exact sendable_onCallThrow t
    | coroutine => exact sendable_onThrow request hwriting t
    | resumed => exact sendable_onLateThrow t
  · exact Preserves.throw _

theorem sendable_dispatch (servant : Servant) (request : RequestHeader) (operation : Octets) :
    Preserves AllSendable (dispatch servant request operation) := by
  intro r hr
  rw [dispatch_run]
  exact sendable_thenOrCatch request (replyRoom_continues r.decoder) _ r hr

theorem sendable_onRequest (servants : Servants) : Preserves AllSendable (onRequest servants) := by
  refine (sendable_scan _).bind fun request => (sendable_scan _).bind fun objectKey => ?_
  refine (sendable_scan _).bind fun operation => ?_
  cases servants objectKey with
  | none => exact sendable_noServant request
  | some servant =>
      dsimp only
      split
      · exact sendable_is_a servant request
      · exact sendable_dispatch servant request operation

theorem sendable_onReply : Preserves AllSendable onReply := by
  refine (sendable_scan _).bind fun reply => Preserves.get_bind fun r _ => sendable_emit ?_
  rintro message ⟨⟩

theorem sendable_onLocateRequest (servants : Servants) :
    Preserves AllSendable (onLocateRequest servants) := by
  refine (sendable_scan _).bind fun request => (sendable_scan _).bind fun objectKey => ?_
  refine Preserves.get_bind fun r _ => ?_
  have hyields : ∀ status : LocateStatusType,
      Yields (fun e : GIOPEncoder => Sendable e.buffer.data) (encode (do
        GIOPEncoder.encodeLocateReply request.requestId status
        GIOPEncoder.setGIOPHeader .locateReply) (answerEncoder r.decoder)) := by
    intro status r' e r'' hrun
    rw [encode, bind_ok (GIOPEncoder.encodeLocateReply_run _ _ _)] at hrun
    split at hrun
    · rename_i hset
      cases hrun
      refine setGIOPHeader_sendable ((clean_room 10).put _) ?_ hset
      show 16 ≤ extent 10 (Giop.locateReplyHeader native request.requestId status)
      rw [Giop.locateReplyHeader, extent_append, Cdr.extent_ulong, Cdr.extent_ulong]
      exact (show 16 ≤ roundUp 4 10 + 4 by decide).trans
        ((le_roundUp 4 _).trans (Nat.le_add_right _ 4))
    · cases hrun
  refine (hyields _).preserves_bind (preserves_encode _ _) fun e he => sendable_emit ?_
  rintro message ⟨⟩
  exact he

/-- Every message that is sent while a message is handled is well formed. -/
theorem sendable_onMessage (servants : Servants) :
    Preserves AllSendable (onMessage servants) := by
  refine (sendable_scan _).bind fun type => ?_
  cases type with
  | request => exact sendable_onRequest servants
  | reply => exact sendable_onReply
  | locateRequest => exact sendable_onLocateRequest servants
  | _ => exact Preserves.pure ()

/-- **What the broker sends is well formed**: the size of the message is twelve plus what its header
says. -/
theorem Produced.wellFormed {message : Octets} (h : Produced message)
    (hsize : message.length < 2 ^ 32) : WellFormed message ∧ 16 ≤ message.length := by
  cases h with
  | twoway h hsent => exact request_sendable h hsent hsize
  | oneway h hsent =>
      rw [onewayCall, bind_eq_ok] at h
      obtain ⟨requestId, c, h, hpure⟩ := h
      cases hpure
      exact request_sendable h hsent hsize
  | answer h =>
      rename_i servants connection received
      rw [socketRcvd] at h
      split at h
      · cases h
      · exact sendable_onMessage servants _ (fun _ h => absurd h List.not_mem_nil) message h hsize

/-! ### The stream -/

/-- **Messages of the broker survive the stream.**  The size of each of them is twelve plus the
length field of its header.  However the stream they make up is cut into chunks, the collector hands
out after each chunk exactly the messages that have been completed. -/
theorem produced_survive_stream (receiveBufferSize : ℕ) {msgs chunks : List Octets}
    (hmsgs : ∀ m ∈ msgs, Produced m ∧ m.length < 2 ^ 32)
    (hstream : chunks.flatten <+: msgs.flatten)
    (hfits : Admissible IIOPStream2Packet.feed IIOPStream2Packet.Fits chunks
      { receiveBufferSize }) :
    (∀ m ∈ msgs, m.length = 12 + lengthField m) ∧
    ∃ out s, feedAll IIOPStream2Packet.feed chunks { receiveBufferSize } = .ok out s ∧
      Delivers msgs 0 chunks out ∧ (chunks.flatten = msgs.flatten → out.flatten = msgs) := by
  have hwf : ∀ m ∈ msgs, WellFormed m ∧ 16 ≤ m.length := fun m hm =>
    (hmsgs m hm).1.wellFormed (hmsgs m hm).2
  refine ⟨fun m hm => (hwf m hm).1.length_eq, ?_⟩
  obtain ⟨out, s, hrun, hout⟩ := IIOPStream2Packet.receiver.delivers
    (holding_start receiveBufferSize fun m hm => (hwf m hm).1) hfits
    (by rwa [List.drop_zero]) fun m hm => (hwf m (mem_of_mem_arrived hm)).2
  refine ⟨out, s, hrun, hout, fun hall => ?_⟩
  rw [flatten_of_delivers hout, hall, arrived_all]

omit [Platform]

/-- A connection that has announced its near end. -/
def announcedConnection : Connection := { addConnection with didSendBiDirIIOP := true }

/-- The request of a call of `add`. -/
def addCall : Octets :=
  ascii "GIOP" ++ [1, 2, 1, 0, 44, 0, 0, 0, 0, 0, 0, 0, 3, 0, 0, 0, 0, 0, 0, 0, 1, 0, 0, 0] ++
    ascii "A" ++ [0, 0, 0, 4, 0, 0, 0] ++ ascii "add" ++ [0, 0, 0, 0, 0, 0, 0, 0, 0] ++
    [2, 0, 0, 0, 0, 0, 0, 0]

/-- It arrives in two chunks. -/
theorem produced_survive_stream_add :
    letI : Platform := ⟨.little⟩
    addCall.length = 12 + lengthField addCall ∧
    ∃ out s, feedAll IIOPStream2Packet.feed [addCall.take 9, addCall.drop 9]
        { receiveBufferSize := 512 } = .ok out s ∧ out.flatten = [addCall] := by
  have hcall : @_twowayCall ⟨.little⟩ (ascii "A") (cString (ascii "add"))
      { calls := [.value (.double 2)] } { connection := some announcedConnection } =
      .ok 0 { connection := some announcedConnection, requestId := 2, sent := [addCall] } := by
    decide +kernel
  have hmsgs : ∀ m ∈ [addCall], @Produced ⟨.little⟩ m ∧ m.length < 2 ^ 32 := by
    intro m hm
    obtain rfl := List.mem_singleton.1 hm
    exact ⟨@Produced.twoway ⟨.little⟩ _ _ _ _ _ _ _ hcall rfl, by decide⟩
  obtain ⟨hlength, out, s, hrun, -, hout⟩ := @produced_survive_stream ⟨.little⟩ 512 [addCall]
    [addCall.take 9, addCall.drop 9] hmsgs (by decide) ⟨by decide, by decide +kernel, trivial⟩
  exact ⟨hlength addCall (List.mem_singleton.2 rfl), out, s, hrun, hout (by decide)⟩

end ORB

end Corba
