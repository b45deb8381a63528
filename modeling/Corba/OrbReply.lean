/-
What an answer is made of.

Whatever user code writes, nothing stands behind the offset of the encoder, and the offset does not
go back.  So the headers of a reply can be put in front of what has been written, and the message
that is sent is a reply to the request in the version of the request.

Main definitions:

* `Corba.GIOPEncoder.Continues` — an encoder to which something has been written;
* `Corba.ORB.replyRoom` — the encoder of a reply before anything has been written;
* `Corba.ORB.IsReply` — a message that is a reply.

Main results:

* `Corba.GIOPEncoder.Survives.writing` — what user code does to an encoder;
* `Corba.ORB.sendReply_run` — sending a reply.
-/

import Corba.GiopReply
import Corba.Orb

set_option relaxedAutoImplicit false
set_option autoImplicit false

namespace Corba

open Layout ByteOrder Placed Exec

/-! ### What user code does to an encoder -/

/-- Something has been written to the encoder: nothing stands behind its offset, which has not gone
back. -/
structure GIOPEncoder.Continues (e₀ e : GIOPEncoder) : Prop where
  clean : e.buffer.Clean
  le_offset : e₀.buffer.offset ≤ e.buffer.offset
  connection : e.connection = e₀.connection
  majorVersion : e.majorVersion = e₀.majorVersion
  minorVersion : e.minorVersion = e₀.minorVersion

theorem GIOPEncoder.Continues.refl {e : GIOPEncoder} (h : e.buffer.Clean) : e.Continues e :=
  ⟨h, le_rfl, rfl, rfl, rfl⟩

namespace GIOPEncoder

variable {e₀ : GIOPEncoder}

theorem Continues.buffer {e : GIOPEncoder} (h : e₀.Continues e) {b : CDREncoder} (hb : b.Clean)
    (hle : e.buffer.offset ≤ b.offset) : e₀.Continues { e with buffer := b } :=
  ⟨hb, h.le_offset.trans hle, h.connection, h.majorVersion, h.minorVersion⟩

theorem Continues.put {e : GIOPEncoder} (h : e₀.Continues e) (xs : Cdr.Items) :
    e₀.Continues { e with buffer := e.buffer.put xs } :=
  h.buffer (h.clean.put xs) (le_extent _ _)

/-- There are three ways in which user code changes an encoder.  What survives each of them
survives all user code. -/
structure Survives [Platform] (P : GIOPEncoder → Prop) : Prop where
  put : ∀ e xs, P e → P { e with buffer := e.buffer.put xs }
  reserveSize : ∀ e, P e → P { e with buffer := e.buffer.reserveSize }
  fillInSize : Preserves P fillInSize

variable [Platform]

theorem continues_survives (e₀ : GIOPEncoder) : Survives e₀.Continues where
  put e xs he := he.put xs
  reserveSize e he := by
    refine he.buffer he.clean.reserveSize ?_
    rw [CDREncoder.reserveSize_eq]
    exact le_extent _ _
  fillInSize := by
    intro e he
    rw [GIOPEncoder.fillInSize]
    cases hrun : CDREncoder.fillInSize e.buffer with
    | ok u b =>
        obtain ⟨hclean, hoff⟩ := he.clean.fillInSize hrun
        exact he.buffer hclean hoff.ge
    | error f b =>
        -- without a reserved size, nothing is written
        have hb : b = e.buffer := by
          cases hstack : e.buffer.sizeStack <;> simp [CDREncoder.fillInSize, hstack] at hrun
          exact hrun.2.symm
        rw [hb]
        exact he

namespace Survives

variable {P : GIOPEncoder → Prop} (hP : Survives P)

include hP

theorem write {f : CDREncoder → CDREncoder} {xs : Cdr.Items} (hf : ∀ b, f b = b.put xs) :
    Preserves P (GIOPEncoder.write f) := by
  refine Preserves.modify fun e he => ?_
  rw [hf]
  exact hP.put e xs he

theorem reserve : Preserves P GIOPEncoder.reserveSize := Preserves.modify hP.reserveSize

theorem writeOctet (v : UInt8) : Preserves P (GIOPEncoder.writeOctet v) :=
  hP.write fun b => b.writeOctet_eq v

theorem writeEndian : Preserves P GIOPEncoder.writeEndian := by
  have heq : ∀ b : CDREncoder, b.writeEndian = b.put (Cdr.octet (Giop.endianFlag native)) :=
    fun _ => rfl
  exact hP.write heq

theorem writeUshort (v : UInt16) : Preserves P (GIOPEncoder.writeUshort v) :=
  hP.write fun b => b.writeUshort_eq v

theorem writeUlong (v : UInt32) : Preserves P (GIOPEncoder.writeUlong v) :=
  hP.write fun b => b.writeUlong_eq v

theorem writeString (v : Octets) : Preserves P (GIOPEncoder.writeString v) :=
  hP.write fun b => b.writeString_eq v

theorem writeBlob (v : Octets) : Preserves P (GIOPEncoder.writeBlob v) :=
  hP.write fun b => b.writeBlob_eq v

theorem writeEncapsulation {type : UInt32} {closure : EncodeM Unit} (h : Preserves P closure) :
    Preserves P (GIOPEncoder.writeEncapsulation type closure) := by
  refine (hP.writeUlong _).bind fun _ => hP.reserve.bind fun _ => ?_
  exact hP.writeEndian.bind fun _ => h.bind fun _ => hP.fillInSize

theorem writeProfile (objectKey : Octets) (objectIsAStub : Bool) :
    Preserves P (GIOPEncoder.writeProfile objectKey objectIsAStub) := by
  refine hP.writeEndian.bind fun _ => Preserves.get_bind fun e _ => ?_
  refine (hP.writeOctet _).bind fun _ => (hP.writeOctet _).bind fun _ => ?_
  cases e.connection with
  | none => exact Preserves.throw _
  | some c =>
      have htail : Preserves P (do
          GIOPEncoder.writeBlob objectKey
          if e.majorVersion ≠ 1 ∨ e.minorVersion ≠ 0 then
            GIOPEncoder.writeUlong 1
            GIOPEncoder.writeEncapsulation ComponentId.orbType
              (GIOPEncoder.writeUlong 0x4d313300)) := by
        refine (hP.writeBlob _).bind fun _ => ?_
        split
        · refine (hP.writeUlong _).bind fun _ => ?_
          exact hP.writeEncapsulation (hP.writeUlong _)
        · exact Preserves.pure _
      dsimp only
      split
      · exact (hP.writeString _).bind fun _ => (hP.writeUshort _).bind fun _ => htail
      · exact (hP.writeString _).bind fun _ => (hP.writeUshort _).bind fun _ => htail

theorem writeReference (repositoryId objectKey : Octets) (objectIsAStub : Bool) :
    Preserves P (GIOPEncoder.writeReference repositoryId objectKey objectIsAStub) := by
  refine (hP.writeString _).bind fun _ => (hP.writeUlong _).bind fun _ => ?_
  refine (hP.writeUlong _).bind fun _ => hP.reserve.bind fun _ => ?_
  exact (hP.writeProfile _ _).bind fun _ => hP.fillInSize

theorem writeObject (o : Option Object) : Preserves P (GIOPEncoder.writeObject o) := by
  cases o with
  | none =>
      refine (hP.writeUlong _).bind fun _ => ?_
      exact (hP.writeOctet _).bind fun _ => hP.writeUlong _
  | some o =>
      cases o with
      | stub s => exact hP.writeReference _ _ _
      | skeleton s => exact hP.writeReference _ _ _
      | ior => exact Preserves.throw _
      | valueType => exact Preserves.throw _

theorem writeCall (call : WriteCall) : Preserves P call.run := by
  cases call with
  | value v => exact hP.write fun b => b.writeValue_eq v
  | endian => exact hP.writeEndian
  | object o => exact hP.writeObject o
  | reserveSize => exact hP.reserve
  | fillInSize => exact hP.fillInSize

theorem writeCalls (calls : List WriteCall) : Preserves P (WriteCall.runAll calls) := by
  induction calls with
  | nil => exact Preserves.pure ()
  | cons call calls ih => exact (hP.writeCall call).bind fun _ => ih

/-- Whatever user code writes, and however it ends. -/
theorem writing (w : Writing) : Preserves P w.run := by
  refine (hP.writeCalls w.calls).bind fun _ => ?_
  cases w.completion with
  | returns => exact Preserves.pure ()
  | throws t => exact Preserves.throw _

end Survives

end GIOPEncoder

variable [Platform] {e₀ : GIOPEncoder}

/-- Whatever user code writes, and however it ends, it continues the encoder. -/
theorem Writing.preserves_continues (w : Writing) : Preserves e₀.Continues w.run :=
  (GIOPEncoder.continues_survives e₀).writing w

namespace ORB

/-! ### Steps -/

omit [Platform] in
theorem scan_ok {α : Type} {m : ScanM α} {r : Reception} {a : α} {d : GIOPDecoder}
    (h : m r.decoder = .ok a d) : scan m r = .ok a { r with decoder := d } := by
  rw [scan, h]

omit [Platform] in
theorem scan_error {α : Type} {m : ScanM α} {r : Reception} {f : Fault} {d : GIOPDecoder}
    (h : m r.decoder = .error f d) : scan m r = .error f { r with decoder := d } := by
  rw [scan, h]

omit [Platform] in
theorem encode_ok {m : EncodeM Unit} {e e' : GIOPEncoder} (h : m e = .ok () e') (r : Reception) :
    encode m e r = .ok e' r := by
  rw [encode, h]

omit [Platform] in
@[simp] theorem emit_run (event : Event) (r : Reception) :
    emit event r = .ok () { r with events := r.events ++ [event] } := rfl

/-! ### Bodies -/

/-- The body of a reply that reports a system exception. -/
def systemExceptionBody (exceptionId : Octets) (minor completed : UInt32) : Cdr.Items :=
  Cdr.string native exceptionId ++ (Cdr.ulong native minor ++ Cdr.ulong native completed)

omit [Platform] in
theorem writeBoolean_run (v : Bool) (e : GIOPEncoder) :
    GIOPEncoder.writeBoolean v e =
      .ok () { e with buffer := e.buffer.put (Cdr.boolean v) } := rfl

theorem writeString_run (v : Octets) (e : GIOPEncoder) :
    GIOPEncoder.writeString v e =
      .ok () { e with buffer := e.buffer.put (Cdr.string native v) } := by
  rw [← CDREncoder.writeString_eq]
  rfl

theorem writeSystemException_run (exceptionId : Octets) (minor completed : UInt32)
    (e : GIOPEncoder) :
    writeSystemException exceptionId minor completed e = .ok ()
      { e with buffer := e.buffer.put (systemExceptionBody exceptionId minor completed) } := by
  rw [writeSystemException, bind_ok (writeString_run _ _), bind_ok (GIOPEncoder.writeUlong_run _ _),
    GIOPEncoder.writeUlong_run, systemExceptionBody, CDREncoder.put_append, CDREncoder.put_append]

/-- The body of a reply that reports any other exception of the C++ library. -/
def genericBody (typeName what : CString) : Cdr.Items :=
  systemExceptionBody genericId 0 0 ++ Cdr.string native (genericText typeName what)

theorem writeGeneric_run (typeName what : CString) (e : GIOPEncoder) :
    (do writeSystemException genericId 0 0
        GIOPEncoder.writeString (genericText typeName what)) e = .ok ()
      { e with buffer := e.buffer.put (genericBody typeName what) } := by
  rw [bind_ok (writeSystemException_run _ _ _ _), writeString_run, genericBody,
    CDREncoder.put_append]

/-! ### Replies -/

/-- The room of the headers of a reply. -/
def replyRoom (d : GIOPDecoder) : GIOPEncoder :=
  { answerEncoder d with buffer := { offset := 24 } }

omit [Platform] in
theorem clean_room (o : ℕ) : CDREncoder.Clean { offset := o } where
  length_le := Nat.zero_le _
  stack_le _ hs := absurd hs List.not_mem_nil
  stack_mod _ hs := absurd hs List.not_mem_nil

omit [Platform] in
theorem replyRoom_continues (d : GIOPDecoder) : (replyRoom d).Continues (replyRoom d) :=
  .refl (clean_room 24)

omit [Platform] in
theorem skipReplyHeader_run (d : GIOPDecoder) :
    GIOPEncoder.skipReplyHeader (answerEncoder d) = .ok () (replyRoom d) := rfl

/-- The body of the answer to a request for which there is no servant. -/
def notExistBody : Cdr.Items :=
  systemExceptionBody SystemExceptionClass.objectNotExist.repId 0x4f4d0001
    CompletionStatus.no.toUlong

theorem writeNotExist_run (d : GIOPDecoder) :
    (do GIOPEncoder.skipReplyHeader
        writeSystemException SystemExceptionClass.objectNotExist.repId 0x4f4d0001
          CompletionStatus.no.toUlong) (answerEncoder d) =
      .ok () { replyRoom d with buffer := (replyRoom d).buffer.put notExistBody } :=
  (bind_ok (skipReplyHeader_run d) _).trans (writeSystemException_run _ _ _ _)

/-- The message is a reply to this request, in this version. -/
def IsReply (major minor : ℕ) (requestId : UInt32) (status : ReplyStatus) (message : Octets) :
    Prop :=
  Laid message 0 (Giop.header native (UInt8.ofNat major) (UInt8.ofNat minor) .reply
    (UInt32.ofNat (message.length - 12))) ∧
  Laid message 12 (Giop.replyHeader native major minor requestId status)

/-- **What has been written becomes a reply.**  Its body is what stood behind the room. -/
theorem sendReply_run {d : GIOPDecoder} {e : GIOPEncoder} (he : (replyRoom d).Continues e)
    (requestId : UInt32) (status : ReplyStatus) (r : Reception) :
    ∃ message, sendReply requestId status e r =
        .ok () { r with events := r.events ++ [.send message] } ∧
      IsReply d.majorVersion d.minorVersion requestId status message ∧
      message.length = e.buffer.offset ∧
      Keep 24 e.buffer.offset e.buffer.data message := by
  obtain ⟨b, hrun, hlen, hhead, hreply, hkeep⟩ :=
    e.finishReply_spec requestId status he.clean.length_le he.le_offset
  have hM : e.majorVersion = d.majorVersion := he.majorVersion
  have hm : e.minorVersion = d.minorVersion := he.minorVersion
  rw [hM, hm] at hhead hreply
  refine ⟨b.data, ?_, ⟨hhead, hreply⟩, hlen, hkeep⟩
  have hencode : encode (do
      GIOPEncoder.setGIOPHeader .reply
      GIOPEncoder.setReplyHeader requestId status) e r = .ok { e with buffer := b } r :=
    encode_ok hrun r
  rw [sendReply]
  exact (bind_ok hencode _).trans (emit_run _ _)

end ORB

end Corba
