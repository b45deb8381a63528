/-
What a call sends.

Both kinds of calls take an id, encode a request and hand it to the connection.  The arguments are
encoded by user code, which can go back and fill in sizes; but only those it has reserved itself, so
that the header in front of them stays as it is.

Main definitions:

* `Corba.GIOPEncoder.Extends` — an encoder to which something has been added at the end;
* `Corba.ORB.IsRequest` — a message that is a request, with the service contexts of a connection;
* `Corba.ORB.Encodes` — the same, for an operation of an object.

Main results:

* `Corba.GIOPEncoder.extends_survives` — user code only adds at the end;
* `Corba.ORB.request_ok`, `Corba.ORB.request_error` — what a call does to the connection.
-/

import Corba.OrbReply

set_option relaxedAutoImplicit false
set_option autoImplicit false

namespace Corba

open Layout ByteOrder Placed Exec

/-! ### Adding at the end -/

/-- Something has been added to the encoder: what was there is still there, and so are the places
where sizes are to be filled in. -/
structure GIOPEncoder.Extends (e₀ e : GIOPEncoder) : Prop where
  continues : e₀.Continues e
  keep : Keep 0 e₀.buffer.offset e₀.buffer.data e.buffer.data
  stack : ∀ s ∈ e.buffer.sizeStack, e₀.buffer.offset ≤ s - 4

namespace GIOPEncoder

theorem Extends.refl {e : GIOPEncoder} (h : e.buffer.Clean) (hstack : e.buffer.sizeStack = []) :
    e.Extends e where
  continues := .refl h
  keep := .refl _ _ _
  stack s hs := by simp [hstack] at hs

variable [Platform]

/-- **User code only adds at the end.** -/
theorem extends_survives (e₀ : GIOPEncoder) : Survives e₀.Extends where
  put e xs he := by
    refine ⟨he.continues.put xs, he.keep.trans ?_, he.stack⟩
    exact (keep_write 0 e.buffer.data e.buffer.offset 0 xs).mono le_rfl he.continues.le_offset
  reserveSize e he := by
    have hle := he.continues.le_offset
    refine ⟨(continues_survives e₀).reserveSize e he.continues, ?_, ?_⟩
    · refine he.keep.trans ?_
      rw [CDREncoder.reserveSize_eq]
      exact (keep_write 0 e.buffer.data e.buffer.offset 0 [.align 4, .skip 4]).mono le_rfl hle
    · intro s hs
      rw [CDREncoder.reserveSize_eq] at hs
      rcases List.mem_cons.1 hs with rfl | hs
      · have hround := le_roundUp 4 e.buffer.offset
        omega
      · exact he.stack s hs
  fillInSize := by
    intro e he
    have hcontinues := (continues_survives e₀).fillInSize e he.continues
    cases hstack : e.buffer.sizeStack with
    | nil =>
        rw [GIOPEncoder.fillInSize, CDREncoder.fillInSize, hstack]
        exact he
    | cons saved rest =>
        have hmod := he.continues.clean.stack_mod saved (by simp [hstack])
        have hsaved := he.stack saved (by simp [hstack])
        rw [GIOPEncoder.fillInSize, CDREncoder.fillInSize_run hstack (by omega)] at hcontinues ⊢
        refine ⟨hcontinues, he.keep.trans ?_, ?_⟩
        · exact (keep_store_below 0 e.buffer.data (saved - 4) 0 _).mono le_rfl hsaved
        · intro s hs
          exact he.stack s (by rw [hstack]; exact List.mem_cons_of_mem _ hs)

end GIOPEncoder

namespace ORB

variable [Platform]

/-! ### Requests -/

/-- The message is a request with this id, which is sent when the connection is as it is here. -/
structure IsRequest (connection : Connection) (requestId : UInt32) (responseExpected : Bool)
    (message : Octets) : Prop where
  header : Laid message 0
    (Giop.header native 1 2 .request (UInt32.ofNat (message.length - 12)))
  request : ∃ objectKey operation, Laid message 12
    (Giop.request native false (some connection) objectKey operation requestId responseExpected)
  length : 16 ≤ message.length

/-- The message is a request for this operation, with its arguments behind the header. -/
structure Encodes (connection : Connection) (requestId : UInt32) (responseExpected : Bool)
    (objectKey operation : Octets) (message : Octets) : Prop where
  header : Laid message 0
    (Giop.header native 1 2 .request (UInt32.ofNat (message.length - 12)))
  request : Laid message 12
    (Giop.request native false (some connection) objectKey operation requestId responseExpected)
  extent_le : extent 12 (Giop.request native false (some connection) objectKey operation requestId
    responseExpected) ≤ message.length
  length : 16 ≤ message.length

theorem Encodes.isRequest {connection : Connection} {requestId : UInt32} {responseExpected : Bool}
    {objectKey operation message : Octets}
    (h : Encodes connection requestId responseExpected objectKey operation message) :
    IsRequest connection requestId responseExpected message :=
  ⟨h.header, ⟨objectKey, operation, h.request⟩, h.length⟩

/-- What is encoded is a request, whatever the arguments are. -/
theorem encodeRequest_encodes {connection : Connection} {objectKey : Octets}
    {operation : CString} {requestId : UInt32} {responseExpected : Bool} {arguments : Writing}
    {e : GIOPEncoder}
    (h : (do
      GIOPEncoder.encodeRequest objectKey operation requestId responseExpected
      arguments.run
      GIOPEncoder.setGIOPHeader .request) { connection := some connection } = .ok () e) :
    e.connection = Giop.announced (some connection) ∧
      Encodes connection requestId responseExpected objectKey operation e.buffer.data := by
  obtain ⟨b, hrun, hwrote⟩ := GIOPEncoder.encodeRequest_run { connection := some connection }
    objectKey operation requestId responseExpected
  rw [bind_ok hrun, bind_eq_ok] at h
  obtain ⟨u, e', harguments, hset⟩ := h
  let request := Giop.request native false (some connection) objectKey operation requestId
    responseExpected
  have hwrote' : CDREncoder.Wrote request { offset := 10 } b := hwrote
  obtain ⟨v, xs, hbegin⟩ : ∃ v xs, request = Cdr.ulong native v ++ xs :=
    Giop.request_ulong _ _ _ _ _ _ _
  have hoff : b.offset = extent 12 request := by
    rw [hwrote'.offset, hbegin]
    exact Giop.extent_ten _
  have hclean : b.Clean := by
    refine ⟨hwrote'.length_le_offset (Nat.zero_le _), ?_, ?_⟩
    · rw [hwrote'.sizeStack]
      exact fun _ hs => absurd hs List.not_mem_nil
    · rw [hwrote'.sizeStack]
      exact fun _ hs => absurd hs List.not_mem_nil
  have hextends := (GIOPEncoder.extends_survives _).writing arguments _
    (GIOPEncoder.Extends.refl
      (e := { connection := Giop.announced (some connection), buffer := b }) hclean
      hwrote'.sizeStack)
  rw [harguments, State_ok] at hextends
  have hle : b.offset ≤ e'.buffer.offset := hextends.continues.le_offset
  have hsixteen : 16 ≤ b.offset := by
    rw [hoff, hbegin, extent_append, Cdr.extent_ulong]
    exact le_extent 16 _
  obtain ⟨D, hheader, hD, hhead, hkeep⟩ := GIOPEncoder.setGIOPHeader_spec e' .request
    hextends.continues.clean.length_le (by omega)
  rw [hheader] at hset
  cases hset
  have hM : e'.majorVersion = 1 := hextends.continues.majorVersion
  have hm : e'.minorVersion = 2 := hextends.continues.minorVersion
  rw [hM, hm, ← hD] at hhead
  refine ⟨hextends.continues.connection, hhead, ?_, ?_, ?_⟩
  · -- the header of the request stands in front of the arguments
    have hlaid : Laid b.data 12 request := by
      have hten := hwrote'.laid
      rw [hbegin] at hten ⊢
      exact Giop.laid_ten.1 hten
    have hfront : Keep 12 b.offset b.data e'.buffer.data :=
      hextends.keep.mono (Nat.zero_le _) le_rfl
    exact (hlaid.keep hfront le_rfl hoff.ge).keep (hkeep.mono le_rfl hle) le_rfl hoff.ge
  · show extent 12 request ≤ D.length
    omega
  · show 16 ≤ D.length
    omega

/-- When nothing can be encoded, the near end counts as announced nevertheless. -/
theorem encodeRequest_error {connection : Connection} {objectKey : Octets}
    {operation : CString} {requestId : UInt32} {responseExpected : Bool} {arguments : Writing}
    {f : Fault} {e : GIOPEncoder}
    (h : (do
      GIOPEncoder.encodeRequest objectKey operation requestId responseExpected
      arguments.run
      GIOPEncoder.setGIOPHeader .request) { connection := some connection } = .error f e) :
    e.connection = Giop.announced (some connection) := by
  obtain ⟨b, hrun, hwrote⟩ := GIOPEncoder.encodeRequest_run { connection := some connection }
    objectKey operation requestId responseExpected
  rw [bind_ok hrun] at h
  have hkeeps : GIOPEncoder.Survives fun e : GIOPEncoder =>
      e.connection = Giop.announced (some connection) :=
    ⟨fun _ _ he => he, fun _ he => he, fun e he => by
      rw [GIOPEncoder.fillInSize]
      cases CDREncoder.fillInSize e.buffer with
      | ok u b => exact he
      | error f b => exact he⟩
  have harguments := hkeeps.writing arguments
    { connection := Giop.announced (some connection), buffer := b } rfl
  cases hrun : arguments.run
      { connection := Giop.announced (some connection), buffer := b } with
  | ok u e' =>
      rw [bind_ok hrun, GIOPEncoder.setGIOPHeader_run] at h
      cases h
  | error f' e' =>
      rw [bind_error hrun] at h
      cases h
      rwa [hrun] at harguments

/-! ### Calls -/

variable {name : String} {responseExpected : Bool} {objectKey : Octets} {operation : CString}
  {arguments : Writing} {connection : Connection} {requestId : UInt32} {sent : List Octets}
  {caller' : Caller}

/-- A call that has sent its request. -/
theorem request_encodes {id : UInt32}
    (h : request name responseExpected objectKey operation arguments
      ⟨some connection, requestId, sent⟩ = .ok id caller') :
    id = requestId ∧ ∃ message,
      Encodes connection requestId responseExpected objectKey operation message ∧
      caller' = ⟨Giop.announced (some connection), requestId + 2, sent ++ [message]⟩ := by
  rw [request, get_bind, if_neg (by simp)] at h
  dsimp only at h
  rw [modify_bind, bind_eq_ok] at h
  obtain ⟨message, c, hencode, h⟩ := h
  rw [modify_bind, pure_run] at h
  cases h
  rw [encodeCall] at hencode
  split at hencode
  · rename_i hrun
    cases hencode
    obtain ⟨hannounced, hrequest⟩ := encodeRequest_encodes hrun
    refine ⟨rfl, _, hrequest, ?_⟩
    rw [← hannounced]
  · cases hencode

theorem request_ok {id : UInt32}
    (h : request name responseExpected objectKey operation arguments
      ⟨some connection, requestId, sent⟩ = .ok id caller') :
    id = requestId ∧ ∃ message, IsRequest connection requestId responseExpected message ∧
      caller' = ⟨Giop.announced (some connection), requestId + 2, sent ++ [message]⟩ := by
  obtain ⟨hid, message, hmessage, hcaller⟩ := request_encodes h
  exact ⟨hid, message, hmessage.isRequest, hcaller⟩

/-- A call that has not sent anything. -/
theorem request_error {f : Fault}
    (h : request name responseExpected objectKey operation arguments
      ⟨some connection, requestId, sent⟩ = .error f caller') :
    caller' = ⟨Giop.announced (some connection), requestId + 2, sent⟩ := by
  rw [request, get_bind, if_neg (by simp)] at h
  dsimp only at h
  rw [modify_bind] at h
  cases hencode : encodeCall (do
      GIOPEncoder.encodeRequest objectKey operation requestId responseExpected
      arguments.run
      GIOPEncoder.setGIOPHeader .request) ⟨some connection, requestId + 2, sent⟩ with
  | ok message c =>
      rw [bind_ok hencode, modify_bind] at h
      cases h
  | error f' c =>
      rw [bind_error hencode] at h
      cases h
      rw [encodeCall] at hencode
      split at hencode
      · cases hencode
      · rename_i hrun
        cases hencode
        rw [encodeRequest_error hrun]

end ORB

end Corba
