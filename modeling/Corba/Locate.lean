/-
Locating and calling.

A client may ask where an object is before it calls it.  The object key stands in different places of a
locate request and of a request, and each of the two has a scanner and a look into the servants of its
own.  They find the same: what is said to be here is what a request is passed to.

Main definitions:

* `Corba.ORB.findServant`, `Corba.ORB.serve` — the two parts of handling a request;
* `Corba.ORB.Reaches` — what has been found under the key of a request decides what becomes of it;
* `Corba.ORB.Located` — a locate request has been answered;
* `Corba.Giop.rejection` — the addressing dispositions that are not understood.

Main results:

* `Corba.ORB.reaches_of_message` — a request reaches what the servants have under its key;
* `Corba.ORB.located_of_message` — a locate request is answered with whether there is something;
* `Corba.ORB.locate_rejects`, `Corba.ORB.request_rejects` — both are rejected for their disposition;
* `Corba.locating_agrees_with_calling` — locating agrees with calling.
-/

import Corba.MessageScan
import Corba.OrbReceive

set_option relaxedAutoImplicit false
set_option autoImplicit false

namespace Corba

open Layout ByteOrder Placed Exec

/-! ### Scanning both kinds of requests -/

/-- What shows the octets is read as them. -/
theorem View.Shows.octets {d : GIOPDecoder} {view : View} {s : Octets}
    (h : view.Shows d.buffer.data s) : GIOPDecoder.octets view d = .ok s d := by
  obtain ⟨start, size⟩ := view
  obtain ⟨hsize, hat⟩ := h
  obtain rfl : size = s.length := hsize
  exact GIOPDecoder.read_ok (CDRDecoder.octets_run hat)

section Scans

variable [Platform] {e : Endian} {major minor : UInt8} {length : UInt32} {D : Octets}

/-- **Scanning a request** yields its key and its operation. -/
theorem scan_request {r : RequestContent} (h : Giop.Message e major minor length (.request r) D)
    (connection : Connection) :
    ∃ d header d', GIOPDecoder.scanGIOPHeader (ORB.fresh connection D) = .ok .request d ∧
      GIOPDecoder.scanRequestHeader d = .ok header d' ∧
      header.requestId = r.requestId ∧
      header.responseExpected = GIOPDecoder.responseExpectedOf
        (Giop.isLegacy major.toNat minor.toNat) r.responseFlags ∧
      d'.Speaks major.toNat minor.toNat ∧
      GIOPDecoder.octets header.objectKey d' = .ok r.objectKey d' ∧
      GIOPDecoder.octets header.operation d' = .ok r.operation d' := by
  have hconnected : (Content.request r).points major.toNat ≠ [] → (some connection).isSome :=
    fun _ => rfl
  obtain ⟨hscan, -, -, hkey, hop⟩ := Content.scan_run h hconnected
  obtain ⟨type, d, hhead, hscan⟩ := bind_eq_ok.1 hscan
  obtain ⟨header, d', hheader, hscan⟩ := bind_eq_ok.1 hscan
  cases hscan
  exact ⟨d, _, _, hhead, hheader, rfl, rfl, ⟨rfl, rfl⟩, View.Shows.octets hkey,
    View.Shows.octets hop⟩

/-- **Scanning a locate request** yields its key. -/
theorem scan_locateRequest {l : LocateContent}
    (h : Giop.Message e major minor length (.locateRequest l) D) (connection : Connection) :
    ∃ d view d', GIOPDecoder.scanGIOPHeader (ORB.fresh connection D) = .ok .locateRequest d ∧
      GIOPDecoder.scanLocateRequest d = .ok ⟨l.requestId, view⟩ d' ∧
      d'.Speaks major.toNat minor.toNat ∧
      GIOPDecoder.octets view d' = .ok l.objectKey d' := by
  have hconnected : (Content.locateRequest l).points major.toNat ≠ [] → (some connection).isSome :=
    fun _ => rfl
  obtain ⟨hscan, -, hkey⟩ := Content.scan_run h hconnected
  obtain ⟨type, d, hhead, hscan⟩ := bind_eq_ok.1 hscan
  obtain ⟨header, d', hheader, hscan⟩ := bind_eq_ok.1 hscan
  cases hscan
  exact ⟨d, _, _, hhead, hheader, ⟨rfl, rfl⟩, View.Shows.octets hkey⟩

end Scans

/-! ### Handling a request -/

namespace ORB

section Requests

variable [Platform]

/-- The part of `onRequest` that finds the servant. -/
def findServant (servants : Servants) : RcvM (RequestHeader × Octets × Option Servant) := do
  let request ← scan GIOPDecoder.scanRequestHeader
  let objectKey ← scan (GIOPDecoder.octets request.objectKey)
  let operation ← scan (GIOPDecoder.octets request.operation)
  return (request, operation, servants objectKey)

/-- What `onRequest` does with the servant it has found: the request is passed to it, or to its
`_is_a`.  Where there is none, it is answered with `OBJECT_NOT_EXIST`. -/
def serve (request : RequestHeader) (operation : Octets) : Option Servant → RcvM Unit
  | none => noServant request
  | some servant =>
      if operation = ascii "_is_a" then is_a servant request
      else dispatch servant request operation

theorem onRequest_eq (servants : Servants) :
    onRequest servants = findServant servants >>= fun found => serve found.1 found.2.1 found.2.2 := by
  simp only [onRequest, findServant, bind_assoc, pure_bind]
  refine bind_congr fun request => bind_congr fun objectKey => bind_congr fun operation => ?_
  cases servants objectKey <;> rfl

/-- A message is a request, and what the servants have under its key decides what becomes of it. -/
def Reaches (servants : Servants) (connection : Connection) (message : Octets)
    (target : Option Servant) : Prop :=
  ∃ d r request operation,
    GIOPDecoder.scanGIOPHeader (fresh connection message) = .ok .request d ∧
    findServant servants ⟨d, []⟩ = .ok (request, operation, target) r ∧
    socketRcvd servants connection message = serve request operation target r

variable {servants : Servants} {connection : Connection} {message : Octets}

theorem Reaches.unique {target target' : Option Servant}
    (h : Reaches servants connection message target)
    (h' : Reaches servants connection message target') : target = target' := by
  obtain ⟨d, r, request, operation, hhead, hfind, -⟩ := h
  obtain ⟨d', r', request', operation', hhead', hfind', -⟩ := h'
  rw [hhead] at hhead'
  cases hhead'
  rw [hfind] at hfind'
  cases hfind'
  rfl

theorem socketRcvd_of_request {d : GIOPDecoder} (hne : message ≠ [])
    (hhead : GIOPDecoder.scanGIOPHeader (fresh connection message) = .ok .request d) :
    socketRcvd servants connection message = onRequest servants ⟨d, []⟩ := by
  have hlength : ¬ message.length = 0 := fun h => hne (List.length_eq_zero_iff.1 h)
  have hscan : scan GIOPDecoder.scanGIOPHeader ⟨fresh connection message, []⟩ =
      .ok .request ⟨d, []⟩ := scan_ok hhead
  rw [socketRcvd, if_neg hlength, onMessage]
  exact bind_ok hscan _

theorem socketRcvd_of_locateRequest {d : GIOPDecoder} (hne : message ≠ [])
    (hhead : GIOPDecoder.scanGIOPHeader (fresh connection message) = .ok .locateRequest d) :
    socketRcvd servants connection message = onLocateRequest servants ⟨d, []⟩ := by
  have hlength : ¬ message.length = 0 := fun h => hne (List.length_eq_zero_iff.1 h)
  have hscan : scan GIOPDecoder.scanGIOPHeader ⟨fresh connection message, []⟩ =
      .ok .locateRequest ⟨d, []⟩ := scan_ok hhead
  rw [socketRcvd, if_neg hlength, onMessage]
  exact bind_ok hscan _

/-- **A request reaches what the servants have under its key.** -/
theorem reaches_of_message {e : Endian} {major minor : UInt8} {length : UInt32} {r : RequestContent}
    (h : Giop.Message e major minor length (.request r) message) :
    Reaches servants connection message (servants r.objectKey) := by
  obtain ⟨d, header, d', hhead, hheader, -, -, -, hkey, hop⟩ := scan_request h connection
  have hfind : findServant servants ⟨d, []⟩ =
      .ok (header, r.operation, servants r.objectKey) ⟨d', []⟩ := by
    rw [findServant, bind_ok (scan_ok hheader), bind_ok (scan_ok hkey), bind_ok (scan_ok hop)]
    rfl
  have hne : message ≠ [] := List.ne_nil_of_length_pos (by have := h.sixteen_le; omega)
  refine ⟨d, _, header, r.operation, hhead, hfind, ?_⟩
  rw [socketRcvd_of_request hne hhead, onRequest_eq, bind_ok hfind]

/-- A request that reaches no servant is answered with `OBJECT_NOT_EXIST`, if it asks for an answer. -/
theorem noServant_reply {d : GIOPDecoder} {request : RequestHeader}
    (hexpected : request.responseExpected = true) :
    ∃ reply, noServant request ⟨d, []⟩ = .ok () ⟨d, [.send reply]⟩ ∧
      IsReply d.majorVersion d.minorVersion request.requestId .systemException reply ∧
      Laid reply 24 notExistBody := by
  obtain ⟨reply, hsend, hreply, -, hkeep⟩ := sendReply_run ((replyRoom_continues d).put _)
    request.requestId .systemException ⟨d, []⟩
  refine ⟨reply, ?_, hreply, (CDREncoder.laid_put _ (replyRoom d).buffer).keep hkeep le_rfl le_rfl⟩
  rw [noServant, if_pos hexpected, get_bind, bind_ok (encode_ok (writeNotExist_run d) _), hsend]
  rfl

/-- A request has been answered with `OBJECT_NOT_EXIST`, and nothing else has been done. -/
def AnsweredNotExist (servants : Servants) (connection : Connection) (message : Octets)
    (major minor : ℕ) (requestId : UInt32) : Prop :=
  ∃ r reply, socketRcvd servants connection message = .ok () r ∧ r.events = [.send reply] ∧
    IsReply major minor requestId .systemException reply ∧ Laid reply 24 notExistBody

/-- **Without a servant, a request that asks for an answer gets this one.** -/
theorem notExist_of_message {e : Endian} {major minor : UInt8} {length : UInt32} {r : RequestContent}
    (h : Giop.Message e major minor length (.request r) message)
    (hnone : servants r.objectKey = none)
    (hexpected : GIOPDecoder.responseExpectedOf (Giop.isLegacy major.toNat minor.toNat)
      r.responseFlags = true) :
    AnsweredNotExist servants connection message major.toNat minor.toNat r.requestId := by
  obtain ⟨d, header, d', hhead, hheader, hid, hasks, ⟨hmajor, hminor⟩, hkey, hop⟩ :=
    scan_request h connection
  obtain ⟨reply, hrun, hreply, hbody⟩ := noServant_reply (d := d') (hasks.trans hexpected)
  have hne : message ≠ [] := List.ne_nil_of_length_pos (by have := h.sixteen_le; omega)
  rw [hmajor, hminor, hid] at hreply
  refine ⟨⟨d', [.send reply]⟩, reply, ?_, rfl, hreply, hbody⟩
  rw [socketRcvd_of_request hne hhead, onRequest, bind_ok (scan_ok hheader), bind_ok (scan_ok hkey),
    bind_ok (scan_ok hop), hnone]
  exact hrun

end Requests

/-! ### Handling a locate request -/

section Locates

variable [Platform]

/-- The message is a locate reply with this status, in this version. -/
def IsLocateReply (major minor : ℕ) (requestId : UInt32) (status : LocateStatusType)
    (message : Octets) : Prop :=
  message.length = 20 ∧
  Laid message 0 (Giop.header native (UInt8.ofNat major) (UInt8.ofNat minor) .locateReply
    (UInt32.ofNat (message.length - 12))) ∧
  Laid message 12 (Giop.locateReplyHeader native requestId status)

/-- A message has been answered with a locate reply, and nothing else has been done. -/
def Located (servants : Servants) (connection : Connection) (message : Octets) (major minor : ℕ)
    (requestId : UInt32) (status : LocateStatusType) : Prop :=
  ∃ r reply, socketRcvd servants connection message = .ok () r ∧ r.events = [.send reply] ∧
    IsLocateReply major minor requestId status reply

/-- A locate reply says one thing only. -/
theorem IsLocateReply.unique {major minor : ℕ} {requestId : UInt32}
    {status status' : LocateStatusType} {message : Octets}
    (h : IsLocateReply major minor requestId status message)
    (h' : IsLocateReply major minor requestId status' message) : status = status' := by
  have hat : ∀ {s : LocateStatusType}, IsLocateReply major minor requestId s message →
      At message 16 (native.bytes 4 s.toUlong.toNat) := by
    intro s hs
    have hlaid := (laid_append.1 hs.2.2).2
    rw [Cdr.extent_ulong] at hlaid
    exact (laid_raw.1 (laid_align.1 hlaid)).1
  have hbytes := (hat h).unique (hat h') (by rw [Endian.length_bytes, Endian.length_bytes])
  have hvalue := congrArg native.value hbytes
  rw [Endian.value_bytes _ status.toUlong.toNat_lt, Endian.value_bytes _ status'.toUlong.toNat_lt]
    at hvalue
  have hulong : status.toUlong = status'.toUlong := UInt32.toNat_inj.1 hvalue
  cases status <;> cases status' <;> first | rfl | cases hulong

/-- Encoding the answer to a locate request. -/
theorem encodeLocateReply_spec (d : GIOPDecoder) (requestId : UInt32) (status : LocateStatusType)
    (r : Reception) :
    ∃ e, encode (do
        GIOPEncoder.encodeLocateReply requestId status
        GIOPEncoder.setGIOPHeader .locateReply) (answerEncoder d) r = .ok e r ∧
      IsLocateReply d.majorVersion d.minorVersion requestId status e.buffer.data := by
  let b : CDREncoder := CDREncoder.put (Giop.locateReplyHeader native requestId status)
    { offset := 10 }
  have hbody : GIOPEncoder.encodeLocateReply requestId status (answerEncoder d) =
      .ok () { answerEncoder d with buffer := b } := GIOPEncoder.encodeLocateReply_run _ _ _
  have hlaid : Laid b.data 12 (Giop.locateReplyHeader native requestId status) :=
    CDREncoder.laid_put (Giop.locateReplyHeader native requestId status) { offset := 10 }
  have hclean := (clean_room 10).put (Giop.locateReplyHeader native requestId status)
  have hoffset : b.offset = 20 := by
    show extent 10 (Giop.locateReplyHeader native requestId status) = 20
    rw [Giop.locateReplyHeader, extent_append, Cdr.extent_ulong, Cdr.extent_ulong]
    rfl
  obtain ⟨D, hrun, hD, hhead, hkeep⟩ := GIOPEncoder.setGIOPHeader_spec
    { answerEncoder d with buffer := b } .locateReply hclean.length_le
    (show 12 ≤ b.offset by omega)
  refine ⟨_, encode_ok ((bind_ok hbody _).trans hrun) r, hD.trans hoffset, ?_, ?_⟩
  · show Laid D 0 (Giop.header native _ _ .locateReply (UInt32.ofNat (D.length - 12)))
    rw [hD]
    exact hhead
  · exact hlaid.keep hkeep le_rfl le_rfl

variable {servants : Servants} {connection : Connection} {message : Octets}

/-- **A locate request is answered with whether there is a servant with its key.** -/
theorem located_of_message {e : Endian} {major minor : UInt8} {length : UInt32} {l : LocateContent}
    (h : Giop.Message e major minor length (.locateRequest l) message) :
    Located servants connection message major.toNat minor.toNat l.requestId
      (if (servants l.objectKey).isSome then .objectHere else .unknownObject) := by
  obtain ⟨d, view, d', hhead, hscan, ⟨hmajor, hminor⟩, hkey⟩ := scan_locateRequest h connection
  obtain ⟨e', hencode, hreply⟩ := encodeLocateReply_spec d' l.requestId
    (if (servants l.objectKey).isSome then .objectHere else .unknownObject) ⟨d', []⟩
  have hne : message ≠ [] := List.ne_nil_of_length_pos (by have := h.sixteen_le; omega)
  rw [hmajor, hminor] at hreply
  refine ⟨⟨d', [.send e'.buffer.data]⟩, e'.buffer.data, ?_, rfl, hreply⟩
  rw [socketRcvd_of_locateRequest hne hhead, onLocateRequest, bind_ok (scan_ok hscan),
    bind_ok (scan_ok hkey), get_bind, bind_ok hencode]
  rfl

/-- A message is answered with one status only. -/
theorem Located.unique {major minor : ℕ} {requestId : UInt32} {status status' : LocateStatusType}
    (h : Located servants connection message major minor requestId status)
    (h' : Located servants connection message major minor requestId status') : status = status' := by
  obtain ⟨r, reply, hrun, hevents, hreply⟩ := h
  obtain ⟨r', reply', hrun', hevents', hreply'⟩ := h'
  rw [hrun] at hrun'
  cases hrun'
  rw [hevents] at hevents'
  cases hevents'
  exact hreply.unique hreply'

end Locates

end ORB

/-! ### Addressing dispositions -/

/-- What is thrown for a disposition that is not understood. -/
def Giop.rejection (disposition : UInt16) : Option Thrown :=
  match AddressingDisposition.ofUshort disposition with
  | .keyAddr => none
  | .profileAddr | .referenceAddr => some (.runtimeError "Unsupported AddressingDisposition.")
  | .unknown _ _ => some (.runtimeError "Unknown AddressingDisposition.")

/-- All dispositions are rejected but the one that is followed by a key. -/
theorem Giop.rejection_eq_none_iff (disposition : UInt16) :
    Giop.rejection disposition = none ↔
      disposition = AddressingDisposition.keyAddr.toUshort := by
  rw [Giop.rejection, AddressingDisposition.ofUshort]
  by_cases hthree : 3 ≤ disposition
  · rw [dif_pos hthree]
    refine iff_of_false (Option.some_ne_none _) ?_
    rintro rfl
    exact absurd hthree (by decide)
  · rw [dif_neg hthree]
    by_cases hzero : disposition = 0
    · rw [if_pos hzero]
      exact iff_of_true rfl hzero
    · rw [if_neg hzero]
      split
      · rename_i h
        split at h <;> cases h
      · exact iff_of_false (Option.some_ne_none _) hzero
      · exact iff_of_false (Option.some_ne_none _) hzero
      · exact iff_of_false (Option.some_ne_none _) hzero

/-- A message of this type that begins with these items, behind its first twelve octets. -/
structure Giop.Begins (e : Endian) (major minor : UInt8) (length : UInt32) (type : MessageType)
    (xs : Cdr.Items) (D : Octets) : Prop where
  magic : D.take 4 = ascii "GIOP"
  octets : ∃ flags, At D 4 [major, minor, flags, type.toOctet] ∧
    (if flags &&& 1 == 1 then Endian.little else .big) = e
  count : Laid D 8 (Cdr.ulong e length)
  laid : Laid D 12 xs
  size : D.length = 12 + length.toNat

/-- Where a locate request says how it addresses its object. -/
def Giop.locateFront (e : Endian) (requestId : UInt32) (disposition : UInt16) : Cdr.Items :=
  Cdr.ulong e requestId ++ Cdr.ushort e disposition

/-- Where a request says how it addresses its object. -/
def Giop.callFront (e : Endian) (requestId : UInt32) (responseFlags : UInt8)
    (disposition : UInt16) : Cdr.Items :=
  Giop.requestFront e requestId responseFlags ++ Cdr.ushort e disposition

section Rejections

variable [Platform] {e : Endian} {major minor : UInt8} {length : UInt32} {D : Octets}
  {disposition : UInt16} {t : Thrown} {servants : Servants} {connection : Connection}

theorem GIOPDecoder.readTarget_rejects {d : GIOPDecoder} {o : ℕ}
    (h : Laid D o (Cdr.ushort e disposition)) (hD : D.length < 2 ^ 64)
    (ht : Giop.rejection disposition = some t) :
    ∃ d', readTarget (d.on D o e) = .error (.thrown t) d' := by
  rw [readTarget, bind_ok (readUshort_on h hD)]
  rw [Giop.rejection] at ht
  cases hdisposition : AddressingDisposition.ofUshort disposition with
  | keyAddr =>
      rw [hdisposition] at ht
      cases ht
  | profileAddr | referenceAddr | unknown code hcode =>
      rw [hdisposition] at ht
      cases ht
      exact ⟨_, rfl⟩

/-- The header of a message, whatever stands behind it. -/
theorem Giop.Begins.head {type : MessageType} {xs : Cdr.Items} {v : UInt32}
    (h : Giop.Begins e major minor length type (Cdr.ulong e v ++ xs) D) (connection : Connection) :
    ∃ d : GIOPDecoder, GIOPDecoder.scanGIOPHeader (ORB.fresh connection D) =
        .ok type (d.on D 12 e) ∧ d.isLegacy = Giop.isLegacy major.toNat minor.toNat := by
  obtain ⟨flags, hoctets, horder⟩ := h.octets
  have hsixteen : 16 ≤ D.length := GIOPDecoder.ulong_le (laid_append.1 h.laid).1
  have hscan := GIOPDecoder.scanGIOPHeader_octets (d := ORB.fresh connection D) h.magic hoctets
    horder h.count hsixteen rfl
  rw [MessageType.ofOctet_toOctet] at hscan
  exact ⟨{ ORB.fresh connection D with
    majorVersion := major.toNat
    minorVersion := minor.toNat
    m_type := type
    m_length := length.toNat }, hscan, rfl⟩

theorem GIOPDecoder.scanLocateRequest_rejects {d : GIOPDecoder} {requestId : UInt32}
    (h : Laid D 12 (Giop.locateFront e requestId disposition)) (hD : D.length < 2 ^ 64)
    (hl : d.isLegacy = false) (ht : Giop.rejection disposition = some t) :
    ∃ d', scanLocateRequest (d.on D 12 e) = .error (.thrown t) d' := by
  obtain ⟨hid, hdisposition⟩ := laid_append.1 h
  rw [Cdr.extent_ulong] at hdisposition
  obtain ⟨d', htarget⟩ := readTarget_rejects (d := { d with requestId := requestId }) hdisposition hD
    ht
  have hl' : (({ d with requestId := requestId } : GIOPDecoder).on D (roundUp 4 12 + 4) e).isLegacy =
    false := hl
  refine ⟨d', ?_⟩
  rw [scanLocateRequest, bind_ok (readUlong_on hid hD), modify_bind, get_bind]
  simp only [hl', Bool.false_eq_true, if_false]
  exact bind_error htarget _

theorem GIOPDecoder.scanRequestHeader_rejects {d : GIOPDecoder} {requestId : UInt32}
    {responseFlags : UInt8} (h : Laid D 12 (Giop.callFront e requestId responseFlags disposition))
    (hD : D.length < 2 ^ 64) (hl : d.isLegacy = false) (ht : Giop.rejection disposition = some t) :
    ∃ d', scanRequestHeader (d.on D 12 e) = .error (.thrown t) d' := by
  have h12 : roundUp 4 12 = 12 := rfl
  simp only [Giop.callFront, Giop.requestFront, laid_append, extent_append, Cdr.extent_ulong,
    Cdr.extent_octet, extent_skip, extent_nil, h12] at h
  obtain ⟨⟨⟨hid, hflags⟩, -⟩, hdisposition⟩ := h
  obtain ⟨d', htarget⟩ := readTarget_rejects (d := d) hdisposition hD ht
  have hl' : (d.on D 12 e).isLegacy = false := hl
  refine ⟨d', ?_⟩
  rw [scanRequestHeader, get_bind]
  simp only [hl', Bool.false_eq_true, if_false]
  rw [bind_ok (readUlong_on hid hD), h12, bind_ok (readOctet_on hflags hD), read_modify_bind,
    skip_on 3 (by decide), bind_error htarget]

namespace ORB

/-- **A locate request is rejected for its disposition**, and nothing is sent. -/
theorem locate_rejects {requestId : UInt32}
    (h : Giop.Begins e major minor length .locateRequest
      (Giop.locateFront e requestId disposition) D)
    (hl : Giop.isLegacy major.toNat minor.toNat = false)
    (ht : Giop.rejection disposition = some t) :
    ∃ d, socketRcvd servants connection D = .error (.thrown t) ⟨d, []⟩ := by
  obtain ⟨d, hhead, hlegacy⟩ := h.head connection
  have hlt := length.toNat_lt
  have hsize := h.size
  have hne : D ≠ [] := List.ne_nil_of_length_pos (by omega)
  obtain ⟨d', hscan⟩ := GIOPDecoder.scanLocateRequest_rejects h.laid (by omega)
    (hlegacy.trans hl) ht
  refine ⟨d', ?_⟩
  rw [socketRcvd_of_locateRequest hne hhead, onLocateRequest]
  exact bind_error (scan_error hscan) _

/-- **A request is rejected for its disposition**, and nothing is sent. -/
theorem request_rejects {requestId : UInt32} {responseFlags : UInt8}
    (h : Giop.Begins e major minor length .request
      (Giop.callFront e requestId responseFlags disposition) D)
    (hl : Giop.isLegacy major.toNat minor.toNat = false)
    (ht : Giop.rejection disposition = some t) :
    ∃ d, socketRcvd servants connection D = .error (.thrown t) ⟨d, []⟩ := by
  have hfront : Giop.callFront e requestId responseFlags disposition = Cdr.ulong e requestId ++
      (Cdr.octet responseFlags ++ [.skip 3] ++ Cdr.ushort e disposition) := rfl
  rw [hfront] at h
  obtain ⟨d, hhead, hlegacy⟩ := h.head connection
  have hlt := length.toNat_lt
  have hsize := h.size
  have hne : D ≠ [] := List.ne_nil_of_length_pos (by omega)
  obtain ⟨d', hscan⟩ := GIOPDecoder.scanRequestHeader_rejects h.laid (by omega)
    (hlegacy.trans hl) ht
  refine ⟨d', ?_⟩
  rw [socketRcvd_of_request hne hhead, onRequest]
  exact bind_error (scan_error hscan) _

end ORB

end Rejections

/-! ### Agreement -/

section Agreement

open ORB

variable [Platform]

/-- **Locating agrees with calling.**  A locate request is answered with `OBJECT_HERE` exactly if a
request with the same key is passed to a servant, and with `UNKNOWN_OBJECT` exactly if there is none for
it.  All addressing dispositions but `KEY_ADDR`, which well formed messages have, are rejected in both,
and in the same way. -/
theorem locating_agrees_with_calling {servants : Servants} {connection : Connection} {e e' : Endian}
    {major minor major' minor' : UInt8} {length length' : UInt32} {l : LocateContent}
    {r : RequestContent} {D D' : Octets}
    (hlocate : Giop.Message e major minor length (.locateRequest l) D)
    (hrequest : Giop.Message e' major' minor' length' (.request r) D')
    (hkey : l.objectKey = r.objectKey) :
    (Located servants connection D major.toNat minor.toNat l.requestId .objectHere ↔
      ∃ servant, Reaches servants connection D' (some servant)) ∧
    (Located servants connection D major.toNat minor.toNat l.requestId .unknownObject ↔
      Reaches servants connection D' none) ∧
    (Reaches servants connection D' none →
      GIOPDecoder.responseExpectedOf (Giop.isLegacy major'.toNat minor'.toNat) r.responseFlags =
        true →
      AnsweredNotExist servants connection D' major'.toNat minor'.toNat r.requestId) ∧
    ∀ disposition, disposition ≠ AddressingDisposition.keyAddr.toUshort → ∃ t : Thrown,
      (∀ {e : Endian} {major minor : UInt8} {length requestId : UInt32} {D : Octets},
        Giop.isLegacy major.toNat minor.toNat = false →
        Giop.Begins e major minor length .locateRequest
          (Giop.locateFront e requestId disposition) D →
        ∃ d, socketRcvd servants connection D = .error (.thrown t) ⟨d, []⟩) ∧
      ∀ {e : Endian} {major minor : UInt8} {length requestId : UInt32} {responseFlags : UInt8}
        {D : Octets},
        Giop.isLegacy major.toNat minor.toNat = false →
        Giop.Begins e major minor length .request
          (Giop.callFront e requestId responseFlags disposition) D →
        ∃ d, socketRcvd servants connection D = .error (.thrown t) ⟨d, []⟩ := by
  have hlocated : Located servants connection D major.toNat minor.toNat l.requestId _ :=
    located_of_message hlocate
  have hreaches : Reaches servants connection D' (servants r.objectKey) := reaches_of_message hrequest
  rw [hkey] at hlocated
  refine ⟨?_, ?_, ?_, ?_⟩
  · cases hfound : servants r.objectKey with
    | none =>
        rw [hfound] at hlocated hreaches
        refine iff_of_false (fun h => nomatch h.unique hlocated) ?_
        rintro ⟨servant, h⟩
        exact nomatch h.unique hreaches
    | some servant =>
        rw [hfound] at hlocated hreaches
        exact iff_of_true hlocated ⟨servant, hreaches⟩
  · cases hfound : servants r.objectKey with
    | none =>
        rw [hfound] at hlocated hreaches
        exact iff_of_true hlocated hreaches
    | some servant =>
        rw [hfound] at hlocated hreaches
        exact iff_of_false (fun h => nomatch h.unique hlocated) fun h => nomatch h.unique hreaches
  · intro hnone hexpected
    exact notExist_of_message hrequest (hreaches.unique hnone) hexpected
  · intro disposition hdisposition
    obtain ⟨t, ht⟩ := Option.ne_none_iff_exists'.1
      (mt (Giop.rejection_eq_none_iff disposition).1 hdisposition)
    exact ⟨t, fun hl h => locate_rejects h hl ht, fun hl h => request_rejects h hl ht⟩

omit [Platform] in
/-- An object is located by a big-endian host, and called by a little-endian one. -/
theorem locating_agrees_with_calling_echo :
    letI : Platform := ⟨.little⟩
    let connection : Connection := ⟨⟨ascii "r", 2⟩, ⟨ascii "n", 1⟩, false⟩
    let servants : Servants := fun key => if key = ascii "A" then some adder else none
    let locate := Giop.encoded .big 1 2 13 (.locateRequest ⟨4, ascii "A"⟩)
    let request := Giop.encoded .little 1 2 72 (.request (announcing ⟨ascii "h", 5⟩))
    Located servants connection locate 1 2 4 .objectHere ∧
      ∃ servant, Reaches servants connection request (some servant) := by
  let : Platform := ⟨.little⟩
  intro connection servants locate request
  have hlocate : Giop.Message .big 1 2 13 (.locateRequest ⟨4, ascii "A"⟩) locate :=
    Giop.message_encoded (by decide +kernel) (by decide +kernel)
  have hrequest : Giop.Message .little 1 2 72 (.request (announcing ⟨ascii "h", 5⟩)) request :=
    Giop.message_encoded (by decide +kernel) (by decide +kernel)
  have hlocated : Located servants connection locate 1 2 4 .objectHere := located_of_message hlocate
  exact ⟨hlocated, (locating_agrees_with_calling hlocate hrequest rfl).1.1 hlocated⟩

end Agreement

end Corba
