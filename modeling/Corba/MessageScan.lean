/-
Messages in either byte order.

A peer sends its messages in the byte order it likes, and says which one it is in the flags of the
header.  The encoder only ever uses the native one.  What the decoder makes of a message does not
depend on its byte order: everything is read in the same way and found in the same places.

Main definitions:

* `Corba.Content` — what a message says;
* `Corba.Giop.Message` — a message that says it, in one of the byte orders;
* `Corba.Content.scan` — scanning the two headers of a message.

Main results:

* `Corba.Content.scan_run` — what the decoder makes of a message;
* `Corba.scan_order_independent` — the same in both byte orders.
-/

import Corba.ServiceContexts

set_option relaxedAutoImplicit false
set_option autoImplicit false

namespace Corba

open Layout ByteOrder Placed Exec

/-- What the messages say whose headers are scanned. -/
inductive Content where
  | request (r : RequestContent)
  | reply (r : ReplyContent)
  | locateRequest (r : LocateContent)

/-- What one of the scan functions has returned. -/
inductive ScannedHeader where
  | request (header : RequestHeader)
  | reply (header : ReplyHeader)
  | locateRequest (header : LocateRequest)
  deriving DecidableEq, Repr

namespace Content

def type : Content → MessageType
  | request _ => .request
  | reply _ => .reply
  | locateRequest _ => .locateRequest

/-- What stands behind the first twelve octets. -/
def items (e : Endian) (major minor : ℕ) : Content → Cdr.Items
  | request r => r.items e (Giop.isLegacy major minor)
  | reply r => r.items e major minor
  | locateRequest r => r.items e (Giop.isLegacy major minor)

/-- The ends that are announced in the service contexts. -/
def points (major : ℕ) : Content → List HostAndPort
  | request r => r.contexts.flatMap ServiceContext.points
  | reply r => r.heard major
  | locateRequest _ => []

def header (major minor : ℕ) : Content → ScannedHeader
  | request r => .request (r.header (Giop.isLegacy major minor))
  | reply r => .reply r.header
  | locateRequest r => .locateRequest (r.header (Giop.isLegacy major minor))

/-- Where the decoder stands afterwards. -/
def stop (major minor : ℕ) : Content → ℕ
  | request r => r.stop (Giop.isLegacy major minor)
  | reply r => r.stop major minor
  | locateRequest r => r.stop (Giop.isLegacy major minor)

/-- The decoder afterwards. -/
def scanned (e : Endian) (major minor : ℕ) (length : UInt32) (connection : Option Connection)
    (D : Octets) (content : Content) : GIOPDecoder :=
  let d : GIOPDecoder :=
    { buffer := ⟨D, content.stop major minor, some e⟩
      connection := Connection.adoptAll (content.points major) connection
      majorVersion := major
      minorVersion := minor
      m_type := content.type
      m_length := length.toNat }
  match content with
  | request _ => d
  | reply r => { d with requestId := r.requestId, replyStatus := r.replyStatus }
  | locateRequest r => { d with requestId := r.requestId }

section Scan

variable [Platform]

/-- `scanGIOPHeader` and the function for what follows. -/
def scan (content : Content) : ScanM (MessageType × ScannedHeader) := do
  let type ← GIOPDecoder.scanGIOPHeader
  match content with
  | request _ => return (type, .request (← GIOPDecoder.scanRequestHeader))
  | reply _ => return (type, .reply (← GIOPDecoder.scanReplyHeader))
  | locateRequest _ => return (type, .locateRequest (← GIOPDecoder.scanLocateRequest))

end Scan

end Content

/-- A message in the byte order `e`.  All flags but the one for the byte order are arbitrary. -/
structure Giop.Message (e : Endian) (major minor : UInt8) (length : UInt32) (content : Content)
    (D : Octets) : Prop where
  magic : D.take 4 = ascii "GIOP"
  octets : ∃ flags, At D 4 [major, minor, flags, content.type.toOctet] ∧
    (if flags &&& 1 == 1 then Endian.little else .big) = e
  count : Laid D 8 (Cdr.ulong e length)
  laid : Laid D 12 (content.items e major.toNat minor.toNat)
  inside : extent 12 (content.items e major.toNat minor.toNat) ≤ D.length
  size : D.length = 12 + length.toNat

/-- The content written down in one of the byte orders. -/
def Giop.encoded (e : Endian) (major minor : UInt8) (length : UInt32) (content : Content) :
    Octets :=
  write 0 [] 0 (Giop.header e major minor content.type length ++
    content.items e major.toNat minor.toNat)

/-- Every content can be written down in either byte order. -/
theorem Giop.message_encoded {e : Endian} {major minor : UInt8} {length : UInt32}
    {content : Content}
    (hsize : (Giop.encoded e major minor length content).length = 12 + length.toNat)
    (hinside : extent 12 (content.items e major.toNat minor.toNat) ≤
      (Giop.encoded e major minor length content).length) :
    Giop.Message e major minor length content (Giop.encoded e major minor length content) := by
  obtain ⟨hheader, hlaid⟩ := laid_append.1 (laid_write 0 [] 0
    (Giop.header e major minor content.type length ++ content.items e major.toNat minor.toNat))
  rw [GIOPEncoder.extent_header] at hlaid
  obtain ⟨hmagic, hoctets, hcount⟩ := GIOPDecoder.laid_header hheader
  exact ⟨hmagic, ⟨_, hoctets, by cases e <;> rfl⟩, hcount, hlaid, hinside, hsize⟩

/-! ### What a scanned header shows -/

/-- The view is one of these octets in the message. -/
def View.Shows (D : Octets) (view : View) (s : Octets) : Prop :=
  view.size = s.length ∧ At D view.start s

/-- The header shows what the message says. -/
def ScannedHeader.Shows (D : Octets) (major minor : ℕ) : ScannedHeader → Content → Prop
  | .request header, .request r => header.requestId = r.requestId ∧
      header.responseExpected =
        GIOPDecoder.responseExpectedOf (Giop.isLegacy major minor) r.responseFlags ∧
      header.objectKey.Shows D r.objectKey ∧ header.operation.Shows D r.operation
  | .reply header, .reply r => header.requestId = r.requestId ∧ header.replyStatus = r.replyStatus
  | .locateRequest header, .locateRequest r => header.requestId = r.requestId ∧
      header.objectKey.Shows D r.objectKey
  | _, _ => False

/-! ### Scanning a message -/

variable [Platform] {e : Endian} {major minor : UInt8} {length : UInt32} {content : Content}
  {D : Octets} {connection : Option Connection}

omit [Platform] in
/-- Everything begins with a number. -/
theorem Content.items_ulong (e : Endian) (major minor : ℕ) (content : Content) :
    ∃ v xs, content.items e major minor = Cdr.ulong e v ++ xs := by
  cases content with
  | request r =>
      rw [items, RequestContent.items]
      split
      · rw [Giop.contextList, List.append_assoc]
        exact ⟨_, _, rfl⟩
      · rw [RequestContent.front, Giop.requestHeaderFront, Giop.requestFront]
        simp only [List.append_assoc]
        exact ⟨_, _, rfl⟩
  | reply r =>
      rw [items, ReplyContent.items]
      split
      · rw [Giop.contextList, List.append_assoc]
        exact ⟨_, _, rfl⟩
      · exact ⟨_, _, rfl⟩
  | locateRequest r => exact ⟨_, _, rfl⟩

omit [Platform] in
/-- Every message has room for the first number behind the header. -/
theorem Giop.Message.sixteen_le (h : Giop.Message e major minor length content D) :
    16 ≤ D.length := by
  have hlaid := h.laid
  obtain ⟨v, xs, hitems⟩ := content.items_ulong e major.toNat minor.toNat
  rw [hitems] at hlaid
  exact GIOPDecoder.ulong_le (laid_append.1 hlaid).1

/-- **What the decoder makes of a message.** -/
theorem Content.scan_run (h : Giop.Message e major minor length content D)
    (hc : content.points major.toNat ≠ [] → connection.isSome) :
    content.scan { buffer := ⟨D, 0, none⟩, connection } =
        .ok (content.type, content.header major.toNat minor.toNat)
          (content.scanned e major.toNat minor.toNat length connection D) ∧
      (content.header major.toNat minor.toNat).Shows D major.toNat minor.toNat content := by
  obtain ⟨flags, hoctets, horder⟩ := h.octets
  have hlt := length.toNat_lt
  have hsize := h.size
  have hinside := h.inside
  have hlaid := h.laid
  have hext : GIOPDecoder.Within (extent 12 (content.items e major.toNat minor.toNat)) := by
    show _ < _
    omega
  have hD : D.length < 2 ^ 64 := by omega
  have hscan := GIOPDecoder.scanGIOPHeader_octets
    (d := { buffer := ⟨D, 0, none⟩, connection }) h.magic hoctets horder h.count h.sixteen_le rfl
  rw [MessageType.ofOctet_toOctet] at hscan
  rw [scan, bind_ok hscan]
  let d : GIOPDecoder :=
    { buffer := ⟨D, 12, some e⟩
      connection
      majorVersion := major.toNat
      minorVersion := minor.toNat
      m_type := content.type
      m_length := length.toNat }
  cases content with
  | request r =>
      obtain ⟨hrun, hkey, hoperation⟩ :=
        GIOPDecoder.scanRequestHeader_content (d := d) hlaid hext hD rfl hc
      exact ⟨bind_ok hrun _, rfl, rfl, ⟨rfl, hkey⟩, rfl, hoperation⟩
  | reply r =>
      have hrun := GIOPDecoder.scanReplyHeader_content (d := d) hlaid hext hD hc
      exact ⟨bind_ok hrun _, rfl, rfl⟩
  | locateRequest r =>
      obtain ⟨hrun, hkey⟩ := GIOPDecoder.scanLocateRequest_content (d := d) hlaid hext hD rfl
      refine ⟨(bind_ok hrun _).trans ?_, rfl, rfl, hkey⟩
      rw [scanned, points, Connection.adoptAll_nil]
      rfl

/-- **What the decoder makes of a message does not depend on its byte order.**  It finds the same in
both, in the same places, ends at the same offset, and goes on reading in the byte order of the
message. -/
theorem scan_order_independent {big little : Octets}
    (hbig : Giop.Message .big major minor length content big)
    (hlittle : Giop.Message .little major minor length content little)
    (hc : content.points major.toNat ≠ [] → connection.isSome) :
    ∃ header d d',
      content.scan { buffer := ⟨big, 0, none⟩, connection } = .ok (content.type, header) d ∧
      content.scan { buffer := ⟨little, 0, none⟩, connection } = .ok (content.type, header) d' ∧
      header.Shows big major.toNat minor.toNat content ∧
      header.Shows little major.toNat minor.toNat content ∧
      d.m_type = content.type ∧ d.m_length = length.toNat ∧
      d.majorVersion = major.toNat ∧ d.minorVersion = minor.toNat ∧
      d.buffer.data = big ∧ d.buffer.endian = some .big ∧
      d' = { d with buffer := ⟨little, d.buffer.m_offset, some .little⟩ } := by
  obtain ⟨hrun, hshows⟩ := Content.scan_run hbig hc
  obtain ⟨hrun', hshows'⟩ := Content.scan_run hlittle hc
  refine ⟨_, _, _, hrun, hrun', hshows, hshows', ?_⟩
  cases content <;> exact ⟨rfl, rfl, rfl, rfl, rfl, rfl, rfl⟩

/-- A request with two service contexts, the second of which announces an end. -/
def announcing (a : HostAndPort) : RequestContent where
  contexts := [.other 1 (by decide) .big [0, 0, 0, 0, 1, 0, 1], .listenPoints .little [a] []]
  requestId := 6
  responseFlags := 3
  objectKey := ascii "A"
  operation := ascii "add"
  principal := []

omit [Platform] in
theorem scan_order_independent_two_contexts :
    letI : Platform := ⟨.little⟩
    let connection : Option Connection := some ⟨⟨ascii "r", 2⟩, ⟨ascii "n", 1⟩, false⟩
    let content : Content := .request (announcing ⟨ascii "h", 5⟩)
    let big := Giop.encoded .big 1 2 72 content
    let little := Giop.encoded .little 1 2 72 content
    big ≠ little ∧ ∃ header d d',
      content.scan { buffer := ⟨big, 0, none⟩, connection } = .ok (.request, header) d ∧
      content.scan { buffer := ⟨little, 0, none⟩, connection } = .ok (.request, header) d' ∧
      header.Shows big 1 2 content ∧ header.Shows little 1 2 content ∧
      d' = { d with buffer := ⟨little, d.buffer.m_offset, some .little⟩ } := by
  let : Platform := ⟨.little⟩
  intro connection content big little
  have hmessage : Giop.Message .big 1 2 72 content big :=
    Giop.message_encoded (by decide +kernel) (by decide +kernel)
  have hmessage' : Giop.Message .little 1 2 72 content little :=
    Giop.message_encoded (by decide +kernel) (by decide +kernel)
  obtain ⟨header, d, d', hbig, hlittle, hshows, hshows', -, -, -, -, -, -, hsame⟩ :=
    scan_order_independent hmessage hmessage' fun _ => (rfl : connection.isSome = true)
  exact ⟨by decide +kernel, header, d, d', hbig, hlittle, hshows, hshows', hsame⟩

end Corba
