/-
The GIOP decoder.

`GIOPDecoder` of `src/corba/giop.cc` reads headers and references from a buffer that comes from the
network.  It has a connection in hand, the far end of which it replaces when a request announces
where its sender can be reached.

Main definitions:

* `Corba.GIOPDecoder`, `Corba.ScanM` — the decoder and programs that read with it;
* `Corba.GIOPDecoder.scanGIOPHeader`, `scanRequestHeader`, `scanReplyHeader`,
  `scanLocateRequest` — the headers;
* `Corba.GIOPDecoder.readServiceContext`, `readEncapsulation` — what stands in them;
* `Corba.GIOPDecoder.readObject`, `readReference` — object references.

Main results:

* `Corba.GIOPDecoder.read_ok`, `Corba.GIOPDecoder.read_error` — a reader of the buffer leaves the
  rest of the decoder as it is.
-/

import Corba.CdrDecoder
import Corba.Giop

set_option relaxedAutoImplicit false
set_option autoImplicit false

namespace Corba

open Layout ByteOrder Placed Exec

/-! ### What is read -/

/-- The operation and the object key are not copied out of the message. -/
structure RequestHeader where
  requestId : UInt32
  responseExpected : Bool
  objectKey : View
  operation : View
  deriving DecidableEq, Repr

structure ReplyHeader where
  requestId : UInt32
  replyStatus : ReplyStatus
  deriving DecidableEq, Repr

structure LocateRequest where
  requestId : UInt32
  objectKey : View
  deriving DecidableEq, Repr

/-- An object reference: its type, where it lives and what it is called there. -/
structure IOR where
  oid : Octets
  host : Octets
  port : UInt16
  objectKey : Octets
  deriving DecidableEq, Repr

/-! ### The decoder -/

/-- `GIOPDecoder`.  The last four members are not set before a header has been scanned, and nothing
reads them earlier. -/
structure GIOPDecoder where
  buffer : CDRDecoder
  connection : Option Connection
  majorVersion : ℕ := 1
  minorVersion : ℕ := 2
  m_type : MessageType := .request
  m_length : ℕ := 0
  requestId : UInt32 := 0
  replyStatus : ReplyStatus := .noException
  deriving DecidableEq, Repr

/-- Programs that read with a decoder. -/
abbrev ScanM := EStateM Fault GIOPDecoder

namespace GIOPDecoder

/-- Read from the buffer. -/
def read {α : Type} (m : DecodeM α) : ScanM α := fun d =>
  match m d.buffer with
  | .ok a b => .ok a { d with buffer := b }
  | .error f b => .error f { d with buffer := b }

theorem read_ok {α : Type} {m : DecodeM α} {d : GIOPDecoder} {a : α} {b : CDRDecoder}
    (h : m d.buffer = .ok a b) : read m d = .ok a { d with buffer := b } := by
  rw [read, h]

theorem read_error {α : Type} {m : DecodeM α} {d : GIOPDecoder} {f : Fault} {b : CDRDecoder}
    (h : m d.buffer = .error f b) : read m d = .error f { d with buffer := b } := by
  rw [read, h]

@[simp] theorem read_modify_bind {β : Type} (f : CDRDecoder → CDRDecoder)
    (g : PUnit → ScanM β) (d : GIOPDecoder) :
    (read (modify f) >>= g) d = g ⟨⟩ { d with buffer := f d.buffer } := rfl

/-- The versions whose headers begin with the service contexts. -/
def isLegacy (d : GIOPDecoder) : Bool := d.majorVersion == 1 && d.minorVersion ≤ 1

section Readers

variable [Platform]

def readBoolean : ScanM Bool := read CDRDecoder.readBoolean

def readOctet : ScanM UInt8 := read CDRDecoder.readOctet

def readUshort : ScanM UInt16 := read CDRDecoder.readUshort

def readUlong : ScanM UInt32 := read CDRDecoder.readUlong

def readString : ScanM Octets := read CDRDecoder.readString

def readStringView : ScanM View := read CDRDecoder.readStringView

def readBlob : ScanM Octets := read CDRDecoder.readBlob

def readBlobView : ScanM View := read CDRDecoder.readBlobView

/-- What the octets of a view are: reading them is an access to the buffer. -/
def octets (view : View) : ScanM Octets := read (CDRDecoder.octets view)

/-- `==` of a view and a string, which compares the sizes first. -/
def equals (view : View) (s : Octets) : ScanM Bool := do
  if view.size ≠ s.length then return false
  return (← octets view) == s

/-! ### Encapsulations -/

/-- The three overloads differ in the enumeration the type is cast to.  Afterwards the decoder
stands behind the encapsulation, whatever the closure has read of it. -/
def readEncapsulation {α : Type} (closure : UInt32 → ScanM α) : ScanM α := do
  let type ← readUlong
  let size ← readUlong
  let d ← get
  let nextOffset := sizeT (d.buffer.m_offset + size.toNat)
  let lastEndian := d.buffer.endian
  let flags ← readOctet
  read (modify (CDRDecoder.setLittleEndian (flags &&& 1 == 1)))
  let a ← closure type
  read (modify ({ · with endian := lastEndian }))
  read (modify (CDRDecoder.setOffset nextOffset))
  return a

/-- The peer announces an end it can be reached at. -/
def readListenPoint : ScanM Unit := do
  let host ← readStringView
  let port ← readUshort
  let some connection := (← get).connection
    | throw (.undefined .nullConnection)
  let sameHost ← equals host connection.remote.host
  if ¬ sameHost ∧ port ≠ connection.remote.port then
    if maxStringSize < host.size then
      throw (.thrown (.lengthError "basic_string::_M_replace"))
    let host ← octets host
    modify ({ · with connection := some { connection with remote := ⟨host, port⟩ } })

/-- What the decoder does with one service context. -/
def readServiceContextBody (type : UInt32) : ScanM Unit :=
  match ServiceId.ofUlong type with
  | .codeSets => return ()
  | .biDirIIOP => do
      let count ← readUlong
      times readListenPoint count.toNat
  | .securityAttributeService => return ()
  | .other _ _ => return ()

def readServiceContext : ScanM Unit := do
  let serviceContextListLength ← readUlong
  times (readEncapsulation readServiceContextBody) serviceContextListLength.toNat

/-! ### Headers -/

def tooSmall (size : ℕ) : String :=
  s!"Packet too small, need at least 16 octets for GIOP Header, got {size}"

def scanGIOPHeader : ScanM MessageType := do
  let d ← get
  if d.buffer.data.length < 16 then
    throw (.thrown (.runtimeError (tooSmall d.buffer.data.length)))
  if d.buffer.data.take 4 ≠ ascii "GIOP" then
    throw (.thrown (.runtimeError "Missing GIOP Header"))
  read (modify (CDRDecoder.setOffset 4))
  let major ← readOctet
  modify ({ · with majorVersion := major.toNat })
  let minor ← readOctet
  modify ({ · with minorVersion := minor.toNat })
  let flags ← readOctet
  read (modify (CDRDecoder.setLittleEndian (flags &&& 1 == 1)))
  let type := MessageType.ofOctet (← readOctet)
  modify ({ · with m_type := type })
  let length ← readUlong
  modify ({ · with m_length := length.toNat })
  return type

/-- The key of the object that is addressed, since GIOP 1.2. -/
def readTarget : ScanM View := do
  match AddressingDisposition.ofUshort (← readUshort) with
  | .keyAddr => readBlobView
  | .profileAddr | .referenceAddr =>
      throw (.thrown (.runtimeError "Unsupported AddressingDisposition."))
  | .unknown _ _ => throw (.thrown (.runtimeError "Unknown AddressingDisposition."))

/-- Whether the response flags of a request ask for a response.  Since GIOP 1.2 they are a sync
scope: the header is created with a false member, which only one of the cases sets. -/
def responseExpectedOf (legacy : Bool) (responseFlags : UInt8) : Bool :=
  if legacy then responseFlags ≠ 0
  else
    match responseFlags with
    | 0 => false
    | 1 => false
    | 2 => false
    | 3 => true
    | _ => false

def scanRequestHeader : ScanM RequestHeader := do
  let d ← get
  if d.isLegacy then
    readServiceContext
  let requestId ← readUlong
  let responseFlags ← readOctet
  let responseExpected := responseExpectedOf d.isLegacy responseFlags
  read (modify (CDRDecoder.skip 3))
  let objectKey ← if d.isLegacy then readBlobView else readTarget
  let operation ← readStringView
  if d.isLegacy then
    -- the principal itself is not skipped
    let _requestingPrincipalLength ← readUlong
  else
    readServiceContext
    read (modify CDRDecoder.align8)
  return { requestId, responseExpected, objectKey, operation }

def scanLocateRequest : ScanM LocateRequest := do
  let requestId ← readUlong
  modify ({ · with requestId })
  let d ← get
  let objectKey ← if d.isLegacy then readBlobView else readTarget
  return { requestId, objectKey }

def scanReplyHeader : ScanM ReplyHeader := do
  let d ← get
  if d.isLegacy then
    readServiceContext
  let requestId ← readUlong
  modify ({ · with requestId })
  let replyStatus := ReplyStatus.ofUlong (← readUlong)
  modify ({ · with replyStatus })
  if d.majorVersion = 1 ∧ d.minorVersion ≥ 2 then
    readServiceContext
  return { requestId, replyStatus }

/-! ### Object references -/

/-- What a reference says about where the object lives. -/
structure IiopProfile where
  host : Octets
  port : UInt16
  objectKey : Octets
  deriving DecidableEq, Repr

/-- What the decoder does with one profile: a later one replaces an earlier one. -/
def readProfile (profile : Option IiopProfile) (type : UInt32) : ScanM (Option IiopProfile) :=
  match ProfileId.ofUlong type with
  | .tagInternetIop => do
      let _iiopMajorVersion ← readOctet
      let _iiopMinorVersion ← readOctet
      let host ← readString
      let port ← readUshort
      let objectKey ← readBlob
      return some { host, port, objectKey }
  | .other _ _ => return profile

def readProfiles : ℕ → Option IiopProfile → ScanM (Option IiopProfile)
  | 0, profile => return profile
  | n + 1, profile => do readProfiles n (← readEncapsulation (readProfile profile))

/-- Without a profile there is no port: the variable is passed on without having been set. -/
def readReference (length : ℕ) : ScanM IOR := do
  let oid ← read (CDRDecoder.readStringOf length)
  let profileCount ← readUlong
  match ← readProfiles profileCount.toNat none with
  | none => throw (.undefined .uninitialized)
  | some p => return { oid, host := p.host, port := p.port, objectKey := p.objectKey }

def unsupportedTag (code : UInt32) : String :=
  "GIOPDecoder: Unsupported value with CORBA tag 0x" ++
    String.ofList (Nat.toDigits 16 code.toNat)

/-- `none` is the null reference.  `orb` says whether the caller has passed an ORB. -/
def readObject (orb : Bool) : ScanM (Option IOR) := do
  let code ← readUlong
  if code = 0 then
    return none
  if code &&& 0xffffff00 = 0x7fffff00 then
    throw (.thrown (.runtimeError "GIOPDecoder::object(): value types are not implemented yet"))
  if code = 0xffffffff then
    throw (.thrown (.runtimeError "GIOPDecoder::object(): pointers are not implemented yet"))
  if code < 0x7fffff00 then
    if ¬ orb then
      throw (.thrown (.runtimeError "GIOPDecoder::object(orb): orb must not be null"))
    let ref ← readReference code.toNat
    return some ref
  throw (.thrown (.runtimeError (unsupportedTag code)))

end Readers

end GIOPDecoder

end Corba
