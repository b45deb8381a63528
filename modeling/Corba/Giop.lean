/-
GIOP messages and their encoder.

`GIOPEncoder` of `src/corba/giop.cc` writes the General Inter-ORB Protocol on top of the CDR
encoder.  Nothing is written from front to back: the room of the twelve octets every message
begins with is skipped first and filled in last, and the number of service contexts and the size of
every encapsulation are filled in behind what they count.

Main definitions:

* `Corba.MessageType`, `Corba.ReplyStatus`, `Corba.ServiceId`, … — the enumerations of the
  protocol, each closed under the numbers a peer can send;
* `Corba.Connection` — what the encoder and the decoder see of a connection;
* `Corba.GIOPEncoder`, `Corba.EncodeM` — the encoder and programs that write to it;
* `Corba.GIOPEncoder.encodeRequest`, `setReplyHeader`, `setGIOPHeader`, `writeObject`, … — the
  functions of the encoder.

Main results:

* `Corba.MessageType.ofOctet_toOctet`, … — no enumeration loses a number on the wire.
-/

import Corba.CdrEncoder

set_option relaxedAutoImplicit false
set_option autoImplicit false

namespace Corba

open Layout ByteOrder Placed Exec

/-! ### The enumerations of the protocol -/

/-- The type of a message.  A peer can send any octet in its place. -/
inductive MessageType where
  | request | reply | cancelRequest | locateRequest | locateReply | closeConnection
  | messageError | fragment
  | unknown (code : UInt8) (h : 8 ≤ code)
  deriving DecidableEq, Repr

def MessageType.toOctet : MessageType → UInt8
  | .request => 0
  | .reply => 1
  | .cancelRequest => 2
  | .locateRequest => 3
  | .locateReply => 4
  | .closeConnection => 5
  | .messageError => 6
  | .fragment => 7
  | .unknown code _ => code

def MessageType.ofOctet (code : UInt8) : MessageType :=
  if h : 8 ≤ code then .unknown code h
  else if code = 0 then .request
  else if code = 1 then .reply
  else if code = 2 then .cancelRequest
  else if code = 3 then .locateRequest
  else if code = 4 then .locateReply
  else if code = 5 then .closeConnection
  else if code = 6 then .messageError
  else .fragment

@[simp] theorem MessageType.ofOctet_toOctet (t : MessageType) : ofOctet t.toOctet = t := by
  cases t with
  | unknown code h => exact dif_pos h
  | _ => rfl

/-- The status of a reply. -/
inductive ReplyStatus where
  | noException | userException | systemException | locationForward | locationForwardPerm
  | needsAddressingMode
  | unknown (code : UInt32) (h : 6 ≤ code)
  deriving DecidableEq, Repr

def ReplyStatus.toUlong : ReplyStatus → UInt32
  | .noException => 0
  | .userException => 1
  | .systemException => 2
  | .locationForward => 3
  | .locationForwardPerm => 4
  | .needsAddressingMode => 5
  | .unknown code _ => code

def ReplyStatus.ofUlong (code : UInt32) : ReplyStatus :=
  if h : 6 ≤ code then .unknown code h
  else if code = 0 then .noException
  else if code = 1 then .userException
  else if code = 2 then .systemException
  else if code = 3 then .locationForward
  else if code = 4 then .locationForwardPerm
  else .needsAddressingMode

@[simp] theorem ReplyStatus.ofUlong_toUlong (s : ReplyStatus) : ofUlong s.toUlong = s := by
  cases s with
  | unknown code h => exact dif_pos h
  | _ => rfl

/-- The answer to a locate request. -/
inductive LocateStatusType where
  | unknownObject | objectHere | objectForward | objectForwardPerm | locSystemException
  | locNeedsAddressingMode
  deriving DecidableEq, Repr

def LocateStatusType.toUlong : LocateStatusType → UInt32
  | .unknownObject => 0
  | .objectHere => 1
  | .objectForward => 2
  | .objectForwardPerm => 3
  | .locSystemException => 4
  | .locNeedsAddressingMode => 5

/-- The service contexts the decoder tells apart. -/
inductive ServiceId where
  | codeSets | biDirIIOP | securityAttributeService
  | other (code : UInt32) (h : code ≠ 1 ∧ code ≠ 5 ∧ code ≠ 15)
  deriving DecidableEq, Repr

def ServiceId.toUlong : ServiceId → UInt32
  | .codeSets => 1
  | .biDirIIOP => 5
  | .securityAttributeService => 15
  | .other code _ => code

def ServiceId.ofUlong (code : UInt32) : ServiceId :=
  if h : code ≠ 1 ∧ code ≠ 5 ∧ code ≠ 15 then .other code h
  else if code = 1 then .codeSets
  else if code = 5 then .biDirIIOP
  else .securityAttributeService

@[simp] theorem ServiceId.ofUlong_toUlong (s : ServiceId) : ofUlong s.toUlong = s := by
  cases s with
  | other code h => exact dif_pos h
  | _ => rfl

/-- The profiles of a reference the decoder tells apart. -/
inductive ProfileId where
  | tagInternetIop
  | other (code : UInt32) (h : code ≠ 0)
  deriving DecidableEq, Repr

def ProfileId.toUlong : ProfileId → UInt32
  | .tagInternetIop => 0
  | .other code _ => code

def ProfileId.ofUlong (code : UInt32) : ProfileId :=
  if h : code ≠ 0 then .other code h else .tagInternetIop

@[simp] theorem ProfileId.ofUlong_toUlong (p : ProfileId) : ofUlong p.toUlong = p := by
  cases p with
  | tagInternetIop => rfl
  | other code h => exact dif_pos h

/-- `ComponentId::ORB_TYPE`, the only component that is written. -/
def ComponentId.orbType : UInt32 := 0

/-- How a request names its target. -/
inductive AddressingDisposition where
  | keyAddr | profileAddr | referenceAddr
  | unknown (code : UInt16) (h : 3 ≤ code)
  deriving DecidableEq, Repr

def AddressingDisposition.toUshort : AddressingDisposition → UInt16
  | .keyAddr => 0
  | .profileAddr => 1
  | .referenceAddr => 2
  | .unknown code _ => code

def AddressingDisposition.ofUshort (code : UInt16) : AddressingDisposition :=
  if h : 3 ≤ code then .unknown code h
  else if code = 0 then .keyAddr
  else if code = 1 then .profileAddr
  else .referenceAddr

@[simp] theorem AddressingDisposition.ofUshort_toUshort (a : AddressingDisposition) :
    ofUshort a.toUshort = a := by
  cases a with
  | unknown code h => exact dif_pos h
  | _ => rfl

/-! ### Connections and objects -/

structure HostAndPort where
  host : Octets
  port : UInt16
  deriving DecidableEq, Repr

/-- What the encoder and the decoder see of a connection: the far end, the near end, which is the
one of the protocol, and whether the near end has been announced to the peer. -/
structure Connection where
  remote : HostAndPort
  protocolLocal : HostAndPort
  didSendBiDirIIOP : Bool := false
  deriving DecidableEq, Repr

/-- An object that lives at the far end of a connection. -/
structure Stub where
  repositoryId : Octets
  objectKey : Octets
  connection : Option Connection
  deriving DecidableEq, Repr

/-- An object that lives here. -/
structure Skeleton where
  repositoryId : Octets
  objectKey : Octets
  deriving DecidableEq, Repr

/-- The classes `writeObject` tells apart. -/
inductive Object where
  | stub (s : Stub)
  | skeleton (s : Skeleton)
  | ior
  | valueType
  deriving DecidableEq, Repr

/-! ### The encoder -/

/-- `GIOPEncoder`.  A peer that speaks an older version is answered in its version. -/
structure GIOPEncoder where
  connection : Option Connection
  majorVersion : ℕ := 1
  minorVersion : ℕ := 2
  buffer : CDREncoder := {}
  deriving DecidableEq, Repr

/-- Programs that write to an encoder. -/
abbrev EncodeM := EStateM Fault GIOPEncoder

namespace GIOPEncoder

/-- Write to the buffer. -/
def write (f : CDREncoder → CDREncoder) : EncodeM Unit :=
  modify fun e => { e with buffer := f e.buffer }

@[simp] theorem write_run (f : CDREncoder → CDREncoder) (e : GIOPEncoder) :
    write f e = .ok () { e with buffer := f e.buffer } := rfl

/-- The versions whose headers begin with the service contexts. -/
def isLegacy (e : GIOPEncoder) : Bool := e.majorVersion == 1 && e.minorVersion ≤ 1

variable [Platform]

def writeBoolean (value : Bool) : EncodeM Unit := write (·.writeBoolean value)

def writeOctet (value : UInt8) : EncodeM Unit := write (·.writeOctet value)

def writeUshort (value : UInt16) : EncodeM Unit := write (·.writeUshort value)

def writeUlong (value : UInt32) : EncodeM Unit := write (·.writeUlong value)

def writeString (value : Octets) : EncodeM Unit := write (·.writeString value)

def writeBlob (value : Octets) : EncodeM Unit := write (·.writeBlob value)

def writeEndian : EncodeM Unit := write (·.writeEndian)

def reserveSize : EncodeM Unit := write (·.reserveSize)

def fillInSize : EncodeM Unit := fun e =>
  match CDREncoder.fillInSize e.buffer with
  | .ok u b => .ok u { e with buffer := b }
  | .error f b => .error f { e with buffer := b }

/-- The three overloads differ in the enumeration the type is taken from. -/
def writeEncapsulation (type : UInt32) (closure : EncodeM Unit) : EncodeM Unit := do
  writeUlong type
  reserveSize
  writeEndian
  closure
  fillInSize

/-! ### References -/

def noConnection : String :=
  "GIOPEncoder::reference(...): the encoder has no connection and can not be reached over the " ++
    "network"

/-- The part of `writeReference` whose size is filled in. -/
def writeProfile (objectKey : Octets) (objectIsAStub : Bool) : EncodeM Unit := do
  writeEndian
  let e ← get
  writeOctet (UInt8.ofNat e.majorVersion)
  writeOctet (UInt8.ofNat e.minorVersion)
  let some connection := e.connection
    | throw (.thrown (.runtimeError noConnection))
  if objectIsAStub then
    writeString connection.remote.host
    writeUshort connection.remote.port
  else
    writeString connection.protocolLocal.host
    writeUshort connection.protocolLocal.port
  writeBlob objectKey
  if e.majorVersion ≠ 1 ∨ e.minorVersion ≠ 0 then
    writeUlong 1
    writeEncapsulation ComponentId.orbType (writeUlong 0x4d313300)

/-- Of the object, its repository id and its object key are written. -/
def writeReference (repositoryId objectKey : Octets) (objectIsAStub : Bool) : EncodeM Unit := do
  writeString repositoryId
  writeUlong 1
  writeUlong ProfileId.tagInternetIop.toUlong
  reserveSize
  writeProfile objectKey objectIsAStub
  fillInSize

def writeObject : Option Object → EncodeM Unit
  | none => do
      writeUlong 1
      writeOctet 0
      writeUlong 0
  | some (.stub s) => writeReference s.repositoryId s.objectKey true
  | some (.skeleton s) => writeReference s.repositoryId s.objectKey false
  | some .ior => throw (.thrown (.runtimeError "Can not serialize object reference yet."))
  | some .valueType => throw (.thrown (.runtimeError "Can not serialize value type yet."))

/-! ### Headers -/

def setOffset (offset : ℕ) : EncodeM Unit := write ({ · with offset })

def skipGIOPHeader : EncodeM Unit := setOffset 10

def skipReplyHeader : EncodeM Unit := setOffset 24

def setGIOPHeader (type : MessageType) : EncodeM Unit := do
  write (·.reserve)
  let e ← get
  let offset := e.buffer.offset
  setOffset 0
  writeOctet 0x47
  writeOctet 0x49
  writeOctet 0x4f
  writeOctet 0x50
  writeOctet (UInt8.ofNat e.majorVersion)
  writeOctet (UInt8.ofNat e.minorVersion)
  writeEndian
  writeOctet type.toOctet
  writeUlong (UInt32.ofNat offset - 12)
  setOffset offset

def setReplyHeader (requestId : UInt32) (replyStatus : ReplyStatus) : EncodeM Unit := do
  skipGIOPHeader
  let e ← get
  if e.majorVersion = 1 ∧ e.minorVersion < 2 then
    writeUlong 0
  writeUlong requestId
  writeUlong replyStatus.toUlong
  if e.majorVersion = 1 ∧ e.minorVersion ≥ 2 then
    writeUlong 0

/-- Announce the near end of the connection, once. -/
def writeServiceContext : EncodeM Unit := do
  let e ← get
  match e.connection with
  | none => writeUlong 0
  | some connection =>
      let offset := e.buffer.offset
      writeUlong 0
      let count : UInt32 := if connection.didSendBiDirIIOP then 0 else 1
      if ¬ connection.didSendBiDirIIOP then
        modify ({ · with connection := some { connection with didSendBiDirIIOP := true } })
        writeEncapsulation ServiceId.biDirIIOP.toUlong do
          writeUlong 1
          writeString connection.protocolLocal.host
          writeUshort connection.protocolLocal.port
      let offset0 := (← get).buffer.offset
      setOffset offset
      writeUlong count
      setOffset offset0

def encodeRequest (objectKey operation : Octets) (requestId : UInt32) (responseExpected : Bool) :
    EncodeM Unit := do
  skipGIOPHeader
  let e ← get
  if e.isLegacy then
    writeServiceContext
  writeUlong requestId
  if e.isLegacy then
    writeOctet (if responseExpected then 1 else 0)
  else
    writeOctet (if responseExpected then 3 else 0)
  write fun b => { b with offset := b.offset + 3 }
  if e.isLegacy then
    writeBlob objectKey
  else
    writeUshort AddressingDisposition.keyAddr.toUshort
    writeBlob objectKey
  writeString operation
  if e.isLegacy then
    writeUlong 0
  else
    writeServiceContext
    write (·.align8)

def encodeLocateReply (requestId : UInt32) (status : LocateStatusType) : EncodeM Unit := do
  skipGIOPHeader
  writeUlong requestId
  writeUlong status.toUlong

end GIOPEncoder

end Corba
