/-
The object request broker.

`src/corba/orb.cc` sends the requests of stubs, hands the requests it receives to servants, answers
them, and turns the answers it receives into results or exceptions.  A servant and the arguments of
a call are user code: what counts of them is what they write to the encoder and how they end.
Coroutines come from outside of the repository.  What the code relies on is that `thenOrCatch` calls
the first of its functions when the coroutine returns and the second when it throws, either before
it returns itself or, after the coroutine has been suspended, at a later time.

Main definitions:

* `Corba.Writing`, `Corba.Dispatch`, `Corba.Servant` — user code;
* `Corba.Event`, `Corba.RcvM` — what happens on a connection while a message is handled;
* `Corba.ORB.socketRcvd` — the messages that arrive;
* `Corba.ORB._twowayCall`, `Corba.ORB.onewayCall` — the calls of a stub;
* `Corba.ORB.twowayResult` — what a call makes of the reply to it.
-/

import Corba.GiopDecoder

set_option relaxedAutoImplicit false
set_option autoImplicit false

namespace Corba

open Layout ByteOrder Placed Exec

/-! ### User code -/

/-- The calls user code makes to the encoder.  An encapsulation and a sequence are the calls they
consist of. -/
inductive WriteCall where
  | value (v : Value)
  | endian
  | object (o : Option Object)
  | reserveSize
  | fillInSize
  deriving DecidableEq

/-- How user code ends. -/
inductive Completion where
  | returns
  | throws (t : Thrown)
  deriving DecidableEq

/-- User code that has an encoder in hand.  It ends earlier when one of its calls throws. -/
structure Writing where
  calls : List WriteCall
  completion : Completion := .returns
  deriving DecidableEq

/-- Where the code of a servant ends: in the call of `_dispatch`, in the coroutine before it is
suspended for the first time, or after it has been suspended and the message it answers is gone. -/
inductive Phase where
  | call
  | coroutine
  | resumed
  deriving DecidableEq

structure Dispatch where
  phase : Phase := .coroutine
  writing : Writing
  deriving DecidableEq

/-- A servant is given the operation and a decoder that stands at the arguments. -/
structure Servant where
  repositoryId : Octets
  dispatch : Octets → GIOPDecoder → Dispatch

/-- `ORB::servants`: what is found under an object key. -/
abbrev Servants := Octets → Option Servant

section Writing

variable [Platform]

def WriteCall.run : WriteCall → EncodeM Unit
  | .value v => GIOPEncoder.write (·.writeValue v)
  | .endian => GIOPEncoder.writeEndian
  | .object o => GIOPEncoder.writeObject o
  | .reserveSize => GIOPEncoder.reserveSize
  | .fillInSize => GIOPEncoder.fillInSize

def WriteCall.runAll : List WriteCall → EncodeM Unit
  | [] => return ()
  | call :: calls => do
      call.run
      runAll calls

def Completion.run : Completion → EncodeM Unit
  | .returns => return ()
  | .throws t => throw (.thrown t)

def Writing.run (w : Writing) : EncodeM Unit := do
  WriteCall.runAll w.calls
  w.completion.run

end Writing

/-! ### What is thrown by a servant -/

/-- `typeid(ex).name()` and `ex.what()` of an exception of the C++ library. -/
def Thrown.describe : Thrown → Option (CString × CString)
  | .outOfRange what => some (cString (ascii "St12out_of_range"), cString (ascii what))
  | .lengthError what => some (cString (ascii "St12length_error"), cString (ascii what))
  | .runtimeError what => some (cString (ascii "St13runtime_error"), cString (ascii what))
  | .stdException typeName what => some (typeName, what)
  | _ => none

/-- `format("IDL:{}:1.0: {}", typeid(ex).name(), ex.what())`. -/
def genericText (typeName what : CString) : Octets :=
  ascii "IDL:" ++ typeName ++ ascii ":1.0: " ++ what

/-- The exception id that stands for all exceptions that are not system exceptions. -/
def genericId : Octets := ascii "IDL:mark13.org/CORBA/GENERIC:1.0"

/-! ### Receiving -/

/-- What is done with the connection while a message is handled. -/
inductive Event where
  /-- A message is handed to `Connection::send`, which returns. -/
  | send (message : Octets)
  /-- The call that waits for the reply, if there is one, goes on with the decoder. -/
  | resume (requestId : UInt32) (decoder : GIOPDecoder)
  deriving DecidableEq

structure Reception where
  decoder : GIOPDecoder
  events : List Event := []
  deriving DecidableEq

/-- Programs that handle a message. -/
abbrev RcvM := EStateM Fault Reception

namespace ORB

/-- Read from the message. -/
def scan {α : Type} (m : ScanM α) : RcvM α := fun r =>
  match m r.decoder with
  | .ok a d => .ok a { r with decoder := d }
  | .error f d => .error f { r with decoder := d }

/-- Run a program on an encoder, and return the encoder. -/
def encode (m : EncodeM Unit) (e : GIOPEncoder) : RcvM GIOPEncoder := fun r =>
  match m e with
  | .ok _ e' => .ok e' r
  | .error f _ => .error f r

def emit (event : Event) : RcvM Unit := modify fun r => { r with events := r.events ++ [event] }

/-- The encoder of an answer speaks the version of the request. -/
def answerEncoder (d : GIOPDecoder) : GIOPEncoder :=
  { connection := d.connection, majorVersion := d.majorVersion, minorVersion := d.minorVersion }

/-! ### The exceptions a caller knows -/

/-- The exception ids the caller knows, in the order in which they are tried. -/
def systemExceptions : List (String × SystemExceptionClass) := [
  ("IDL:omg.org/CORBA/BAD_INV_ORDER:1.0", .badInvOrder),
  ("IDL:omg.org/CORBA/ACTIVITY_COMPLETED:1.0", .activityCompleted),
  ("IDL:omg.org/CORBA/ACTIVITY_REQUIRED:1.0", .activityRequired),
  ("IDL:omg.org/CORBA/BAD_CONTEXT:1.0", .badContext),
  ("IDL:omg.org/CORBA/BAD_OPERATION:1.0", .badOperation),
  ("IDL:omg.org/CORBA/BAD_PARAM:1.0", .badParam),
  ("IDL:omg.org/CORBA/BAD_TYPECODE:1.0", .badTypecode),
  ("IDL:omg.org/CORBA/CODESET_INCOMPATIBLE:1.0", .codesetIncompatible),
  ("IDL:omg.org/CORBA/DATA_CONVERSION:1.0", .dataConversion),
  ("IDL:omg.org/CORBA/IMP_LIMIT:1.0", .impLimit),
  ("IDL:omg.org/CORBA/INITIALIZE:1.0", .initializeError),
  ("IDL:omg.org/CORBA/INTERNAL:1.0", .internal),
  ("IDL:omg.org/CORBA/INTF_REPOS:1.0", .intfRepos),
  ("IDL:omg.org/CORBA/INVALID_ACTIVITY:1.0", .invalidActivity),
  ("IDL:omg.org/CORBA/INV_OBJREF:1.0", .invObjref),
  ("IDL:omg.org/CORBA/INV_POLICY:1.0", .invPolicy),
  ("IDL:omg.org/CORBA/MARSHAL:1.0", .marshal),
  ("IDL:omg.org/CORBA/NO_IMPLEMENT:1.0", .noImplement),
  ("IDL:omg.org/CORBA/NO_RESPONSE:1.0", .noResponse),
  ("IDL:omg.org/CORBA/OBJECT_ADAPTER:1.0", .objectAdapter),
  ("IDL:omg.org/CORBA/OBJECT_NOT_EXIST:1.0", .objectNotExist),
  ("IDL:omg.org/CORBA/TIMEOUT:1.0", .timeout),
  ("IDL:omg.org/CORBA/TRANSACTION_ROLLEDBACK:1.0", .transactionRolledback),
  ("IDL:omg.org/CORBA/TRANSIENT:1.0", .transient),
  ("IDL:omg.org/CORBA/UNKNOWN:1.0", .unknown),
  ("IDL:omg.org/CORBA/NO_PERMISSION:1.0", .noPermission),
  ("IDL:omg.org/CORBA/REBIND:1.0", .rebind),
  ("IDL:omg.org/CORBA/COMM_FAILURE:1.0", .commFailure)]

def systemExceptionOf (exceptionId : Octets) : Option SystemExceptionClass :=
  (systemExceptions.find? fun p => ascii p.1 == exceptionId).map Prod.snd

/-- `HostAndPort::str()`. -/
def hostAndPortStr (a : HostAndPort) : String :=
  "[" ++ text a.host ++ "]:" ++ toString a.port

/-- `Connection::str()`. -/
def connectionStr (c : Connection) : String :=
  hostAndPortStr c.protocolLocal ++ " -> " ++ hostAndPortStr c.remote

/-! ### Requests -/

variable [Platform]

/-- Put both headers in front of a reply and send it. -/
def sendReply (requestId : UInt32) (replyStatus : ReplyStatus) (e : GIOPEncoder) : RcvM Unit := do
  let e ← encode (do
    GIOPEncoder.setGIOPHeader .reply
    GIOPEncoder.setReplyHeader requestId replyStatus) e
  emit (.send e.buffer.data)

/-- The body of a reply that reports a system exception. -/
def writeSystemException (exceptionId : Octets) (minor completed : UInt32) : EncodeM Unit := do
  GIOPEncoder.writeString exceptionId
  GIOPEncoder.writeUlong minor
  GIOPEncoder.writeUlong completed

/-- There is no servant with the object key of the request. -/
def noServant (request : RequestHeader) : RcvM Unit := do
  if request.responseExpected then
    let e ← encode (do
      GIOPEncoder.skipReplyHeader
      writeSystemException SystemExceptionClass.objectNotExist.repId 0x4f4d0001
        CompletionStatus.no.toUlong) (answerEncoder (← get).decoder)
    sendReply request.requestId .systemException e

/-- The operation `_is_a`, which is not left to the servant.  The repository id is compared, and
printed. -/
def is_a (servant : Servant) (request : RequestHeader) : RcvM Unit := do
  let view ← scan GIOPDecoder.readStringView
  let e ← encode GIOPEncoder.skipReplyHeader (answerEncoder (← get).decoder)
  let repositoryId ← scan (GIOPDecoder.octets view)
  let e ← encode (GIOPEncoder.writeBoolean (repositoryId == servant.repositoryId)) e
  sendReply request.requestId .noException e

/-- What is done when the coroutine of the servant has returned. -/
def onReturn (request : RequestHeader) (e : GIOPEncoder) : RcvM Unit := do
  if request.responseExpected then
    sendReply request.requestId .noException e

/-- What the coroutine of the servant has thrown is written behind what it has written before. -/
def onThrow (request : RequestHeader) (e : GIOPEncoder) (t : Thrown) : RcvM Unit := do
  match t with
  | .userException =>
      if request.responseExpected then
        sendReply request.requestId .userException e
  | .systemException error =>
      if request.responseExpected then
        let e ← encode
          (writeSystemException error.cls.repId error.minor error.completed.toUlong) e
        sendReply request.requestId .systemException e
  | t =>
      if let some (typeName, what) := t.describe then
        if request.responseExpected then
          let e ← encode (do
            writeSystemException genericId 0 0
            GIOPEncoder.writeString (genericText typeName what)) e
          sendReply request.requestId .systemException e

/-- What ends a call of `_dispatch` itself is caught further out, where nothing is sent: all
exceptions of the C++ library, to which those of CORBA belong.  A value of another type is not
caught. -/
def onCallThrow (t : Thrown) : RcvM Unit :=
  match t with
  | .other => throw (.thrown .other)
  | _ => return ()

/-- What the coroutine throws after it has been suspended.  The handlers for exceptions refer to
variables of `socketRcvd`, which are gone by then; the one for everything else only logs. -/
def onLateThrow (t : Thrown) : RcvM Unit :=
  match t with
  | .other => return ()
  | _ => throw (.undefined .dangling)

/-- How the code of a servant ends decides which of the two functions is called. -/
def thenOrCatch (request : RequestHeader) (e : GIOPEncoder) (call : Dispatch) : RcvM Unit :=
  match call.writing.run e with
  | .ok _ e => onReturn request e
  | .error (.thrown t) e =>
      match call.phase with
      | .call => onCallThrow t
      | .coroutine => onThrow request e t
      | .resumed => onLateThrow t
  | .error (.undefined u) _ => throw (.undefined u)

/-- Hand the request to the servant. -/
def dispatch (servant : Servant) (request : RequestHeader) (operation : Octets) : RcvM Unit := do
  let d := (← get).decoder
  let e ← encode GIOPEncoder.skipReplyHeader (answerEncoder d)
  thenOrCatch request e (servant.dispatch operation d)

/-- A request.  Its object key and its operation are printed before anything else is done. -/
def onRequest (servants : Servants) : RcvM Unit := do
  let request ← scan GIOPDecoder.scanRequestHeader
  let objectKey ← scan (GIOPDecoder.octets request.objectKey)
  let operation ← scan (GIOPDecoder.octets request.operation)
  match servants objectKey with
  | none => noServant request
  | some servant =>
      if operation = ascii "_is_a" then
        is_a servant request
      else
        dispatch servant request operation

/-- A reply.  That no call waits for it is caught. -/
def onReply : RcvM Unit := do
  let reply ← scan GIOPDecoder.scanReplyHeader
  emit (.resume reply.requestId (← get).decoder)

def onLocateRequest (servants : Servants) : RcvM Unit := do
  let request ← scan GIOPDecoder.scanLocateRequest
  let objectKey ← scan (GIOPDecoder.octets request.objectKey)
  let status : LocateStatusType :=
    if (servants objectKey).isSome then .objectHere else .unknownObject
  let e ← encode (do
    GIOPEncoder.encodeLocateReply request.requestId status
    GIOPEncoder.setGIOPHeader .locateReply) (answerEncoder (← get).decoder)
  emit (.send e.buffer.data)

def onMessage (servants : Servants) : RcvM Unit := do
  match ← scan GIOPDecoder.scanGIOPHeader with
  | .request => onRequest servants
  | .reply => onReply
  | .locateRequest => onLocateRequest servants
  | _ => return ()

/-- A message that has arrived on a connection. -/
def socketRcvd (servants : Servants) (connection : Connection) (message : Octets) :
    EStateM.Result Fault Reception Unit :=
  let r : Reception := { decoder := { buffer := ⟨message, 0, none⟩, connection := connection } }
  if message.length = 0 then .ok () r else onMessage servants r

/-! ### Calling -/

/-- The connection of a stub, as a call sees it, and what has been handed to its `send`. -/
structure Caller where
  connection : Option Connection
  requestId : UInt32 := 0
  sent : List Octets := []
  deriving DecidableEq

/-- Programs that call an operation of a stub. -/
abbrev CallM := EStateM Fault Caller

/-- Run a program on an encoder of the connection. -/
def encodeCall (m : EncodeM Unit) : CallM Octets := fun c =>
  match m { connection := c.connection } with
  | .ok _ e => .ok e.buffer.data { c with connection := e.connection }
  | .error f e => .error f { c with connection := e.connection }

/-- What both kinds of calls have in common.  That `send` has thrown is caught. -/
def request (name : String) (responseExpected : Bool) (objectKey : Octets) (operation : CString)
    (arguments : Writing) : CallM UInt32 := do
  let c ← get
  if c.connection.isNone then
    throw (.thrown (.runtimeError ("ORB::" ++ name ++ "(): the stub has no connection")))
  let requestId := c.requestId
  modify ({ · with requestId := requestId + 2 })
  let message ← encodeCall (do
    GIOPEncoder.encodeRequest objectKey operation requestId responseExpected
    arguments.run
    GIOPEncoder.setGIOPHeader .request)
  modify fun c => { c with sent := c.sent ++ [message] }
  return requestId

/-- The first part of `_twowayCall`.  The call then waits for the reply to the request id. -/
def _twowayCall (objectKey : Octets) (operation : CString) (arguments : Writing) : CallM UInt32 :=
  request "_twowayCall" true objectKey operation arguments

def onewayCall (objectKey : Octets) (operation : CString) (arguments : Writing) : CallM Unit := do
  let _ ← request "onewayCall" false objectKey operation arguments

/-! ### Results -/

/-- The last part of `_twowayCall`, after the reply has arrived. -/
def twowayResult (connection : Connection) : ScanM Unit := do
  match (← get).replyStatus with
  | .noException => return ()
  | .userException => throw (.thrown .userException)
  | .systemException => do
      let exceptionId ← GIOPDecoder.readString
      let minorCodeValue ← GIOPDecoder.readUlong
      let some completionStatus := CompletionStatus.ofUlong (← GIOPDecoder.readUlong)
        | throw (.undefined .enumeration)
      if let some cls := systemExceptionOf exceptionId then
        throw (.thrown (.systemException ⟨cls, minorCodeValue, completionStatus⟩))
      if exceptionId = genericId then
        let what ← GIOPDecoder.readString
        throw (.thrown (.runtimeError
          ("Remote CORBA exception from " ++ connectionStr connection ++ ": " ++ text what)))
      throw (.thrown (.runtimeError
        ("CORBA System Exception " ++ text exceptionId ++ " from " ++ connectionStr connection)))
  | status =>
      throw (.thrown (.runtimeError
        ("ReplyStatusType " ++ toString status.toUlong ++ " is not supported")))

end ORB

end Corba
