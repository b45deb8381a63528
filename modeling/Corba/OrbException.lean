/-
What the caller learns about an exception.

An exception of a servant is reported by its id, its minor code, its completion status and, if it is
not a system exception, a text.  All of them are written behind what the servant has already written,
and the caller looks for them at the beginning.

Main definitions:

* `Corba.ORB.Report`, `Corba.ORB.reportOf` — what is reported about what has been thrown;
* `Corba.ORB.readReport` — what the caller reads;
* `Corba.ORB.Dispatched` — a request that reaches a servant;
* `Corba.ORB.Raises`, `Corba.ORB.Reports` — what the caller makes of the reply.

Main results:

* `Corba.ORB.systemExceptionOf_repId` — the classes the caller knows;
* `Corba.ORB.readReport_iff` — when the caller reads a report;
* `Corba.ORB.report_arrives` — what the caller is handed;
* `Corba.ORB.system_exception_crosses_iff` — which system exceptions the caller throws again.
-/

import Mathlib.Data.List.Nodup
import Corba.CdrSound
import Corba.GiopReference
import Corba.OrbAnswer

set_option relaxedAutoImplicit false
set_option autoImplicit false

namespace Corba

open Layout ByteOrder Placed Exec

/-! ### The ids of the classes -/

/-- The classes, in the order of `systemExceptions`, and the one that is missing there. -/
def SystemExceptionClass.all : List SystemExceptionClass :=
  [.badInvOrder, .activityCompleted, .activityRequired, .badContext, .badOperation, .badParam,
    .badTypecode, .codesetIncompatible, .dataConversion, .impLimit, .initializeError, .internal,
    .intfRepos, .invalidActivity, .invObjref, .invPolicy, .marshal, .noImplement, .noResources,
    .noResponse, .objectAdapter, .objectNotExist, .timeout, .transactionRolledback, .transient,
    .unknown, .noPermission, .rebind, .commFailure]

theorem SystemExceptionClass.mem_all (c : SystemExceptionClass) : c ∈ all := by
  cases c <;> simp [all]

/-- The sum of the octets already tells all ids apart. -/
def octetSum (s : Octets) : ℕ := (s.map UInt8.toNat).sum

theorem octetSum_ascii (s : List Char) :
    octetSum (ascii (String.ofList s)) = (s.map fun c => c.toNat % 256).sum := by
  simp [octetSum, ascii, Function.comp_def]

namespace ORB

theorem octetSum_nodup :
    (octetSum genericId :: SystemExceptionClass.all.map fun c => octetSum c.repId).Nodup := by
  simp only [SystemExceptionClass.all, List.map, SystemExceptionClass.repId,
    SystemExceptionClass.repIdString, genericId]
  repeat rw [octetSum_ascii]
  decide

theorem repId_injective {c c' : SystemExceptionClass} (h : c.repId = c'.repId) : c = c' :=
  List.inj_on_of_nodup_map (List.nodup_cons.1 octetSum_nodup).2 c.mem_all c'.mem_all
    (congrArg octetSum h)

/-- No class has the id that stands for all other exceptions. -/
theorem repId_ne_generic (c : SystemExceptionClass) : c.repId ≠ genericId := by
  intro h
  refine (List.nodup_cons.1 octetSum_nodup).1 (List.mem_map.2 ⟨c, c.mem_all, ?_⟩)
  exact congrArg octetSum h

theorem repId_length (c : SystemExceptionClass) : c.repId.length < 64 := by
  cases c <;> simp only [SystemExceptionClass.repId, SystemExceptionClass.repIdString, ascii,
    List.length_map] <;> rw [String.toList_ofList] <;> decide

theorem genericId_length : genericId.length < 64 := by
  simp only [genericId, ascii, List.length_map]
  rw [String.toList_ofList]
  decide

theorem systemExceptions_eq :
    systemExceptions = (SystemExceptionClass.all.filter (· ≠ .noResources)).map
      fun c => (c.repIdString, c) := rfl

/-- **The class the caller finds for an id.**  One of them has been left out. -/
theorem systemExceptionOf_repId (c : SystemExceptionClass) :
    systemExceptionOf c.repId = if c = .noResources then none else some c := by
  have hsame : (fun p : String × SystemExceptionClass => ascii p.1 == c.repId) ∘
      (fun c' : SystemExceptionClass => (c'.repIdString, c')) = fun c' => c' == c := by
    funext c'
    rw [Function.comp_apply, Bool.eq_iff_iff, beq_iff_eq, beq_iff_eq]
    exact ⟨repId_injective, congrArg SystemExceptionClass.repId⟩
  rw [systemExceptionOf, systemExceptions_eq, List.find?_map, hsame]
  cases c <;> rfl

/-! ### Reports -/

/-- What a reply says about an exception. -/
structure Report where
  exceptionId : Octets
  minor : UInt32
  completed : UInt32
  what : Option Octets
  /-- There is a text behind the id that stands for all other exceptions, and only there. -/
  what_iff : what.isSome ↔ exceptionId = genericId
  deriving DecidableEq

def systemExceptionReport (ex : SystemException) : Report where
  exceptionId := ex.cls.repId
  minor := ex.minor
  completed := ex.completed.toUlong
  what := none
  what_iff := by simp [repId_ne_generic]

def genericReport (typeName what : CString) : Report where
  exceptionId := genericId
  minor := 0
  completed := 0
  what := some (genericText typeName what)
  what_iff := by simp

/-- The report of what a servant has thrown, if a system exception is reported. -/
def reportOf : Thrown → Option Report
  | .systemException ex => some (systemExceptionReport ex)
  | t => t.describe.map fun p => genericReport p.1 p.2

theorem exceptionId_length {t : Thrown} {rep : Report} (h : reportOf t = some rep) :
    rep.exceptionId.length < 64 := by
  cases t with
  | systemException ex =>
      cases h
      exact repId_length ex.cls
  | userException => cases h
  | other => cases h
  | _ =>
      cases h
      exact genericId_length

namespace Report

variable [Platform]

/-- How a report is laid out. -/
def body (rep : Report) : Cdr.Items :=
  systemExceptionBody rep.exceptionId rep.minor rep.completed ++
    match rep.what with
    | none => []
    | some what => Cdr.string native what

/-- What counts of it for the caller, who passes over the octet that ends a string. -/
def bodyOpen (rep : Report) : Cdr.Items :=
  Cdr.stringOpen native rep.exceptionId ++ (Cdr.ulong native rep.minor ++
    (Cdr.ulong native rep.completed ++
      match rep.what with
      | none => []
      | some what => Cdr.stringOpen native what))

theorem extent_bodyOpen (rep : Report) (o : ℕ) : extent o rep.bodyOpen = extent o rep.body := by
  rw [body, bodyOpen, systemExceptionBody]
  cases rep.what with
  | none => simp [extent_append]
  | some what => simp [extent_append]

theorem laid_bodyOpen {D : Octets} {o : ℕ} {rep : Report} (h : Laid D o rep.body) :
    Laid D o rep.bodyOpen := by
  obtain ⟨exceptionId, minor, completed, what, hwhat⟩ := rep
  rw [body, systemExceptionBody, List.append_assoc, List.append_assoc] at h
  obtain ⟨hid, h⟩ := laid_append.1 h
  obtain ⟨hminor, h⟩ := laid_append.1 h
  obtain ⟨hcompleted, hwhat⟩ := laid_append.1 h
  rw [Cdr.extent_string] at hminor hcompleted hwhat
  refine laid_append.2 ⟨Cdr.laid_stringOpen hid, ?_⟩
  rw [Cdr.extent_stringOpen]
  refine laid_append.2 ⟨hminor, laid_append.2 ⟨hcompleted, ?_⟩⟩
  cases what with
  | none => exact hwhat
  | some what => exact Cdr.laid_stringOpen hwhat

/-- A report ends with octets. -/
theorem body_eq (rep : Report) : ∃ xs bs, bs ≠ [] ∧ rep.body = xs ++ [.raw bs] := by
  rw [body, systemExceptionBody]
  cases rep.what with
  | none =>
      refine ⟨Cdr.string native rep.exceptionId ++ (Cdr.ulong native rep.minor ++ [.align 4]),
        native.bytes 4 rep.completed.toNat, ?_, ?_⟩
      · exact List.ne_nil_of_length_pos (by rw [Endian.length_bytes]; decide)
      · simp [Cdr.ulong]
  | some what =>
      refine ⟨systemExceptionBody rep.exceptionId rep.minor rep.completed ++
        Cdr.ulong native (UInt32.ofNat (what.length + 1)), what ++ [0], by simp, ?_⟩
      simp [systemExceptionBody, Cdr.string]

/-- The text is one whose length the format can express. -/
def Fits (rep : Report) : Prop := ∀ what, rep.what = some what → what.length + 1 < 2 ^ 32

end Report

/-! ### What the caller reads -/

section Reading

variable [Platform]

/-- `readString`, `readUlong`, `readUlong`, and `readString` again behind the id that stands for all
other exceptions. -/
def readReport : ScanM Report := do
  let exceptionId ← GIOPDecoder.readString
  let minor ← GIOPDecoder.readUlong
  let completed ← GIOPDecoder.readUlong
  if h : exceptionId = genericId then
    let what ← GIOPDecoder.readString
    return { exceptionId, minor, completed, what := some what, what_iff := by simp [h] }
  else
    return { exceptionId, minor, completed, what := none, what_iff := by simp [h] }

variable {D : Octets} {o : ℕ} {d : GIOPDecoder}

open GIOPDecoder in
/-- A report that is laid out is read. -/
theorem readReport_run {rep : Report} (h : Laid D o rep.bodyOpen)
    (hle : extent o rep.bodyOpen ≤ D.length) (hid : rep.exceptionId.length < 64)
    (hfits : rep.Fits) (hD : D.length < 2 ^ 63) :
    readReport (d.on D o native) = .ok rep (d.on D (extent o rep.bodyOpen) native) := by
  obtain ⟨exceptionId, minor, completed, what, hwhat⟩ := rep
  have hmono := le_extent (extent o (Cdr.stringOpen native exceptionId))
    (Cdr.ulong native minor ++ (Cdr.ulong native completed ++
      match what with
      | none => []
      | some what => Cdr.stringOpen native what))
  rw [Report.bodyOpen, extent_append] at hle
  obtain ⟨hlaidId, h⟩ := laid_append.1 h
  obtain ⟨hminor, h⟩ := laid_append.1 h
  obtain ⟨hcompleted, hlaid⟩ := laid_append.1 h
  have hreadId := read_on (d := d) (CDRDecoder.readString_open hlaidId
    (by dsimp only at hid ⊢; omega) (hmono.trans hle) hD)
  rw [readReport, readString, bind_ok hreadId, bind_ok (readUlong_on hminor (by omega)),
    ← Cdr.extent_ulong _ native minor, bind_ok (readUlong_on hcompleted (by omega)),
    ← Cdr.extent_ulong _ native completed, Report.bodyOpen, extent_append, extent_append,
    extent_append]
  cases what with
  | none =>
      have hne : exceptionId ≠ genericId := by simpa using hwhat
      rw [dif_neg hne]
      rfl
  | some what =>
      have heq : exceptionId = genericId := by simpa using hwhat
      rw [dif_pos heq]
      have hreadWhat := read_on (d := d) (CDRDecoder.readString_open hlaid (hfits what rfl)
        (by simpa only [extent_append] using hle) hD)
      exact bind_ok hreadWhat _

open GIOPDecoder in
/-- What a reader of the buffer has read, and where it has come to. -/
theorem read_sound {α : Type} {m : DecodeM α} {a : α} {d' : GIOPDecoder}
    (h : read m (d.on D o native) = .ok a d') :
    ∃ b, m ⟨D, o, some native⟩ = .ok a b ∧ d' = { d with buffer := b } := by
  simp only [GIOPDecoder.read] at h
  split at h
  · rename_i hrun
    cases h
    exact ⟨_, hrun, rfl⟩
  · cases h

open GIOPDecoder in
/-- A report that has been read is laid out. -/
theorem readReport_sound {rep : Report} {d' : GIOPDecoder}
    (h : readReport (d.on D o native) = .ok rep d') (ho : o ≤ D.length) (hD : D.length < 2 ^ 63) :
    Laid D o rep.bodyOpen ∧ extent o rep.bodyOpen ≤ D.length ∧ rep.Fits := by
  rw [readReport, bind_eq_ok] at h
  obtain ⟨exceptionId, d₁, hid, h⟩ := h
  obtain ⟨b₁, hid', rfl⟩ := read_sound hid
  obtain ⟨hlaidId, -, hleId, rfl⟩ := CDRDecoder.readString_sound hid' ho hD
  rw [bind_eq_ok] at h
  obtain ⟨minor, d₂, hminor, h⟩ := h
  obtain ⟨b₂, hminor', rfl⟩ := read_sound hminor
  obtain ⟨hlaidMinor, rfl⟩ := CDRDecoder.readUlong_sound hminor' hleId hD
  have hleMinor := (Cdr.laid_ulong_le hlaidMinor)
  rw [bind_eq_ok] at h
  obtain ⟨completed, d₃, hcompleted, h⟩ := h
  obtain ⟨b₃, hcompleted', rfl⟩ := read_sound hcompleted
  obtain ⟨hlaidCompleted, rfl⟩ := CDRDecoder.readUlong_sound hcompleted' hleMinor hD
  have hleCompleted := (Cdr.laid_ulong_le hlaidCompleted)
  rw [← Cdr.extent_ulong (extent o (Cdr.stringOpen native exceptionId)) native minor]
    at hlaidCompleted hleCompleted h
  rw [← Cdr.extent_ulong _ native completed] at hleCompleted h
  by_cases hgeneric : exceptionId = genericId
  · rw [dif_pos hgeneric, bind_eq_ok] at h
    obtain ⟨what, d₄, hwhat, h⟩ := h
    obtain ⟨b₄, hwhat', rfl⟩ := read_sound hwhat
    obtain ⟨hlaidWhat, hlt, hleWhat, rfl⟩ := CDRDecoder.readString_sound hwhat' hleCompleted hD
    cases h
    refine ⟨laid_append.2 ⟨hlaidId, laid_append.2 ⟨hlaidMinor, laid_append.2
      ⟨hlaidCompleted, hlaidWhat⟩⟩⟩, ?_, ?_⟩
    · rw [Report.bodyOpen, extent_append, extent_append, extent_append]
      exact hleWhat
    · rintro _ ⟨⟩
      exact hlt
  · rw [dif_neg hgeneric] at h
    cases h
    refine ⟨laid_append.2 ⟨hlaidId, laid_append.2 ⟨hlaidMinor, laid_append.2
      ⟨hlaidCompleted, laid_nil _ _⟩⟩⟩, ?_, ?_⟩
    · rw [Report.bodyOpen, extent_append, extent_append, extent_append]
      exact hleCompleted
    · rintro _ ⟨⟩

/-- **The caller reads a report exactly when it is laid out where it looks for it.** -/
theorem readReport_iff {rep : Report} (ho : o ≤ D.length) (hD : D.length < 2 ^ 63)
    (hid : rep.exceptionId.length < 64) :
    (∃ d', readReport (d.on D o native) = .ok rep d') ↔
      Laid D o rep.bodyOpen ∧ extent o rep.bodyOpen ≤ D.length ∧ rep.Fits := by
  constructor
  · rintro ⟨d', h⟩
    exact readReport_sound h ho hD
  · rintro ⟨hlaid, hle, hfits⟩
    exact ⟨_, readReport_run hlaid hle hid hfits hD⟩

end Reading

/-! ### The way of a report -/

section Crossing

variable [Platform]

/-- A request of GIOP 1.0, 1.1 or 1.2 that waits for an answer and reaches a servant. -/
structure Dispatched (servants : Servants) (connection : Connection) (message : Octets)
    (d₁ : GIOPDecoder) (request : RequestHeader) (d₂ : GIOPDecoder) (call : Dispatch) : Prop where
  size : message.length < 2 ^ 63
  head : GIOPDecoder.scanGIOPHeader { buffer := ⟨message, 0, none⟩, connection := connection } =
    .ok .request d₁
  header : GIOPDecoder.scanRequestHeader d₁ = .ok request d₂
  majorVersion : d₁.majorVersion = 1
  minorVersion : d₁.minorVersion ≤ 2
  responseExpected : request.responseExpected = true
  operation : ¬ request.operation.Endless
  not_is_a : request.operation.of message ≠ ascii "_is_a"
  servant : ∃ servant, servants (request.objectKey.of message) = some servant ∧
    servant.dispatch (request.operation.of message) d₂ = call

/-- The only answer to a message arrives at the caller, and is handed to the call that waits for
it. -/
def Crosses (servants : Servants) (connection : Connection) (message : Octets)
    (servants' : Servants) (caller : Connection) (requestId : UInt32) (d : GIOPDecoder) : Prop :=
  ∃ reply, (State (socketRcvd servants connection message)).events = [.send reply] ∧
    (State (socketRcvd servants' caller reply)).events = [.resume requestId d]

/-- The call throws this exception. -/
def Raises (servants : Servants) (connection : Connection) (message : Octets)
    (servants' : Servants) (caller : Connection) (requestId : UInt32) (ex : SystemException) :
    Prop :=
  ∃ d d', Crosses servants connection message servants' caller requestId d ∧
    twowayResult caller d = .error (.thrown (.systemException ex)) d'

/-- The call learns of a system exception, and reads this report of it. -/
def Reports (servants : Servants) (connection : Connection) (message : Octets)
    (servants' : Servants) (caller : Connection) (requestId : UInt32) (rep : Report) : Prop :=
  ∃ d d', Crosses servants connection message servants' caller requestId d ∧
    d.replyStatus = .systemException ∧ readReport d = .ok rep d'

theorem Crosses.unique {servants : Servants} {connection : Connection} {message : Octets}
    {servants' : Servants} {caller : Connection} {requestId : UInt32} {d d' : GIOPDecoder}
    (h : Crosses servants connection message servants' caller requestId d)
    (h' : Crosses servants connection message servants' caller requestId d') : d = d' := by
  obtain ⟨reply, hsend, hresume⟩ := h
  obtain ⟨reply', hsend', hresume'⟩ := h'
  rw [hsend] at hsend'
  cases hsend'
  rw [hresume] at hresume'
  cases hresume'
  rfl

variable {servants : Servants} {connection : Connection} {message : Octets}
  {d₁ d₂ : GIOPDecoder} {request : RequestHeader} {call : Dispatch}

theorem Dispatched.run (h : Dispatched servants connection message d₁ request d₂ call) :
    socketRcvd servants connection message =
      thenOrCatch request (replyRoom d₂) call ⟨d₂, []⟩ := by
  obtain ⟨servant, hservant, hcall⟩ := h.servant
  rw [socketRcvd_operation servants h.size h.head h.header h.operation, hservant]
  dsimp only
  rw [if_neg h.not_is_a, dispatch_run, hcall]

theorem Dispatched.speaks (h : Dispatched servants connection message d₁ request d₂ call) :
    d₂.majorVersion = 1 ∧ d₂.minorVersion ≤ 2 := by
  obtain ⟨-, ⟨hmajor, hminor⟩, -⟩ := socketRcvd_request servants h.size h.head h.header
  exact ⟨hmajor.trans h.majorVersion, hminor.trans_le h.minorVersion⟩

/-- A call that does not end in the coroutine before it is suspended is not answered. -/
theorem thenOrCatch_silent {e₀ e : GIOPEncoder} {t : Thrown} {r : Reception}
    (hrun : call.writing.run e₀ = .error (.thrown t) e) (hphase : call.phase ≠ .coroutine) :
    (State (thenOrCatch request e₀ call r)).events = r.events := by
  rw [thenOrCatch, hrun]
  cases hp : call.phase with
  | call => cases t <;> rfl
  | coroutine => exact absurd hp hphase
  | resumed => cases t <;> rfl

/-- What is reported is written behind what is there. -/
theorem onThrow_reported {e : GIOPEncoder} {t : Thrown} {rep : Report} {r : Reception}
    (hrep : reportOf t = some rep) (hexpected : request.responseExpected = true) :
    onThrow request e t r =
      sendReply request.requestId .systemException
        { e with buffer := e.buffer.put rep.body } r := by
  have hgeneric : ∀ typeName what : CString,
      (if request.responseExpected then do
          let e ← encode (do
            writeSystemException genericId 0 0
            GIOPEncoder.writeString (genericText typeName what)) e
          sendReply request.requestId .systemException e
        else pure ()) r =
      sendReply request.requestId .systemException
        { e with buffer := e.buffer.put (genericReport typeName what).body } r := by
    intro typeName what
    rw [if_pos hexpected, bind_ok (encode_ok (writeGeneric_run typeName what e) r)]
    rfl
  cases t with
  | systemException ex =>
      cases hrep
      simp only [onThrow, hexpected, if_true]
      rw [bind_ok (encode_ok (writeSystemException_run _ _ _ e) r)]
      rw [Report.body, systemExceptionReport, List.append_nil]
  | userException => cases hrep
  | other => cases hrep
  | outOfRange what =>
      cases hrep
      exact hgeneric _ _
  | lengthError what =>
      cases hrep
      exact hgeneric _ _
  | runtimeError what =>
      cases hrep
      exact hgeneric _ _
  | stdException typeName what =>
      cases hrep
      exact hgeneric _ _

/-- A reply is handed to the call that waits for it, with a decoder that stands at the body. -/
theorem socketRcvd_reply (servants : Servants) (connection : Connection) {minor : ℕ}
    {requestId : UInt32} {status : ReplyStatus} {reply : Octets}
    (h : IsReply 1 minor requestId status reply) (hminor : minor ≤ 2) (hmin : 24 ≤ reply.length)
    (hsize : reply.length < 2 ^ 63) :
    ∃ d : GIOPDecoder, socketRcvd servants connection reply =
        .ok () ⟨d, [.resume requestId d]⟩ ∧
      d.buffer = ⟨reply, 24, some native⟩ ∧ d.replyStatus = status := by
  obtain ⟨d₁, d₂, hscan, hscan', -, -, -, hbuffer, hstatus⟩ := GIOPDecoder.scanReply_run connection
    h.1 h.2 (by decide) (by omega) (by omega) (by omega)
  rw [Giop.extent_replyHeader] at hbuffer
  refine ⟨d₂, ?_, hbuffer, hstatus⟩
  rw [socketRcvd, if_neg (by omega), onMessage, bind_ok (scan_ok hscan)]
  dsimp only
  rw [onReply, bind_ok (scan_ok hscan'), get_bind, emit_run]
  rfl

theorem clean_length {e : GIOPEncoder} {rep : Report} (h : e.buffer.Clean) :
    (e.buffer.put rep.body).data.length = extent e.buffer.offset rep.body := by
  obtain ⟨xs, bs, hbs, hbody⟩ := rep.body_eq
  have hlaid := e.buffer.laid_put rep.body
  have hle := (h.put rep.body).length_le
  rw [hbody] at hlaid
  have hge := hlaid.extent_le hbs
  rw [← hbody] at hge
  exact le_antisymm hle hge

/-- What the caller is handed is the report behind what the servant has written. -/
theorem report_arrives (h : Dispatched servants connection message d₁ request d₂ call)
    {e : GIOPEncoder} {t : Thrown} {rep : Report}
    (hrun : call.writing.run (replyRoom d₂) = .error (.thrown t) e) (hrep : reportOf t = some rep)
    (hsize : extent e.buffer.offset rep.body < 2 ^ 63) (hphase : call.phase = .coroutine)
    (servants' : Servants) (caller : Connection) :
    ∃ (reply : Octets) (d : GIOPDecoder),
      Crosses servants connection message servants' caller request.requestId d ∧
      d.buffer = ⟨reply, 24, some native⟩ ∧ d.replyStatus = .systemException ∧
      reply.length = extent e.buffer.offset rep.body ∧
      Keep 24 reply.length (e.buffer.put rep.body).data reply ∧
      Keep 24 reply.length reply (e.buffer.put rep.body).data := by
  have hcontinues : (replyRoom d₂).Continues e := by
    have := call.writing.preserves_continues _ (replyRoom_continues d₂)
    rwa [hrun] at this
  obtain ⟨reply, hsend, hreply, hlength, hkeep⟩ :=
    sendReply_run (hcontinues.put rep.body) request.requestId .systemException ⟨d₂, []⟩
  obtain ⟨hmajor, hminor⟩ := h.speaks
  have hlen : reply.length = extent e.buffer.offset rep.body := hlength
  have hroom : 24 ≤ e.buffer.offset := hcontinues.le_offset
  have hmono := le_extent e.buffer.offset rep.body
  rw [hmajor] at hreply
  obtain ⟨d, hrcvd, hbuffer, hstatus⟩ :=
    socketRcvd_reply servants' caller hreply hminor (by omega) (by omega)
  have hkeep' : Keep 24 reply.length (e.buffer.put rep.body).data reply := by
    rw [hlen]
    exact hkeep
  refine ⟨reply, d, ⟨reply, ?_, ?_⟩, hbuffer, hstatus, hlen, hkeep', hkeep'.symm ?_⟩
  · rw [h.run, thenOrCatch, hrun, hphase]
    dsimp only
    rw [onThrow_reported hrep h.responseExpected, hsend]
    rfl
  · rw [hrcvd]
    rfl
  · rw [clean_length hcontinues.clean, hlen]

/-! ### Which exceptions cross -/

/-- What the caller makes of the report of a system exception. -/
theorem twowayResult_systemException {D : Octets} {o : ℕ} {e : Endian} {d : GIOPDecoder}
    (caller : Connection) (ex : SystemException) (hstatus : d.replyStatus = .systemException)
    (h : Laid D o (Cdr.string e ex.cls.repId ++
      (Cdr.ulong e ex.minor ++ Cdr.ulong e ex.completed.toUlong)))
    (hD : D.length < 2 ^ 64) :
    ∃ d', twowayResult caller (d.on D o e) = .error (.thrown
      (if ex.cls = .noResources then
        .runtimeError ("CORBA System Exception " ++ text ex.cls.repId ++ " from " ++
          connectionStr caller)
      else .systemException ex)) d' := by
  obtain ⟨hid, h⟩ := laid_append.1 h
  obtain ⟨hminor, hcompleted⟩ := laid_append.1 h
  rw [Cdr.extent_string] at hminor hcompleted
  rw [Cdr.extent_ulong] at hcompleted
  have hlen := repId_length ex.cls
  rw [twowayResult, get_bind, hstatus]
  dsimp only
  rw [bind_ok (GIOPDecoder.readString_on hid (by omega) hD),
    bind_ok (GIOPDecoder.readUlong_on hminor hD), bind_ok (GIOPDecoder.readUlong_on hcompleted hD),
    CompletionStatus.ofUlong_toUlong]
  dsimp only
  rw [systemExceptionOf_repId]
  by_cases hcls : ex.cls = .noResources
  · simp only [hcls, if_true]
    rw [if_neg (repId_ne_generic _)]
    exact ⟨_, rfl⟩
  · simp only [hcls, if_false]
    exact ⟨_, rfl⟩

/-- **A system exception a servant throws before it has written anything is thrown again by the
caller exactly when it is thrown in the coroutine, before that is suspended, and is not
`NO_RESOURCES`.** -/
theorem system_exception_crosses_iff
    (h : Dispatched servants connection message d₁ request d₂ call) (ex : SystemException)
    (hcall : call.writing = ⟨[], .throws (.systemException ex)⟩) (servants' : Servants)
    (caller : Connection) :
    Raises servants connection message servants' caller request.requestId ex ↔
      call.phase = .coroutine ∧ ex.cls ≠ .noResources := by
  have hrun : call.writing.run (replyRoom d₂) =
      .error (.thrown (.systemException ex)) (replyRoom d₂) := by
    rw [hcall]
    rfl
  by_cases hphase : call.phase = .coroutine
  · have hlen := repId_length ex.cls
    have hsize : extent 24 (systemExceptionReport ex).body < 2 ^ 63 := by
      have hround := roundUp_lt (show 0 < 4 by decide) (24 + 4 + (ex.cls.repId.length + 1))
      have hround' := roundUp_lt (show 0 < 4 by decide)
        (roundUp 4 (24 + 4 + (ex.cls.repId.length + 1)) + 4)
      rw [Report.body, systemExceptionReport, List.append_nil, systemExceptionBody, extent_append,
        extent_append, Cdr.extent_string, Cdr.extent_ulong, Cdr.extent_ulong,
        roundUp_eq_self (show 24 % 4 = 0 by decide)]
      dsimp only
      omega
    obtain ⟨reply, d, hcrosses, hbuffer, hstatus, hlength, hkeep, -⟩ :=
      report_arrives h (e := replyRoom d₂) hrun rfl hsize hphase servants' caller
    have hlaid : Laid reply 24 (systemExceptionReport ex).body :=
      ((replyRoom d₂).buffer.laid_put _).keep hkeep le_rfl hlength.ge
    rw [Report.body, systemExceptionReport, List.append_nil] at hlaid
    have hlt : reply.length < 2 ^ 64 := by
      have hlength' : reply.length = extent 24 (systemExceptionReport ex).body := hlength
      omega
    have hon : d.on reply 24 native = d := by rw [GIOPDecoder.on, ← hbuffer]
    obtain ⟨d', hresult⟩ := twowayResult_systemException (d := d) caller ex hstatus hlaid hlt
    rw [hon] at hresult
    constructor
    · rintro ⟨d'', d''', hcrosses', hresult'⟩
      refine ⟨hphase, fun hcls => ?_⟩
      rw [hcrosses'.unique hcrosses, hresult, if_pos hcls] at hresult'
      cases hresult'
    · rintro ⟨-, hcls⟩
      rw [if_neg hcls] at hresult
      exact ⟨d, d', hcrosses, hresult⟩
  · refine iff_of_false ?_ fun hcond => hphase hcond.1
    rintro ⟨d, d', ⟨reply, hsend, -⟩, -⟩
    rw [h.run, thenOrCatch_silent hrun hphase] at hsend
    cases hsend

omit [Platform]

/-! ### A servant that throws -/

/-- A servant that writes some values and throws a system exception. -/
def refuser (written : List Value) (ex : SystemException) : Servant where
  repositoryId := ascii "IDL:Adder:1.0"
  dispatch _ _ := { writing := ⟨written.map .value, .throws (.systemException ex)⟩ }

/-- The request for `add` reaches it. -/
theorem dispatched_refuser (written : List Value) (ex : SystemException) :
    @Dispatched ⟨.little⟩ (fun _ => some (refuser written ex)) addConnection (addRequest 3)
      (addDecoder 3 12) ⟨7, true, ⟨28, 1⟩, ⟨36, 3⟩⟩ (addDecoder 3 48)
      { writing := ⟨written.map .value, .throws (.systemException ex)⟩ } := by
  have hhead : @GIOPDecoder.scanGIOPHeader ⟨.little⟩
      { buffer := ⟨addRequest 3, 0, none⟩, connection := addConnection } =
      .ok .request (addDecoder 3 12) := by decide +kernel
  have hheader : @GIOPDecoder.scanRequestHeader ⟨.little⟩ (addDecoder 3 12) =
      .ok ⟨7, true, ⟨28, 1⟩, ⟨36, 3⟩⟩ (addDecoder 3 48) := by decide +kernel
  refine @Dispatched.mk ⟨.little⟩ _ _ _ _ _ _ _ (by decide) hhead hheader rfl le_rfl rfl ?_
    (by decide +kernel) ⟨_, rfl, rfl⟩
  rw [View.Endless]
  decide

/-- `UNKNOWN` is thrown again by the caller. -/
theorem system_exception_crosses_unknown :
    letI : Platform := ⟨.little⟩
    Raises (fun _ => some (refuser [] ⟨.unknown, 3, .maybe⟩)) addConnection (addRequest 3)
      (fun _ => none) addConnection 7 ⟨.unknown, 3, .maybe⟩ :=
  (@system_exception_crosses_iff ⟨.little⟩ _ _ _ _ _ _ _ (dispatched_refuser [] _) _ rfl _ _).mpr
    ⟨rfl, by decide⟩

/-- What is sent about `NO_RESOURCES`. -/
def noResourcesReply : Octets :=
  ascii "GIOP" ++ [1, 2, 1, 1, 60, 0, 0, 0, 7, 0, 0, 0, 2, 0, 0, 0, 0, 0, 0, 0, 35, 0, 0, 0] ++
    ascii "IDL:omg.org/CORBA/NO_RESOURCES:1.0" ++ [0, 0, 3, 0, 0, 0, 2, 0, 0, 0]

/-- The decoder the caller is handed, and what becomes of it. -/
def callerDecoder (reply : Octets) (offset : ℕ) : GIOPDecoder :=
  { buffer := ⟨reply, offset, some .little⟩
    connection := addConnection
    m_type := .reply
    m_length := reply.length - 12
    requestId := 7
    replyStatus := .systemException }

/-- `NO_RESOURCES` is not. -/
theorem system_exception_noResources_not_raised :
    letI : Platform := ⟨.little⟩
    ¬ ∀ (servants : Servants) (connection : Connection) (message : Octets) (d₁ d₂ : GIOPDecoder)
      (request : RequestHeader) (call : Dispatch) (ex : SystemException) (servants' : Servants)
      (caller : Connection),
      Dispatched servants connection message d₁ request d₂ call → call.phase = .coroutine →
      call.writing = ⟨[], .throws (.systemException ex)⟩ →
      Raises servants connection message servants' caller request.requestId ex := by
  intro h
  obtain ⟨d, d', ⟨reply, hsend, hresume⟩, hresult⟩ := h _ _ _ _ _ _ _ ⟨.noResources, 3, .maybe⟩
    (fun _ => none) addConnection (dispatched_refuser [] _) rfl rfl
  have hsent : (State (@socketRcvd ⟨.little⟩ (fun _ => some (refuser [] ⟨.noResources, 3, .maybe⟩))
      addConnection (addRequest 3))).events = [.send noResourcesReply] := by decide +kernel
  rw [hsent] at hsend
  cases hsend
  have hresumed : (State (@socketRcvd ⟨.little⟩ (fun _ => none) addConnection
      noResourcesReply)).events = [.resume 7 (callerDecoder noResourcesReply 24)] := by
    decide +kernel
  rw [hresumed] at hresume
  cases hresume
  have hid : @GIOPDecoder.readString ⟨.little⟩ (callerDecoder noResourcesReply 24) =
      .ok SystemExceptionClass.noResources.repId (callerDecoder noResourcesReply 63) := by
    decide +kernel
  have hminor : @GIOPDecoder.readUlong ⟨.little⟩ (callerDecoder noResourcesReply 63) =
      .ok 3 (callerDecoder noResourcesReply 68) := by decide +kernel
  have hcompleted : @GIOPDecoder.readUlong ⟨.little⟩ (callerDecoder noResourcesReply 68) =
      .ok 2 (callerDecoder noResourcesReply 72) := by decide +kernel
  have hstatus : (callerDecoder noResourcesReply 24).replyStatus = .systemException := rfl
  unfold twowayResult at hresult
  rw [get_bind, hstatus] at hresult
  dsimp only at hresult
  rw [bind_ok hid, bind_ok hminor, bind_ok hcompleted] at hresult
  rw [systemExceptionOf_repId, if_pos rfl] at hresult
  simp [CompletionStatus.ofUlong, repId_ne_generic] at hresult

end Crossing

end ORB

end Corba
