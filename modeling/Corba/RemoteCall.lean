/-
A remote call is a call.

The stub encodes the arguments, the skeleton at the other host reads them, calls the code of the
operation and writes its results, and the stub reads these.  Whatever both hosts are, the caller gets
what the code of the operation yields: its results, or what has become of the exception it throws.

Main definitions:

* `Corba.Reader.readAll` — values read one after the other;
* `Corba.Ending`, `Corba.Servant.Implements` — the code of an operation;
* `Corba.remoteCallOf`, `Corba.remoteCall` — a call, from the stub to the servant and back;
* `Corba.Thrown.crossed`, `Corba.Ending.seen` — what the caller gets.

Main results:

* `Corba.Reader.readAll_of_laid` — values that are laid out at another host are read;
* `Corba.ORB.request_values` — the message of a call;
* `Corba.ORB.sendReply_ending` — the message of its answer;
* `Corba.remoteCallOf_runs` — the answer arrives at the caller;
* `Corba.remote_call` — the caller gets what the code yields.
-/

import Corba.FloatOrder
import Corba.Hosts

set_option relaxedAutoImplicit false
set_option autoImplicit false

namespace Corba

open Layout ByteOrder Placed Exec

/-! ### Values from another host -/

section Values

variable [Platform]

/-- Values read one after the other. -/
def Reader.readAll : List Reader → DecodeM (List Value)
  | [] => return []
  | r :: rs => do
      let v ← r.read
      let vs ← readAll rs
      return v :: vs

/-- The readers match the values, which are the same in both byte orders unless there is only one. -/
def Value.Readable (e : Endian) (vs : List Value) (rs : List Reader) : Prop :=
  List.Forall₂ (fun v r => r ∈ v.readers ∧ (e = native ∨ v.Symmetric)) vs rs

theorem Reader.read_readable {D : Octets} {o : ℕ} {e : Endian} {v : Value} {r : Reader}
    (hr : r ∈ v.readers) (hsame : e = native ∨ v.Symmetric) (hv : v.Fits)
    (h : Laid D o (v.items e)) (hD : D.length < 2 ^ 63) :
    r.read ⟨D, o, some e⟩ = .ok v ⟨D, extent o (v.items e), some e⟩ := by
  by_cases he : e = native
  · subst he
    exact Reader.read_run hr hv h hD
  · rw [Reader.read_foreign he hr hv h hD, v.foreign_eq_iff.2 (hsame.resolve_left he)]
    rfl

/-- **Values that have been laid out at another host are read.** -/
theorem Reader.readAll_of_laid {D : Octets} {e : Endian} {vs : List Value} {rs : List Reader}
    (hread : Value.Readable e vs rs) (hD : D.length < 2 ^ 63) :
    ∀ {o : ℕ}, (∀ v ∈ vs, v.Fits) → Laid D o (Value.itemsAll e vs) →
      Reader.readAll rs ⟨D, o, some e⟩ =
        .ok vs ⟨D, extent o (Value.itemsAll e vs), some e⟩ := by
  induction hread with
  | nil =>
      intro o _ _
      rfl
  | @cons v r vs rs hvr _ ih =>
      intro o hfits h
      obtain ⟨hhead, htail⟩ := laid_append.1 h
      have hv := Reader.read_readable hvr.1 hvr.2 (hfits v (by simp)) hhead hD
      have hvs := ih (fun w hw => hfits w (by simp [hw])) htail
      rw [Reader.readAll, bind_ok hv, bind_ok hvs, pure_run, Value.itemsAll_cons, extent_append]

theorem WriteCall.runAll_values (vs : List Value) (e : GIOPEncoder) :
    WriteCall.runAll (vs.map .value) e =
      .ok () { e with buffer := e.buffer.put (Value.itemsAll native vs) } := by
  induction vs generalizing e with
  | nil => rfl
  | cons v vs ih =>
      have hv : (WriteCall.value v).run e =
          .ok () { e with buffer := e.buffer.put (v.items native) } := by
        rw [← CDREncoder.writeValue_eq]
        rfl
      rw [List.map_cons, WriteCall.runAll, bind_ok hv, ih, Value.itemsAll_cons,
        CDREncoder.put_append]

/-- User code that writes values and returns. -/
theorem Writing.run_values (vs : List Value) (e : GIOPEncoder) :
    Writing.run ⟨vs.map .value, .returns⟩ e =
      .ok () { e with buffer := e.buffer.put (Value.itemsAll native vs) } := by
  rw [Writing.run, bind_ok (WriteCall.runAll_values vs e)]
  rfl

end Values

/-! ### The message of a call -/

namespace ORB

variable [Platform]

/-- **The message of a call**: its request, and the arguments behind it. -/
theorem request_values (name : String) (responseExpected : Bool) (objectKey : Octets)
    (operation : CString) (vs : List Value) (connection : Connection) (requestId : UInt32)
    (sent : List Octets) :
    let request := Giop.request native false (some connection) objectKey operation requestId
      responseExpected
    ∃ message, ORB.request name responseExpected objectKey operation ⟨vs.map .value, .returns⟩
        ⟨some connection, requestId, sent⟩ =
          .ok requestId ⟨Giop.announced (some connection), requestId + 2, sent ++ [message]⟩ ∧
      Encodes connection requestId responseExpected objectKey operation message ∧
      Laid message (extent 12 request) (Value.itemsAll native vs) ∧
      extent 12 (request ++ Value.itemsAll native vs) = message.length := by
  intro request
  let args := Value.itemsAll native vs
  obtain ⟨b, hrun, hwrote⟩ := GIOPEncoder.encodeRequest_run { connection := some connection }
    objectKey operation requestId responseExpected
  obtain ⟨v, xs, hbegin⟩ : ∃ v xs, request = Cdr.ulong native v ++ xs :=
    Giop.request_ulong _ _ _ _ _ _ _
  have hwrote' : CDREncoder.Wrote request { offset := 10 } b := hwrote
  have hall : CDREncoder.Wrote (Cdr.ulong native v ++ (xs ++ args)) { offset := 10 }
      (b.put args) := by
    rw [← List.append_assoc, ← hbegin]
    exact CDREncoder.Wrote.trans hwrote' (CDREncoder.Wrote.put args b)
  obtain ⟨D, hset, -, hmin, hhead, hbody, hend⟩ := GIOPEncoder.message_of_wrote
    (e := { connection := Giop.announced (some connection) }) .request hall
  rw [← List.append_assoc, ← hbegin] at hbody hend
  obtain ⟨hrequest, hvalues⟩ := laid_append.1 hbody
  have hle : extent 12 request ≤ D.length := by
    rw [← hend, extent_append]
    exact le_extent _ _
  refine ⟨D, ?_, ⟨hhead, hrequest, hle, hmin⟩, hvalues, hend⟩
  -- the three parts of the encoding, one after the other
  have hencode : encodeCall (do
      GIOPEncoder.encodeRequest objectKey operation requestId responseExpected
      Writing.run ⟨vs.map .value, .returns⟩
      GIOPEncoder.setGIOPHeader .request) ⟨some connection, requestId + 2, sent⟩ =
      .ok D ⟨Giop.announced (some connection), requestId + 2, sent⟩ := by
    have hrest : (do
        Writing.run ⟨vs.map .value, .returns⟩
        GIOPEncoder.setGIOPHeader .request)
        { connection := Giop.announced (some connection), buffer := b } = _ :=
      (bind_ok (Writing.run_values vs _) fun _ => GIOPEncoder.setGIOPHeader .request).trans hset
    rw [encodeCall, (bind_ok hrun _).trans hrest]
  rw [ORB.request, get_bind, if_neg (by simp)]
  dsimp only
  rw [modify_bind, bind_ok hencode, modify_bind, pure_run]

end ORB

/-! ### The code of an operation -/

/-- What the code of an operation makes of its arguments. -/
inductive Ending where
  | returns (results : List Value)
  | throws (t : Thrown)
  deriving DecidableEq

namespace Ending

/-- The skeleton writes the results.  What is thrown goes through it. -/
def dispatch : Ending → Dispatch
  | returns results => { writing := ⟨results.map .value, .returns⟩ }
  | throws t => { writing := ⟨[], .throws t⟩ }

/-- The status of the reply. -/
def status : Ending → ReplyStatus
  | returns _ => .noException
  | throws .userException => .userException
  | throws _ => .systemException

/-- The body of the reply. -/
def body [Platform] : Ending → Cdr.Items
  | returns results => Value.itemsAll native results
  | throws t => ((ORB.reportOf t).map ORB.Report.body).getD []

end Ending

/-- The skeleton of the operation reads the arguments with these readers, and calls this code. -/
def Servant.Implements [Platform] (servant : Servant) (operation : Octets) (readers : List Reader)
    (code : List Value → Ending) : Prop :=
  ∀ (d d' : GIOPDecoder) (args : List Value),
    GIOPDecoder.read (Reader.readAll readers) d = .ok args d' →
      servant.dispatch operation d = (code args).dispatch

/-- What the ORB itself makes of `_is_a`. -/
def isACode (repositoryId : Octets) : List Value → Ending
  | [.string id] => .returns [.boolean (id == repositoryId)]
  | _ => .throws .other

/-- What the ORB itself makes of a call of an object that is not there. -/
def notExistCode (_ : List Value) : Ending :=
  .throws (.systemException ⟨.objectNotExist, 0x4f4d0001, .no⟩)

/-- The code that is run for an operation of an object. -/
inductive Runs [Platform] (servants : Servants) (objectKey operation : Octets) :
    List Reader → (List Value → Ending) → Prop where
  | servant {servant : Servant} {readers : List Reader} {code : List Value → Ending} :
      servants objectKey = some servant → operation ≠ ascii "_is_a" →
      servant.Implements operation readers code → Runs servants objectKey operation readers code
  | is_a {servant : Servant} :
      servants objectKey = some servant → operation = ascii "_is_a" →
      Runs servants objectKey operation [.stringView] (isACode servant.repositoryId)
  | none (readers : List Reader) :
      servants objectKey = none → Runs servants objectKey operation readers notExistCode

namespace ORB

section Ending

variable [Platform] {request : RequestHeader} {d : GIOPDecoder}

/-- Whatever the code of an operation yields becomes the body of a reply, unless it throws what is
not caught. -/
theorem thenOrCatch_dispatch (hexpected : request.responseExpected = true) (ending : Ending)
    (hcaught : ending ≠ .throws .other) (r : Reception) :
    thenOrCatch request (replyRoom d) ending.dispatch r =
      sendReply request.requestId ending.status
        { replyRoom d with buffer := (replyRoom d).buffer.put ending.body } r := by
  cases ending with
  | returns results =>
      rw [thenOrCatch, Ending.dispatch, Writing.run_values]
      simp only [onReturn, hexpected, if_true]
      rfl
  | throws t =>
      have hrun : (Ending.throws t).dispatch.writing.run (replyRoom d) =
          .error (.thrown t) (replyRoom d) := rfl
      rw [thenOrCatch, hrun]
      cases t with
      | userException =>
          simp only [Ending.dispatch, onThrow, hexpected, if_true]
          rfl
      | other => exact absurd rfl hcaught
      | systemException _ | outOfRange _ | lengthError _ | runtimeError _ | stdException _ _ =>
          exact onThrow_reported rfl hexpected

/-- **The message of an answer.** -/
theorem sendReply_ending (hd : d.Speaks 1 2) (ending : Ending) (requestId : UInt32)
    (r : Reception) :
    ∃ message, sendReply requestId ending.status
        { replyRoom d with buffer := (replyRoom d).buffer.put ending.body } r =
          .ok () { r with events := r.events ++ [.send message] } ∧
      IsReply 1 2 requestId ending.status message ∧
      message.length = extent 24 ending.body ∧ Laid message 24 ending.body := by
  obtain ⟨message, hsend, hreply, hlength, hkeep⟩ :=
    sendReply_run ((replyRoom_continues d).put ending.body) requestId ending.status r
  rw [hd.1, hd.2] at hreply
  refine ⟨message, hsend, hreply, hlength, ?_⟩
  exact ((replyRoom d).buffer.laid_put ending.body).keep hkeep le_rfl le_rfl

variable {servants : Servants} {objectKey operation : Octets} {readers : List Reader}
  {code : List Value → Ending} {D : Octets} {o : ℕ} {e : Endian} {args : List Value}

theorem read_args (hbuffer : d.buffer = ⟨D, o, some e⟩) (hread : Value.Readable e args readers)
    (hD : D.length < 2 ^ 63) (hfits : ∀ v ∈ args, v.Fits) (h : Laid D o (Value.itemsAll e args)) :
    GIOPDecoder.read (Reader.readAll readers) d =
      .ok args (d.on D (extent o (Value.itemsAll e args)) e) := by
  have hall := Reader.readAll_of_laid hread hD hfits h
  rw [← hbuffer] at hall
  exact GIOPDecoder.read_ok hall

/-- **The code that is run gets the arguments that have been laid out**, and what it yields is
answered. -/
theorem handle_runs (hruns : Runs servants objectKey operation readers code)
    (hexpected : request.responseExpected = true) (hd : d.Speaks 1 2)
    (hbuffer : d.buffer = ⟨D, o, some e⟩) (hread : Value.Readable e args readers)
    (hD : D.length < 2 ^ 63) (hfits : ∀ v ∈ args, v.Fits)
    (h : Laid D o (Value.itemsAll e args)) (hcaught : code args ≠ .throws .other) :
    ∃ d₁ : GIOPDecoder, d₁.Speaks 1 2 ∧
      handle servants request objectKey operation ⟨d, []⟩ =
        sendReply request.requestId (code args).status
          { replyRoom d₁ with buffer := (replyRoom d₁).buffer.put (code args).body } ⟨d₁, []⟩ := by
  cases hruns with
  | servant hservant hop himplements =>
      refine ⟨d, hd, ?_⟩
      rw [handle_servant hservant hop, dispatch_run,
        himplements d _ args (read_args hbuffer hread hD hfits h)]
      exact thenOrCatch_dispatch hexpected _ hcaught _
  | @is_a servant hservant hop =>
      -- there is one argument, which is a string
      obtain ⟨id, rfl⟩ : ∃ id, args = [.string id] := by
        cases hread with
        | cons hv hnil =>
            cases hnil
            rename_i v
            cases v <;> simp [Value.readers] at hv
            exact ⟨_, rfl⟩
      have hid : Laid D o (Cdr.string e id) := (laid_append.1 h).1
      have hlen : id.length < 2 ^ 32 - 1 := hfits (.string id) (by simp)
      have hview := GIOPDecoder.readStringView_on (d := d) hid (by omega) (by omega)
      have hon : d.on D o e = d := by rw [GIOPDecoder.on, ← hbuffer]
      rw [hon] at hview
      have hoctets := GIOPDecoder.octets_on (d := d) (o := roundUp 4 o + 4 + (id.length + 1))
        (e := e) (GIOPDecoder.at_string hid)
      refine ⟨d.on D (roundUp 4 o + 4 + (id.length + 1)) e, hd, ?_⟩
      rw [handle, hservant]
      dsimp only
      rw [if_pos hop, is_a, bind_ok (scan_ok hview), get_bind,
        bind_ok (encode_ok (skipReplyHeader_run _) _), bind_ok (scan_ok hoctets),
        bind_ok (encode_ok (writeBoolean_run _ _) _)]
      rfl
  | none _ hnone =>
      refine ⟨d, hd, ?_⟩
      rw [handle, hnone]
      dsimp only
      rw [noServant, if_pos hexpected, get_bind, bind_ok (encode_ok (writeNotExist_run d) _)]
      rfl

/-- What is not caught is not answered. -/
theorem handle_uncaught (hruns : Runs servants objectKey operation readers code)
    (hbuffer : d.buffer = ⟨D, o, some e⟩) (hread : Value.Readable e args readers)
    (hD : D.length < 2 ^ 63) (hfits : ∀ v ∈ args, v.Fits)
    (h : Laid D o (Value.itemsAll e args)) (hother : code args = .throws .other) :
    (State (handle servants request objectKey operation ⟨d, []⟩)).events = [] := by
  cases hruns with
  | servant hservant hop himplements =>
      rw [handle_servant hservant hop, dispatch_run,
        himplements d _ args (read_args hbuffer hread hD hfits h), hother]
      rfl
  | is_a hservant hop =>
      cases hread with
      | cons hv hnil =>
          cases hnil
          rename_i v
          cases v <;> simp [Value.readers] at hv
          cases hother
  | none _ hnone => cases hother

end Ending

end ORB

/-! ### What the caller gets -/

/-- What is thrown at the caller when the code of an operation has thrown. -/
def Thrown.crossed (connection : Connection) : Thrown → Option Thrown
  | .userException => some .userException
  | .systemException ex =>
      some (if ex.cls = .noResources then
        .runtimeError ("CORBA System Exception " ++ text ex.cls.repId ++ " from " ++
          ORB.connectionStr connection)
      else .systemException ex)
  | t => t.describe.map fun p => .runtimeError ("Remote CORBA exception from " ++
      ORB.connectionStr connection ++ ": " ++ text (genericText p.1 p.2))

/-- What the caller gets of what the code yields.  It waits forever when nothing comes back. -/
def Ending.seen (connection : Connection) : Ending → Option (Except Fault (List Value))
  | .returns results => some (.ok results)
  | .throws t => (t.crossed connection).map fun t => .error (.thrown t)

/-- What a stub makes of a reply: the end of `_twowayCall`, and what it reads itself. -/
def stubResult [Platform] {α : Type} (connection : Connection) (read : ScanM α) : ScanM α := do
  ORB.twowayResult connection
  read

/-- The readers of a stub. -/
def Reader.scanAll [Platform] (readers : List Reader) : ScanM (List Value) :=
  GIOPDecoder.read (Reader.readAll readers)

section Result

variable [Platform] {D : Octets} {o : ℕ} {e : Endian} {d : GIOPDecoder}

/-- What the caller makes of the report of any other exception. -/
theorem ORB.twowayResult_generic (caller : Connection) (typeName what : CString)
    (hstatus : d.replyStatus = .systemException)
    (h : Laid D o ((Cdr.string e genericId ++ (Cdr.ulong e 0 ++ Cdr.ulong e 0)) ++
      Cdr.string e (genericText typeName what)))
    (hlen : (genericText typeName what).length + 1 < 2 ^ 32) (hD : D.length < 2 ^ 64) :
    ∃ d', twowayResult caller (d.on D o e) = .error (.thrown (.runtimeError
      ("Remote CORBA exception from " ++ connectionStr caller ++ ": " ++
        text (genericText typeName what)))) d' := by
  have hgeneric := genericId_length
  simp only [laid_append, extent_append, Cdr.extent_string, Cdr.extent_ulong] at h
  obtain ⟨⟨hid, hminor, hcompleted⟩, hwhat⟩ := h
  have hnone : systemExceptionOf genericId = none := by
    rw [systemExceptionOf, systemExceptions_eq, List.find?_map, Option.map_map,
      Option.map_eq_none_iff, List.find?_eq_none]
    intro c _ hc
    exact repId_ne_generic c (eq_of_beq hc)
  rw [twowayResult, get_bind, hstatus]
  dsimp only
  rw [bind_ok (GIOPDecoder.readString_on hid (by omega) hD),
    bind_ok (GIOPDecoder.readUlong_on hminor hD), bind_ok (GIOPDecoder.readUlong_on hcompleted hD)]
  have hzero : CompletionStatus.ofUlong 0 = some .yes := rfl
  rw [hzero]
  dsimp only
  rw [hnone]
  dsimp only
  rw [if_pos rfl]
  exact ⟨_, by rw [bind_ok (GIOPDecoder.readString_on hwhat hlen hD)]; rfl⟩

/-- How a program ends. -/
def resultOf {σ α : Type} : EStateM.Result Fault σ α → Except Fault α
  | .ok a _ => .ok a
  | .error f _ => .error f

theorem stubResult_ok {α : Type} (caller : Connection) (read : ScanM α)
    (hstatus : d.replyStatus = .noException) : stubResult caller read d = read d := by
  have hresult : ORB.twowayResult caller d = .ok () d := by
    rw [ORB.twowayResult, get_bind, hstatus]
    rfl
  rw [stubResult, bind_ok hresult]

/-- **What the stub makes of an exception that has arrived from another host.** -/
theorem stubResult_throws {α : Type} {sender : Host} {t : Thrown} (caller : Connection)
    (read : ScanM α) (hcaught : t ≠ .other)
    (hbuffer : d.buffer = ⟨D, 24, some sender.platform.native⟩)
    (hstatus : d.replyStatus = (Ending.throws t).status)
    (h : Laid D 24 (@Ending.body sender.platform (.throws t)))
    (hlength : D.length = extent 24 (@Ending.body sender.platform (.throws t)))
    (hD : D.length < 2 ^ 32) :
    some (resultOf (stubResult caller read d)) =
      (t.crossed caller).map fun t => .error (.thrown t) := by
  have hon : d.on D 24 sender.platform.native = d := by rw [GIOPDecoder.on, ← hbuffer]
  have hthrown : ∀ (t : Thrown) (d' : GIOPDecoder),
      ORB.twowayResult caller d = .error (.thrown t) d' →
      resultOf (stubResult caller read d) = .error (.thrown t) := by
    intro t d' hrun
    rw [stubResult, bind_error hrun]
    rfl
  cases t with
  | other => exact absurd rfl hcaught
  | userException =>
      have hresult : ORB.twowayResult caller d = .error (.thrown .userException) d := by
        rw [ORB.twowayResult, get_bind, hstatus]
        rfl
      rw [hthrown _ _ hresult]
      rfl
  | systemException ex =>
      have hlaid : Laid D 24 (Cdr.string sender.platform.native ex.cls.repId ++
          (Cdr.ulong sender.platform.native ex.minor ++
            Cdr.ulong sender.platform.native ex.completed.toUlong)) := by
        have hbody : @Ending.body sender.platform (.throws (.systemException ex)) =
            (Cdr.string sender.platform.native ex.cls.repId ++
              (Cdr.ulong sender.platform.native ex.minor ++
                Cdr.ulong sender.platform.native ex.completed.toUlong)) ++ [] := rfl
        rwa [hbody, List.append_nil] at h
      obtain ⟨d', hresult⟩ := ORB.twowayResult_systemException (d := d) caller ex hstatus hlaid
        (by omega)
      rw [hon] at hresult
      rw [hthrown _ _ hresult]
      rfl
  | outOfRange _ | lengthError _ | runtimeError _ | stdException _ _ =>
      -- a text that does not fit would not leave room for the message
      have hlen := hlength ▸ hD
      rw [show @Ending.body sender.platform _ = (Cdr.string sender.platform.native genericId ++
        (Cdr.ulong sender.platform.native 0 ++ Cdr.ulong sender.platform.native 0)) ++
          Cdr.string sender.platform.native _ from rfl, extent_append, Cdr.extent_string] at hlen
      obtain ⟨d', hresult⟩ := ORB.twowayResult_generic (d := d) caller _ _ hstatus h (by omega)
        (by omega)
      rw [hon] at hresult
      rw [hthrown _ _ hresult]
      rfl

/-- **What the stub makes of an answer that has arrived from another host.** -/
theorem stubResult_ending {sender : Host} {ending : Ending} {readers : List Reader}
    (caller : Connection) (hcaught : ending ≠ .throws .other)
    (hbuffer : d.buffer = ⟨D, 24, some sender.platform.native⟩)
    (hstatus : d.replyStatus = ending.status)
    (h : Laid D 24 (@Ending.body sender.platform ending))
    (hlength : D.length = extent 24 (@Ending.body sender.platform ending))
    (hD : D.length < 2 ^ 32)
    (hread : ∀ results, ending = .returns results →
      Value.Readable sender.platform.native results readers) :
    some (resultOf (stubResult caller (Reader.scanAll readers) d)) = ending.seen caller := by
  cases ending with
  | returns results =>
      have hfits : ∀ v ∈ results, v.Fits :=
        Value.fits_of_extent_all_lt (e := sender.platform.native) (o := 24) (hlength ▸ hD)
      rw [stubResult_ok caller _ hstatus, Reader.scanAll,
        ORB.read_args hbuffer (hread results rfl) (by omega) hfits h]
      rfl
  | throws t =>
      refine stubResult_throws caller _ ?_ hbuffer hstatus h hlength hD
      rintro rfl
      exact hcaught rfl

end Result

/-! ### The whole call -/

/-- `ORB::_twowayCall` up to its suspension at this host. -/
def Host._twowayCall (h : Host) (connection : Connection) (requestId : UInt32)
    (objectKey : Octets) (operation : CString) (arguments : Writing) :
    EStateM.Result Fault ORB.Caller UInt32 :=
  @ORB._twowayCall h.platform objectKey operation arguments ⟨some connection, requestId, []⟩

/-- What a call that waits gets from a message that arrives at this host.  It waits on when the message
is not the reply to its request. -/
def Host.resumed {α : Type} (h : Host) (connection : Connection) (requestId : UInt32)
    (read : ScanM α) (message : Octets) : Option (Except Fault α) :=
  match (h.socketRcvd connection message).events with
  | [.resume id d] =>
      if id = requestId then
        some (resultOf (@stubResult h.platform α (d.connection.getD connection) read d))
      else none
  | _ => none

/-- A call from end to end: the request is sent, it is handled at the far host, its reply resumes
the call, and the stub reads the results.  Without a reply, the call waits forever. -/
def remoteCallOf {α : Type} (near far : Host) (connection accepted : Connection)
    (requestId : UInt32) (objectKey : Octets) (operation : CString) (arguments : Writing)
    (read : ScanM α) : Option (Except Fault α) :=
  match near._twowayCall connection requestId objectKey operation arguments with
  | .error f _ => some (.error f)
  | .ok id caller =>
      match (far.socketRcvd accepted caller.sent.flatten).events with
      | [.send reply] => near.resumed (caller.connection.getD connection) id read reply
      | _ => none

/-- The same with values, which are written and read one after the other. -/
def remoteCall (near far : Host) (connection accepted : Connection) (requestId : UInt32)
    (objectKey : Octets) (operation : CString) (args : List Value) (readers : List Reader) :
    Option (Except Fault (List Value)) :=
  remoteCallOf near far connection accepted requestId objectKey operation
    ⟨args.map .value, .returns⟩ (@Reader.scanAll near.platform readers)

/-- **A reply that arrives resumes the call**, and the stub reads what stands in it. -/
theorem Host.resumed_isReply {α : Type} (near far : Host) (connection : Connection)
    {requestId : UInt32} {status : ReplyStatus} {reply : Octets}
    (h : @ORB.IsReply far.platform 1 2 requestId status reply) (hmin : 24 ≤ reply.length)
    (hsize : reply.length < 2 ^ 64) (read : ScanM α) :
    ∃ d : GIOPDecoder, d.buffer = ⟨reply, 24, some far.platform.native⟩ ∧ d.replyStatus = status ∧
      near.resumed connection requestId read reply =
        some (resultOf (@stubResult near.platform α connection read d)) := by
  obtain ⟨d, -, hresume, hbuffer, hstatus, hconnection⟩ := @ORB.socketRcvd_isReply near.platform
    far _ _ _ _ h le_rfl hmin hsize near.servants connection
  refine ⟨d, hbuffer, hstatus, ?_⟩
  have hevents : (near.socketRcvd connection reply).events = [.resume requestId d] := by
    rw [Host.socketRcvd]
    exact congrArg (fun r => (State r).events) hresume
  rw [Host.resumed, hevents]
  dsimp only
  rw [if_pos rfl, hconnection]
  rfl

/-- **A call up to the point at which the far host handles it.** -/
theorem remoteCallOf_values {α : Type} (near far : Host) (connection accepted : Connection)
    (requestId : UInt32) (objectKey : Octets) (operation : CString) (args : List Value)
    (read : ScanM α)
    (hrequest : extent 12 (Giop.request near.platform.native false (some connection) objectKey
      operation requestId true ++ Value.itemsAll near.platform.native args) < 2 ^ 32) :
    ∃ (request : RequestHeader) (d : GIOPDecoder) (message : Octets) (o : ℕ),
      request.requestId = requestId ∧ request.responseExpected = true ∧ d.Speaks 1 2 ∧
      d.From accepted ∧ d.buffer = ⟨message, o, some near.platform.native⟩ ∧
      message.length < 2 ^ 32 ∧
      Laid message o (Value.itemsAll near.platform.native args) ∧
      remoteCallOf near far connection accepted requestId objectKey operation
          ⟨args.map .value, .returns⟩ read =
        match (State (@ORB.handle far.platform far.servants request objectKey operation
          ⟨d, []⟩)).events with
        | [.send reply] =>
            near.resumed { connection with didSendBiDirIIOP := true } requestId read reply
        | _ => none := by
  obtain ⟨message, hcall, hencodes, hlaid, hend⟩ := @ORB.request_values near.platform "_twowayCall"
    true objectKey operation args connection requestId []
  have hsize : message.length < 2 ^ 32 := hend ▸ hrequest
  obtain ⟨request, d, hid, hexpected, hspeaks, hfrom, hbuffer, hrcvd⟩ := @ORB.socketRcvd_encodes
    far.platform near _ _ _ _ _ _ hencodes hsize far.servants accepted
  refine ⟨request, d, message, _, hid, hexpected, hspeaks, hfrom, hbuffer, hsize, hlaid, ?_⟩
  have hevents : (far.socketRcvd accepted message).events = (State (@ORB.handle far.platform
      far.servants request objectKey operation ⟨d, []⟩)).events := by
    rw [Host.socketRcvd, hrcvd]
  have hflat : ([] ++ [message] : List Octets).flatten = message := by simp
  have hcalled : near._twowayCall connection requestId objectKey operation
      ⟨args.map .value, .returns⟩ = _ := hcall
  rw [remoteCallOf, hcalled]
  dsimp only
  rw [hflat, hevents]
  rfl

/-- **What the code of the operation yields comes back to the caller** in a reply. -/
theorem remoteCallOf_runs {α : Type} (near far : Host) (connection accepted : Connection)
    (requestId : UInt32) (objectKey : Octets) (operation : CString) (args : List Value)
    (argReaders : List Reader) (code : List Value → Ending) (read : ScanM α)
    (hruns : @Runs far.platform far.servants objectKey operation argReaders code)
    (hargs : @Value.Readable far.platform near.platform.native args argReaders)
    (hcaught : code args ≠ .throws .other)
    (hrequest : extent 12 (Giop.request near.platform.native false (some connection) objectKey
      operation requestId true ++ Value.itemsAll near.platform.native args) < 2 ^ 32)
    (hreply : extent 24 (@Ending.body far.platform (code args)) < 2 ^ 32) :
    ∃ (reply : Octets) (d : GIOPDecoder), d.buffer = ⟨reply, 24, some far.platform.native⟩ ∧
      d.replyStatus = (code args).status ∧ Laid reply 24 (@Ending.body far.platform (code args)) ∧
      reply.length = extent 24 (@Ending.body far.platform (code args)) ∧
      remoteCallOf near far connection accepted requestId objectKey operation
          ⟨args.map .value, .returns⟩ read =
        some (resultOf (@stubResult near.platform α { connection with didSendBiDirIIOP := true }
          read d)) := by
  have hfits : ∀ v ∈ args, v.Fits := by
    rw [extent_append] at hrequest
    exact Value.fits_of_extent_all_lt hrequest
  obtain ⟨request, d, message, o, hid, hexpected, hspeaks, -, hbuffer, hsize, hlaid, hcall⟩ :=
    remoteCallOf_values near far connection accepted requestId objectKey operation args read hrequest
  obtain ⟨d₁, hspeaks₁, hhandle⟩ := @ORB.handle_runs far.platform _ _ _ _ _ _ _ _ _ _ _ hruns
    hexpected hspeaks hbuffer hargs (by omega) hfits hlaid hcaught
  obtain ⟨reply, hsend, hisReply, hlength, hbody⟩ := @ORB.sendReply_ending far.platform d₁ hspeaks₁
    (code args) request.requestId ⟨d₁, []⟩
  have hroom := le_extent 24 (@Ending.body far.platform (code args))
  rw [hid] at hisReply
  obtain ⟨d₂, hbuffer₂, hstatus, hresumed⟩ := near.resumed_isReply far
    { connection with didSendBiDirIIOP := true } hisReply (by omega) (by omega) read
  refine ⟨reply, d₂, hbuffer₂, hstatus, hbody, hlength, ?_⟩
  rw [hcall, hhandle, hsend, State_ok]
  exact hresumed

/-- **A remote call is a call**: the caller gets what the code of the operation yields for its
arguments, and waits forever only when the code throws what is not caught.  The byte orders of both
hosts can be any, if no floats and doubles are passed between different ones. -/
theorem remote_call (near far : Host) (connection accepted : Connection) (requestId : UInt32)
    (objectKey : Octets) (operation : CString) (args : List Value)
    (argReaders readers : List Reader) (code : List Value → Ending)
    (hruns : @Runs far.platform far.servants objectKey operation argReaders code)
    (hargs : @Value.Readable far.platform near.platform.native args argReaders)
    (hresults : ∀ results, code args = .returns results →
      @Value.Readable near.platform far.platform.native results readers)
    (hrequest : extent 12 (Giop.request near.platform.native false (some connection) objectKey
      operation requestId true ++ Value.itemsAll near.platform.native args) < 2 ^ 32)
    (hreply : extent 24 (@Ending.body far.platform (code args)) < 2 ^ 32) :
    remoteCall near far connection accepted requestId objectKey operation args readers =
      (code args).seen connection := by
  by_cases hcaught : code args = .throws .other
  · obtain ⟨request, d, message, o, hid, hexpected, hspeaks, -, hbuffer, hsize, hlaid, hcall⟩ :=
      remoteCallOf_values near far connection accepted requestId objectKey operation args
        (@Reader.scanAll near.platform readers) hrequest
    rw [extent_append] at hrequest
    rw [remoteCall, hcall, @ORB.handle_uncaught far.platform _ _ _ _ _ _ _ _ _ _ _ hruns hbuffer hargs
      (by omega) (Value.fits_of_extent_all_lt hrequest) hlaid hcaught, hcaught]
    rfl
  · obtain ⟨reply, d, hbuffer, hstatus, hbody, hlength, hcall⟩ := remoteCallOf_runs near far
      connection accepted requestId objectKey operation args argReaders code
      (@Reader.scanAll near.platform readers) hruns hargs hcaught hrequest hreply
    rw [remoteCall, hcall]
    exact @stubResult_ending near.platform reply d far (code args) readers _ hcaught hbuffer hstatus
      hbody hlength (by omega) hresults

/-- The code of an operation that adds two numbers. -/
def addCode : List Value → Ending
  | [.ulong a, .ulong b] => .returns [.ulong (a + b)]
  | _ => .throws (.systemException ⟨.badParam, 0, .no⟩)

/-- A servant with this operation. -/
def adder [Platform] : Servant where
  repositoryId := ascii "IDL:Adder:1.0"
  dispatch _ d :=
    match GIOPDecoder.read (Reader.readAll [.ulong, .ulong]) d with
    | .ok args _ => (addCode args).dispatch
    | .error _ _ => (Ending.throws .other).dispatch

theorem adder_implements [Platform] (operation : Octets) :
    adder.Implements operation [.ulong, .ulong] addCode := by
  intro d d' args hrun
  rw [adder]
  dsimp only
  rw [hrun]

/-- From a little endian host to a big endian one. -/
theorem remote_call_add :
    remoteCall ⟨⟨.little⟩, fun _ => none⟩ ⟨⟨.big⟩, fun _ => some (@adder ⟨.big⟩)⟩
        ORB.addConnection ORB.addConnection 4 (ascii "A") (cString (ascii "add"))
        [.ulong 258, .ulong 3] [.ulong] =
      some (.ok [.ulong 261]) := by
  refine remote_call ⟨⟨.little⟩, fun _ => none⟩ ⟨⟨.big⟩, fun _ => some (@adder ⟨.big⟩)⟩ _ _ _ _ _ _
    [.ulong, .ulong] _ addCode
    (@Runs.servant ⟨.big⟩ _ _ _ _ _ _ rfl (by decide) (@adder_implements ⟨.big⟩ _)) ?_ ?_
    (by decide +kernel) (by decide +kernel)
  · exact .cons ⟨by decide, .inr trivial⟩ (.cons ⟨by decide, .inr trivial⟩ .nil)
  · rintro _ ⟨⟩
    exact .cons ⟨by decide, .inr trivial⟩ .nil

end Corba
