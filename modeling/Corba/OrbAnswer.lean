/-
Whether a request is answered once.

A request says whether its sender waits for an answer.  If it does, exactly one reply has to be sent
whatever becomes of the request, and otherwise none.  Each way a request can take through
`socketRcvd` is looked at on its own; together they tell exactly which requests are answered as
they ask.

Main definitions:

* `Corba.ORB.flagsOf`, `Corba.ORB.Asks` — whether a request asks for a response;
* `Corba.ORB.AnsweredOnce` — it has been answered as it asks;
* `Corba.ORB.AnswersAsAsked` — the condition.

Main results:

* `Corba.ORB.onThrow_answers`, `Corba.ORB.is_a_answers`, … — one path each;
* `Corba.ORB.request_answered_once_iff` — the condition is exact.
-/

import Corba.GiopBounds
import Corba.OrbReply

set_option relaxedAutoImplicit false
set_option autoImplicit false

namespace Corba

open Layout ByteOrder Placed Exec

namespace ORB

/-- Whether the response flags ask for a response: up to GIOP 1.1 any octet other than zero, and
then the sync scopes `WITH_SERVER` and `WITH_TARGET`. -/
def Asks (legacy : Bool) (flags : UInt8) : Prop :=
  if legacy then flags ≠ 0 else flags = 1 ∨ flags = 3

/-- The decoder does not know that `WITH_SERVER` asks for a response. -/
theorem responseExpectedOf_iff (legacy : Bool) (flags : UInt8) :
    (GIOPDecoder.responseExpectedOf legacy flags = true ↔ Asks legacy flags) ↔
      (legacy = true ∨ flags ≠ 1) := by
  cases legacy with
  | true => simp [GIOPDecoder.responseExpectedOf, Asks]
  | false =>
      simp only [GIOPDecoder.responseExpectedOf, Asks, Bool.false_eq_true, if_false, false_or]
      split
      · simp
      · simp
      · simp
      · simp
      · rename_i h0 h1 h2 h3
        have hone : flags ≠ 1 := h1
        have hthree : flags ≠ 3 := h3
        simp [hone, hthree]

variable [Platform]

/-- The response flags of a request, which stand behind its id. -/
def responseFlags : ScanM UInt8 := do
  let d ← get
  if d.isLegacy then
    GIOPDecoder.readServiceContext
  let _requestId ← GIOPDecoder.readUlong
  GIOPDecoder.readOctet

/-- The response flags of the request the decoder stands at. -/
def flagsOf (d : GIOPDecoder) : UInt8 :=
  match responseFlags d with
  | .ok flags _ => flags
  | .error _ _ => 0

/-- What the decoder makes of the response flags. -/
theorem responseExpected_of_scan {d d' : GIOPDecoder} {request : RequestHeader}
    (h : GIOPDecoder.scanRequestHeader d = .ok request d') :
    request.responseExpected = GIOPDecoder.responseExpectedOf d.isLegacy (flagsOf d) := by
  rw [GIOPDecoder.scanRequestHeader, get_bind] at h
  cases hl : d.isLegacy with
  | true =>
      simp only [hl, if_true] at h
      obtain ⟨_, d₁, h₁, h⟩ := bind_eq_ok.1 h
      obtain ⟨requestId, d₂, h₂, h⟩ := bind_eq_ok.1 h
      obtain ⟨flags, d₃, h₃, h⟩ := bind_eq_ok.1 h
      obtain ⟨_, _, -, h⟩ := bind_eq_ok.1 h
      obtain ⟨_, _, -, h⟩ := bind_eq_ok.1 h
      obtain ⟨_, _, -, h⟩ := bind_eq_ok.1 h
      obtain ⟨_, _, -, h⟩ := bind_eq_ok.1 h
      cases h
      have hflags : responseFlags d = .ok flags d₃ := by
        rw [responseFlags, get_bind]
        simp only [hl, if_true]
        rw [bind_ok h₁, bind_ok h₂, h₃]
      rw [flagsOf, hflags]
  | false =>
      simp only [hl, Bool.false_eq_true, if_false] at h
      obtain ⟨requestId, d₂, h₂, h⟩ := bind_eq_ok.1 h
      obtain ⟨flags, d₃, h₃, h⟩ := bind_eq_ok.1 h
      obtain ⟨_, _, -, h⟩ := bind_eq_ok.1 h
      obtain ⟨_, _, -, h⟩ := bind_eq_ok.1 h
      obtain ⟨_, _, -, h⟩ := bind_eq_ok.1 h
      obtain ⟨_, _, -, h⟩ := bind_eq_ok.1 h
      obtain ⟨_, _, -, h⟩ := bind_eq_ok.1 h
      cases h
      have hflags : responseFlags d = .ok flags d₃ := by
        rw [responseFlags, get_bind]
        simp only [hl, Bool.false_eq_true, if_false]
        rw [bind_ok h₂, h₃]
      rw [flagsOf, hflags]

/-! ### Answered once -/

/-- The request with this id and version has been answered as it asks: with exactly one message,
which is a reply to it, or with none. -/
def AnsweredOnce (asked : Prop) (major minor : ℕ) (requestId : UInt32)
    (result : EStateM.Result Fault Reception Unit) : Prop :=
  (∀ u r, result ≠ .error (.undefined u) r) ∧
  (asked → ∃ status message, (State result).events = [.send message] ∧
    IsReply major minor requestId status message) ∧
  (¬ asked → (State result).events = [])

section Verdicts

variable {asked : Prop} {major minor : ℕ} {requestId : UInt32}

/-- A reply that has been sent is right when it was asked for. -/
theorem answeredOnce_sent {r : Reception} {status : ReplyStatus} {message : Octets}
    (hr : r.events = [.send message]) (h : IsReply major minor requestId status message) :
    AnsweredOnce asked major minor requestId (.ok () r) ↔ asked := by
  constructor
  · rintro ⟨-, -, hnot⟩
    by_contra hasked
    have hnil : r.events = [] := hnot hasked
    rw [hr] at hnil
    cases hnil
  · intro hasked
    refine ⟨fun u r' => ?_, fun _ => ⟨status, message, hr, h⟩, fun hnot => absurd hasked hnot⟩
    rintro ⟨⟩

omit [Platform] in
theorem not_undefined_ok (r : Reception) (u : Undefined) (r' : Reception) :
    (.ok () r : EStateM.Result Fault Reception Unit) ≠ .error (.undefined u) r' := by
  rintro ⟨⟩

omit [Platform] in
theorem not_undefined_thrown (t : Thrown) (r : Reception) (u : Undefined) (r' : Reception) :
    (.error (.thrown t) r : EStateM.Result Fault Reception Unit) ≠ .error (.undefined u) r' := by
  rintro ⟨⟩

/-- That nothing has been sent is right when nothing was asked for. -/
theorem answeredOnce_silent {result : EStateM.Result Fault Reception Unit}
    (hdef : ∀ u r, result ≠ .error (.undefined u) r) (hr : (State result).events = []) :
    AnsweredOnce asked major minor requestId result ↔ ¬ asked := by
  constructor
  · rintro ⟨-, hyes, -⟩ hasked
    obtain ⟨status, message, hsent, -⟩ := hyes hasked
    rw [hr] at hsent
    cases hsent
  · intro hnot
    exact ⟨hdef, fun hasked => absurd hasked hnot, fun _ => hr⟩

theorem answeredOnce_undefined {u : Undefined} {r : Reception} :
    AnsweredOnce asked major minor requestId (.error (.undefined u) r) ↔ False := by
  constructor
  · rintro ⟨hdef, -⟩
    exact hdef u r rfl
  · exact False.elim

end Verdicts

/-! ### The paths of a request -/

section Paths

variable {asked : Prop} {d : GIOPDecoder} {request : RequestHeader} {e : GIOPEncoder}
  {r : Reception}

/-- A reply that is sent without a look at the request. -/
theorem sendReply_answers (he : (replyRoom d).Continues e) (hr : r.events = [])
    (requestId : UInt32) (status : ReplyStatus) :
    AnsweredOnce asked d.majorVersion d.minorVersion requestId (sendReply requestId status e r) ↔
      asked := by
  obtain ⟨message, hrun, hreply, -, -⟩ := sendReply_run he requestId status r
  rw [hrun]
  exact answeredOnce_sent (by rw [hr]; rfl) hreply

/-- A reply that is sent when the decoder has found that one is expected. -/
theorem guarded_answers {x : RcvM Unit} (hr : r.events = [])
    (hx : AnsweredOnce asked d.majorVersion d.minorVersion request.requestId (x r) ↔ asked) :
    AnsweredOnce asked d.majorVersion d.minorVersion request.requestId
        ((if request.responseExpected then x else pure ()) r) ↔
      (request.responseExpected = true ↔ asked) := by
  cases hexpected : request.responseExpected with
  | true =>
      rw [if_pos rfl, hx]
      exact (iff_true_left rfl).symm
  | false =>
      rw [if_neg Bool.false_ne_true, pure_run]
      refine (answeredOnce_silent (not_undefined_ok r) hr).trans ?_
      exact (iff_false_left Bool.false_ne_true).symm

theorem onReturn_answers (he : (replyRoom d).Continues e) (hr : r.events = []) :
    AnsweredOnce asked d.majorVersion d.minorVersion request.requestId (onReturn request e r) ↔
      (request.responseExpected = true ↔ asked) :=
  guarded_answers hr (sendReply_answers he hr _ _)

/-- A body is written behind what is there, and the reply is sent. -/
theorem sendBody_answers {m : EncodeM Unit} {xs : Cdr.Items} (he : (replyRoom d).Continues e)
    (hr : r.events = [])
    (hm : m e = .ok () { e with buffer := e.buffer.put xs }) (requestId : UInt32)
    (status : ReplyStatus) :
    AnsweredOnce asked d.majorVersion d.minorVersion requestId
        ((do let e ← encode m e; sendReply requestId status e) r) ↔ asked := by
  rw [bind_ok (encode_ok hm r)]
  exact sendReply_answers (he.put xs) hr _ _

/-- What is thrown is reported when a response is expected, unless nobody knows what it is. -/
theorem onThrow_answers (he : (replyRoom d).Continues e) (hr : r.events = []) (t : Thrown) :
    AnsweredOnce asked d.majorVersion d.minorVersion request.requestId (onThrow request e t r) ↔
      if t = .other then ¬ asked else (request.responseExpected = true ↔ asked) := by
  have hgeneric : ∀ typeName what : CString,
      AnsweredOnce asked d.majorVersion d.minorVersion request.requestId
        ((if request.responseExpected then do
            let e ← encode (do
              writeSystemException genericId 0 0
              GIOPEncoder.writeString (genericText typeName what)) e
            sendReply request.requestId .systemException e
          else pure ()) r) ↔ (request.responseExpected = true ↔ asked) :=
    fun typeName what =>
      guarded_answers hr (sendBody_answers he hr (writeGeneric_run typeName what e) _ _)
  cases t with
  | userException =>
      rw [if_neg (by simp)]
      exact guarded_answers hr (sendReply_answers he hr _ _)
  | systemException ex =>
      rw [if_neg (by simp)]
      exact guarded_answers hr (sendBody_answers he hr (writeSystemException_run _ _ _ e) _ _)
  | outOfRange what =>
      rw [if_neg (by simp)]
      exact hgeneric _ _
  | lengthError what =>
      rw [if_neg (by simp)]
      exact hgeneric _ _
  | runtimeError what =>
      rw [if_neg (by simp)]
      exact hgeneric _ _
  | stdException typeName what =>
      rw [if_neg (by simp)]
      exact hgeneric _ _
  | other =>
      rw [if_pos rfl]
      exact answeredOnce_silent (not_undefined_ok r) hr

theorem onCallThrow_answers (hr : r.events = []) (t : Thrown) :
    AnsweredOnce asked d.majorVersion d.minorVersion request.requestId (onCallThrow t r) ↔
      ¬ asked := by
  cases t with
  | other => exact answeredOnce_silent (not_undefined_thrown .other r) hr
  | _ => exact answeredOnce_silent (not_undefined_ok r) hr

theorem onLateThrow_answers (hr : r.events = []) (t : Thrown) :
    AnsweredOnce asked d.majorVersion d.minorVersion request.requestId (onLateThrow t r) ↔
      t = .other ∧ ¬ asked := by
  cases t with
  | other =>
      refine (answeredOnce_silent (not_undefined_ok r) hr).trans ?_
      exact (and_iff_right rfl).symm
  | _ => exact answeredOnce_undefined.trans (iff_of_false id (by simp))

theorem noServant_answers (hd : r.decoder = d) (hr : r.events = []) :
    AnsweredOnce asked d.majorVersion d.minorVersion request.requestId (noServant request r) ↔
      (request.responseExpected = true ↔ asked) := by
  refine guarded_answers hr ?_
  rw [get_bind, hd, bind_ok (encode_ok (writeNotExist_run d) r)]
  exact sendReply_answers ((replyRoom_continues d).put _) hr _ _

/-- `_is_a` answers whatever was asked for, if its argument can be read. -/
theorem is_a_answers {servant : Servant} {D : Octets} (hD : D.length < 2 ^ 63)
    (hover : r.decoder.Over D) (hspeaks : r.decoder.Speaks d.majorVersion d.minorVersion)
    (hr : r.events = []) :
    AnsweredOnce asked d.majorVersion d.minorVersion request.requestId (is_a servant request r) ↔
      match GIOPDecoder.readStringView r.decoder with
      | .ok view _ => ¬ view.Endless ∧ asked
      | .error (.thrown _) _ => ¬ asked
      | .error (.undefined _) _ => False := by
  rw [is_a]
  cases hview : GIOPDecoder.readStringView r.decoder with
  | error f d' =>
      rw [bind_error (scan_error hview)]
      cases f with
      | thrown t => exact answeredOnce_silent (not_undefined_thrown t _) hr
      | undefined u => exact answeredOnce_undefined
  | ok view d' =>
      obtain ⟨hinside, hstring⟩ := GIOPDecoder.triple_readStringView hD _ _ _ hover hview
      have hspeaks' : d'.Speaks d.majorVersion d.minorVersion := by
        have h := GIOPDecoder.speaks_read CDRDecoder.readStringView _ hspeaks
        rw [show GIOPDecoder.read CDRDecoder.readStringView r.decoder = .ok view d' from hview] at h
        exact h
      have hdata : d'.buffer.data = D := hinside.1
      rw [bind_ok (scan_ok hview), get_bind, bind_ok (encode_ok (skipReplyHeader_run d') _)]
      dsimp only
      rcases hstring with hwithin | hendless
      · have hsize : ¬ view.Endless := hwithin.not_endless hD
        have hoctets := GIOPDecoder.octets_within (v := view) (d := d') (by rw [hdata]; exact hwithin)
        rw [bind_ok (scan_ok hoctets)]
        rw [bind_ok (encode_ok (writeBoolean_run _ _) _), ← hspeaks'.1, ← hspeaks'.2]
        refine (sendReply_answers (r := ⟨d', r.events⟩) ((replyRoom_continues d').put _) hr
          _ _).trans ?_
        exact (and_iff_right hsize).symm
      · have hoctets := GIOPDecoder.octets_endless (d := d') hendless (by rw [hdata]; exact hD)
        rw [bind_error (scan_error hoctets)]
        refine answeredOnce_undefined.trans ?_
        exact iff_of_false id fun h => h.1 hendless

/-- A servant is answered as it was asked for when it returns; what it throws is only reported from
the coroutine, and before that has been suspended.  Later it does no harm if it is no exception. -/
theorem thenOrCatch_answers (he : (replyRoom d).Continues e) (hr : r.events = [])
    (call : Dispatch) :
    AnsweredOnce asked d.majorVersion d.minorVersion request.requestId
        (thenOrCatch request e call r) ↔
      match call.writing.run e, call.phase with
      | .ok _ _, _ => (request.responseExpected = true ↔ asked)
      | .error (.thrown _) _, .call => ¬ asked
      | .error (.thrown t) _, .coroutine =>
          if t = .other then ¬ asked else (request.responseExpected = true ↔ asked)
      | .error (.thrown t) _, .resumed => t = .other ∧ ¬ asked
      | .error (.undefined _) _, _ => False := by
  have hcontinues := call.writing.preserves_continues e he
  rw [thenOrCatch]
  cases hrun : call.writing.run e with
  | ok u e' =>
      rw [hrun] at hcontinues
      exact onReturn_answers hcontinues hr
  | error f e' =>
      rw [hrun] at hcontinues
      cases f with
      | undefined u => exact answeredOnce_undefined
      | thrown t =>
          cases call.phase with
          | call => exact onCallThrow_answers hr t
          | coroutine => exact onThrow_answers hcontinues hr t
          | resumed => exact onLateThrow_answers hr t

end Paths

/-! ### Requests -/

/-- When a request is answered as it asks.  `d₁` stands at its header and `d₂` at its arguments. -/
def AnswersAsAsked (servants : Servants) (message : Octets) (d₁ : GIOPDecoder)
    (request : RequestHeader) (d₂ : GIOPDecoder) : Prop :=
  let asked := Asks d₁.isLegacy (flagsOf d₁)
  -- the sync scope `WITH_SERVER` is not taken for one that asks for a response
  let understood := d₁.isLegacy = true ∨ flagsOf d₁ ≠ 1
  ¬ request.operation.Endless ∧
  match servants (request.objectKey.of message) with
  | none => understood
  | some servant =>
      let operation := request.operation.of message
      if operation = ascii "_is_a" then
        match GIOPDecoder.readStringView d₂ with
        | .ok view _ => ¬ view.Endless ∧ asked
        | .error (.thrown _) _ => ¬ asked
        | .error (.undefined _) _ => False
      else
        match (servant.dispatch operation d₂).writing.run (replyRoom d₂),
            (servant.dispatch operation d₂).phase with
        | .ok _ _, _ => understood
        | .error (.thrown _) _, .call => ¬ asked
        | .error (.thrown t) _, .coroutine => if t = .other then ¬ asked else understood
        | .error (.thrown t) _, .resumed => t = .other ∧ ¬ asked
        | .error (.undefined _) _, _ => False

section Requests

variable (servants : Servants) {connection : Connection} {message : Octets}
  {d₁ d₂ : GIOPDecoder} {request : RequestHeader}

/-- Up to the operation, every request takes the same path. -/
theorem socketRcvd_request (hsize : message.length < 2 ^ 63)
    (hhead : GIOPDecoder.scanGIOPHeader { buffer := ⟨message, 0, none⟩, connection := connection } =
      .ok .request d₁)
    (hrequest : GIOPDecoder.scanRequestHeader d₁ = .ok request d₂) :
    d₂.Over message ∧ d₂.Speaks d₁.majorVersion d₁.minorVersion ∧
      request.operation.OfString message ∧
      socketRcvd servants connection message =
        (scan (GIOPDecoder.octets request.operation) >>= fun operation =>
          match servants (request.objectKey.of message) with
          | none => noServant request
          | some servant =>
              if operation = ascii "_is_a" then is_a servant request
              else dispatch servant request operation) ⟨d₂, []⟩ := by
  obtain ⟨hinside, hlen⟩ := GIOPDecoder.triple_scanGIOPHeader hsize _ _ _ ⟨rfl, Nat.zero_le _⟩ hhead
  obtain ⟨hover, hkey, hop⟩ :=
    GIOPDecoder.triple_scanRequestHeader hsize _ _ _ hinside.over hrequest
  have hkeeps : Preserves (GIOPDecoder.Speaks d₁.majorVersion d₁.minorVersion)
      GIOPDecoder.scanRequestHeader := GIOPDecoder.speaks_scanRequestHeader
  have hspeaks := hkeeps d₁ ⟨rfl, rfl⟩
  rw [hrequest] at hspeaks
  have hdata : d₂.buffer.data = message := hover.1
  have hread := GIOPDecoder.octets_within (v := request.objectKey) (d := d₂)
    (by rw [hdata]; exact hkey)
  rw [hdata] at hread
  refine ⟨hover, hspeaks, hop, ?_⟩
  rw [socketRcvd, if_neg (by omega), onMessage, bind_ok (scan_ok hhead)]
  dsimp only
  rw [onRequest, bind_ok (scan_ok hrequest)]
  exact bind_ok (scan_ok hread) _

/-- The operation of a request, if it can be read. -/
theorem socketRcvd_operation (hsize : message.length < 2 ^ 63)
    (hhead : GIOPDecoder.scanGIOPHeader { buffer := ⟨message, 0, none⟩, connection := connection } =
      .ok .request d₁)
    (hrequest : GIOPDecoder.scanRequestHeader d₁ = .ok request d₂)
    (hop : ¬ request.operation.Endless) :
    socketRcvd servants connection message =
      (match servants (request.objectKey.of message) with
        | none => noServant request
        | some servant =>
            if request.operation.of message = ascii "_is_a" then is_a servant request
            else dispatch servant request (request.operation.of message)) ⟨d₂, []⟩ := by
  obtain ⟨hover, -, hstring, hrun⟩ := socketRcvd_request servants hsize hhead hrequest
  have hdata : d₂.buffer.data = message := hover.1
  have hread := GIOPDecoder.octets_within (v := request.operation) (d := d₂)
    (by rw [hdata]; exact hstring.resolve_right hop)
  rw [hdata] at hread
  rw [hrun, bind_ok (scan_ok hread)]

theorem dispatch_run (servant : Servant) (request : RequestHeader) (operation : Octets)
    (r : Reception) :
    dispatch servant request operation r =
      thenOrCatch request (replyRoom r.decoder) (servant.dispatch operation r.decoder) r := by
  rw [dispatch, get_bind, bind_ok (encode_ok (skipReplyHeader_run r.decoder) _)]

/-- **A request is answered exactly once, or not at all when it asks for that, exactly under this
condition.** -/
theorem request_answered_once_iff (hsize : message.length < 2 ^ 63)
    (hhead : GIOPDecoder.scanGIOPHeader { buffer := ⟨message, 0, none⟩, connection := connection } =
      .ok .request d₁)
    (hrequest : GIOPDecoder.scanRequestHeader d₁ = .ok request d₂) :
    AnsweredOnce (Asks d₁.isLegacy (flagsOf d₁)) d₁.majorVersion d₁.minorVersion
        request.requestId (socketRcvd servants connection message) ↔
      AnswersAsAsked servants message d₁ request d₂ := by
  obtain ⟨hover, hspeaks, hop, hrun⟩ := socketRcvd_request servants hsize hhead hrequest
  have hdata : d₂.buffer.data = message := hover.1
  have hexpected : (request.responseExpected = true ↔ Asks d₁.isLegacy (flagsOf d₁)) ↔
      (d₁.isLegacy = true ∨ flagsOf d₁ ≠ 1) := by
    rw [responseExpected_of_scan hrequest]
    exact responseExpectedOf_iff _ _
  rw [AnswersAsAsked]
  rcases hop with hwithin | hendless
  · have hnot := hwithin.not_endless hsize
    rw [socketRcvd_operation servants hsize hhead hrequest hnot, ← hspeaks.1, ← hspeaks.2]
    dsimp only
    rw [← hexpected, and_iff_right hnot]
    cases servants (request.objectKey.of message) with
    | none => exact noServant_answers rfl rfl
    | some servant =>
        dsimp only
        by_cases hisA : request.operation.of message = ascii "_is_a"
        · rw [if_pos hisA, if_pos hisA]
          exact is_a_answers hsize hover ⟨rfl, rfl⟩ rfl
        · rw [if_neg hisA, if_neg hisA, dispatch_run]
          exact thenOrCatch_answers (replyRoom_continues d₂) rfl _
  · have hread := GIOPDecoder.octets_endless (d := d₂) hendless (by rw [hdata]; exact hsize)
    rw [hrun, bind_error (scan_error hread)]
    refine answeredOnce_undefined.trans ?_
    exact iff_of_false id fun h => h.1 hendless

end Requests

omit [Platform]

/-- A request of GIOP 1.2 for the operation `add` of the object `A`. -/
def addRequest (responseFlags : UInt8) : Octets :=
  ascii "GIOP" ++ [1, 2, 1, 0, 36, 0, 0, 0, 7, 0, 0, 0, responseFlags, 0, 0, 0, 0, 0, 0, 0,
    1, 0, 0, 0] ++ ascii "A" ++ [0, 0, 0, 4, 0, 0, 0] ++ ascii "add" ++ [0, 0, 0, 0, 0, 0, 0, 0, 0]

/-- The connection it arrives on. -/
def addConnection : Connection := ⟨⟨ascii "far", 2809⟩, ⟨ascii "near", 2810⟩, false⟩

/-- The decoder that has come to an offset of it. -/
def addDecoder (responseFlags : UInt8) (offset : ℕ) : GIOPDecoder :=
  { buffer := ⟨addRequest responseFlags, offset, some .little⟩
    connection := addConnection
    m_length := 36 }

/-- A servant that writes its result and returns. -/
def adder : Servant where
  repositoryId := ascii "IDL:Adder:1.0"
  dispatch _ _ := { writing := { calls := [.value (.double 2)] } }

/-- With the sync scope `WITH_TARGET`, the request is answered. -/
theorem request_answered_once_withTarget :
    letI : Platform := ⟨.little⟩
    ∃ (d₁ d₂ : GIOPDecoder) (request : RequestHeader),
      GIOPDecoder.scanGIOPHeader
        { buffer := ⟨addRequest 3, 0, none⟩, connection := addConnection } = .ok .request d₁ ∧
      GIOPDecoder.scanRequestHeader d₁ = .ok request d₂ ∧
      AnsweredOnce (Asks d₁.isLegacy (flagsOf d₁)) d₁.majorVersion d₁.minorVersion
        request.requestId (socketRcvd (fun _ => some adder) addConnection (addRequest 3)) := by
  have hhead : @GIOPDecoder.scanGIOPHeader ⟨.little⟩
      { buffer := ⟨addRequest 3, 0, none⟩, connection := addConnection } =
      .ok .request (addDecoder 3 12) := by decide +kernel
  have hrequest : @GIOPDecoder.scanRequestHeader ⟨.little⟩ (addDecoder 3 12) =
      .ok ⟨7, true, ⟨28, 1⟩, ⟨36, 3⟩⟩ (addDecoder 3 48) := by decide +kernel
  refine ⟨_, _, _, hhead, hrequest, ?_⟩
  refine (@request_answered_once_iff ⟨.little⟩ _ _ _ _ _ _ (by decide) hhead hrequest).mpr ⟨?_, ?_⟩
  · rw [View.Endless]
    decide
  · exact Or.inr (by decide)

/-- With the sync scope `WITH_SERVER`, it is not, although the servant returns. -/
theorem request_withServer_not_answered :
    letI : Platform := ⟨.little⟩
    ¬ ∀ (servants : Servants) (connection : Connection) (message : Octets) (d₁ d₂ : GIOPDecoder)
      (request : RequestHeader), message.length < 2 ^ 63 →
      GIOPDecoder.scanGIOPHeader { buffer := ⟨message, 0, none⟩, connection := connection } =
        .ok .request d₁ →
      GIOPDecoder.scanRequestHeader d₁ = .ok request d₂ →
      AnsweredOnce (Asks d₁.isLegacy (flagsOf d₁)) d₁.majorVersion d₁.minorVersion
        request.requestId (socketRcvd servants connection message) := by
  intro h
  have hevents : (State (@socketRcvd ⟨.little⟩ (fun _ => some adder) addConnection
      (addRequest 1))).events = [] := by decide +kernel
  obtain ⟨-, hasked, -⟩ := h (fun _ => some adder) addConnection (addRequest 1) (addDecoder 1 12)
    (addDecoder 1 48) ⟨7, false, ⟨28, 1⟩, ⟨36, 3⟩⟩ (by decide) (by decide +kernel)
    (by decide +kernel)
  obtain ⟨status, message, hsent, -⟩ := hasked (Or.inl rfl)
  rw [hevents] at hsent
  cases hsent

end ORB

end Corba
