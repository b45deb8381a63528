/-
What escapes from receiving a message.

Whatever arrives on a connection is handed to `socketRcvd` by the event loop, which does not expect
an exception from it.  Only the call of a servant and the search for the call that waits for a reply
are guarded there: what is thrown while the headers are scanned, or while the argument of `_is_a`
is read, gets out.  So does what a servant throws that is no exception of the C++ library.

Main definitions:

* `Corba.ORB.ReturnedNormally` — the message has been dropped or handled, and nothing escapes;
* `Corba.ORB.headed` — the decoder behind the header all messages have;
* `Corba.ORB.HandlesRequest`, `Corba.ORB.Handles` — which fields have to lie in a message.

Main results:

* `Corba.ORB.scanGIOPHeader_returns_iff` — what the header has to look like;
* `Corba.ORB.thenOrCatch_returns`, `Corba.ORB.is_a_returns`, … — one path each;
* `Corba.ORB.onRequest_returns` — what a request has to look like;
* `Corba.ORB.socketRcvd_returns_iff` — the condition is exact.
-/

import Corba.HeaderOctets
import Corba.OrbAnswer

set_option relaxedAutoImplicit false
set_option autoImplicit false

namespace Corba

open Layout ByteOrder Placed Exec

namespace ORB

/-! ### Returning -/

/-- No exception escapes and nothing undefined happens.  What a coroutine throws after it has been
suspended comes too late to count: by then `socketRcvd` has returned. -/
def ReturnedNormally : EStateM.Result Fault Reception Unit → Prop
  | .ok _ _ => True
  | .error (.undefined .dangling) _ => True
  | .error _ _ => False

/-- A program that reads ends with a value. -/
def Ends {α : Type} (m : ScanM α) (d : GIOPDecoder) : Prop := ∃ a d', m d = .ok a d'

variable [Platform]

/-! ### The header -/

/-- The decoder behind the header of a message that has one. -/
def headed (connection : Connection) (message : Octets) : GIOPDecoder :=
  let order : Endian := if message.getD 6 0 &&& 1 == 1 then .little else .big
  { buffer := ⟨message, 12, some order⟩
    connection := connection
    majorVersion := (message.getD 4 0).toNat
    minorVersion := (message.getD 5 0).toNat
    m_type := .ofOctet (message.getD 7 0)
    m_length := order.value ((message.drop 8).take 4) }

/-- The decoder every message is scanned with. -/
def fresh (connection : Connection) (message : Octets) : GIOPDecoder :=
  { buffer := ⟨message, 0, none⟩, connection := connection }

/-- Sixteen octets that begin with the four letters are a header, whatever else they are. -/
theorem scanGIOPHeader_headed (connection : Connection) {message : Octets}
    (hlen : 16 ≤ message.length) (hmagic : message.take 4 = ascii "GIOP") :
    GIOPDecoder.scanGIOPHeader (fresh connection message) =
      .ok (headed connection message).m_type (headed connection message) := by
  have hget : ∀ i, i < 16 → message[i]? = some (message.getD i 0) := by
    intro i hi
    rw [List.getD_eq_getElem?_getD, List.getElem?_eq_getElem (by omega), Option.getD_some]
  have hoctets : At message 4 [message.getD 4 0, message.getD 5 0, message.getD 6 0,
      message.getD 7 0] := by
    refine at_cons.2 ⟨hget 4 (by decide), at_cons.2 ⟨hget 5 (by decide), ?_⟩⟩
    exact at_cons.2 ⟨hget 6 (by decide), at_singleton.2 (hget 7 (by decide))⟩
  -- the number in front of the body is whatever its four octets are
  have hfit : roundUp 4 8 + 4 ≤ message.length := by
    show 8 + 4 ≤ _
    omega
  obtain ⟨length, hlength⟩ := CDRDecoder.exists_ulong
    (if message.getD 6 0 &&& 1 == 1 then .little else .big) hfit
  have hvalue : length.toNat = (headed connection message).m_length := by
    have hat := (laid_raw.1 (laid_align.1 hlength)).1
    have htake := hat.take_drop
    rw [Endian.length_bytes] at htake
    rw [headed]
    dsimp only
    rw [show message.drop 8 = message.drop (roundUp 4 8) from rfl, htake,
      Endian.value_bytes _ length.toNat_lt]
  rw [GIOPDecoder.scanGIOPHeader_octets hmagic hoctets rfl hlength hlen rfl, hvalue]
  rfl

/-- **A header is scanned exactly if it is one.** -/
theorem scanGIOPHeader_returns_iff (connection : Connection) (message : Octets) :
    Ends GIOPDecoder.scanGIOPHeader (fresh connection message) ↔
      16 ≤ message.length ∧ message.take 4 = ascii "GIOP" := by
  constructor
  · rintro ⟨type, d, hrun⟩
    rw [GIOPDecoder.scanGIOPHeader, get_bind] at hrun
    split at hrun
    · simp at hrun
    · rename_i hlen
      split at hrun
      · simp at hrun
      · rename_i hmagic
        exact ⟨Nat.le_of_not_lt hlen, not_not.1 hmagic⟩
  · rintro ⟨hlen, hmagic⟩
    exact ⟨_, _, scanGIOPHeader_headed connection hlen hmagic⟩

end ORB

/-! ### What escapes from the readers -/

/-- What a program that scans a header ends with when it does not end with a value. -/
def Fault.OfScan : Fault → Prop
  | .thrown (.outOfRange _) => True
  | .thrown (.runtimeError _) => True
  | .thrown (.lengthError _) => True
  | .undefined (.overread _ _) => True
  | .undefined .nullConnection => True
  | _ => False

namespace CDRDecoder

theorem throws_fetch (pos n : ℕ) : Throws Fault.OfScan (fetch pos n) := by
  intro d f d' hrun
  rw [fetch] at hrun
  split at hrun
  · cases hrun
  · cases hrun
    trivial

theorem throws_ptr (n : ℕ) (what : ℕ → ℕ → String) : Throws Fault.OfScan (ptr n what) := by
  intro d f d' hrun
  rw [ptr] at hrun
  split at hrun
  · cases hrun
    trivial
  · cases hrun

theorem throws_next : Throws Fault.OfScan next :=
  Throws.get_bind fun _ => (throws_fetch _ 1).bind fun _ => (Throws.set _).bind fun _ =>
    Throws.pure _

variable [Platform]

theorem throws_word {p : DecodeM ℕ} (hp : Throws Fault.OfScan p) (w : ℕ) :
    Throws Fault.OfScan (word p w) :=
  hp.bind fun pos => (throws_fetch pos w).bind fun _ => Throws.get_bind fun _ => Throws.pure _

theorem throws_readUshort : Throws Fault.OfScan readUshort :=
  (throws_word ((Throws.modify _).bind fun _ => throws_ptr 2 _) 2).bind fun _ => Throws.pure _

theorem throws_readUlong : Throws Fault.OfScan readUlong :=
  (throws_word ((Throws.modify _).bind fun _ => throws_ptr 4 _) 4).bind fun _ => Throws.pure _

theorem throws_readBlobView : Throws Fault.OfScan readBlobView :=
  throws_readUlong.bind fun _ => (throws_ptr _ _).bind fun _ => Throws.pure _

theorem throws_readStringView : Throws Fault.OfScan readStringView :=
  throws_readUlong.bind fun _ => (throws_ptr _ _).bind fun _ => Throws.pure _

end CDRDecoder

namespace GIOPDecoder

theorem throws_read {α : Type} {Q : Fault → Prop} {m : DecodeM α} (h : Throws Q m) :
    Throws Q (read m) := by
  intro d f d' hrun
  rw [read] at hrun
  split at hrun
  · cases hrun
  · rename_i hread
    cases hrun
    exact h _ _ _ hread

theorem throws_octets (v : View) : Throws Fault.OfScan (octets v) :=
  throws_read (CDRDecoder.throws_fetch _ _)

theorem throws_equals (v : View) (s : Octets) : Throws Fault.OfScan (equals v s) := by
  rw [equals]
  split
  · exact Throws.pure _
  · exact (throws_octets v).bind fun _ => Throws.pure _

theorem throws_readOctet : Throws Fault.OfScan readOctet := throws_read CDRDecoder.throws_next

variable [Platform]

theorem throws_readUlong : Throws Fault.OfScan readUlong := throws_read CDRDecoder.throws_readUlong

theorem throws_readBlobView : Throws Fault.OfScan readBlobView :=
  throws_read CDRDecoder.throws_readBlobView

theorem throws_readStringView : Throws Fault.OfScan readStringView :=
  throws_read CDRDecoder.throws_readStringView

theorem throws_readEncapsulation {closure : UInt32 → ScanM Unit}
    (h : ∀ type, Throws Fault.OfScan (closure type)) :
    Throws Fault.OfScan (readEncapsulation closure) := by
  refine throws_readUlong.bind fun type => throws_readUlong.bind fun size => ?_
  refine Throws.get_bind fun d => throws_readOctet.bind fun flags => ?_
  refine (throws_read (Throws.modify _)).bind fun _ => (h type).bind fun a => ?_
  refine (throws_read (Throws.modify _)).bind fun _ => ?_
  exact (throws_read (Throws.modify _)).bind fun _ => Throws.pure _

theorem throws_readListenPoint : Throws Fault.OfScan readListenPoint := by
  refine throws_readStringView.bind fun host => ?_
  refine (throws_read CDRDecoder.throws_readUshort).bind fun port => Throws.get_bind fun d => ?_
  cases d.connection with
  | none => exact Throws.throw trivial
  | some connection =>
      refine (throws_equals host _).bind fun same => ?_
      dsimp only
      split
      · split
        · exact Throws.throw_bind trivial _
        · exact (throws_octets host).bind fun _ => Throws.modify _
      · exact Throws.pure _

theorem throws_readServiceContext : Throws Fault.OfScan readServiceContext := by
  refine throws_readUlong.bind fun length => Throws.times (throws_readEncapsulation ?_) _
  intro type
  rw [readServiceContextBody]
  split
  · exact Throws.pure _
  · exact throws_readUlong.bind fun count => Throws.times throws_readListenPoint _
  · exact Throws.pure _
  · exact Throws.pure _

theorem throws_readTarget : Throws Fault.OfScan readTarget := by
  refine (throws_read CDRDecoder.throws_readUshort).bind fun disposition => ?_
  split
  · exact throws_readBlobView
  · exact Throws.throw trivial
  · exact Throws.throw trivial
  · exact Throws.throw trivial

theorem throws_scanGIOPHeader : Throws Fault.OfScan scanGIOPHeader := by
  have hstore : ∀ {f : GIOPDecoder → GIOPDecoder} {m : ScanM MessageType},
      Throws Fault.OfScan m → Throws Fault.OfScan (modify f >>= fun _ => m) :=
    fun hm => (Throws.modify _).bind fun _ => hm
  refine Throws.get_bind fun d => ?_
  dsimp only
  split
  · exact Throws.throw_bind trivial _
  · split
    · exact Throws.throw_bind trivial _
    · refine (throws_read (Throws.modify _)).bind fun _ => ?_
      refine throws_readOctet.bind fun major => hstore (throws_readOctet.bind fun minor => ?_)
      refine hstore (throws_readOctet.bind fun flags => ?_)
      refine (throws_read (Throws.modify _)).bind fun _ => throws_readOctet.bind fun type => ?_
      exact hstore (throws_readUlong.bind fun length => hstore (Throws.pure _))

theorem throws_scanRequestHeader : Throws Fault.OfScan scanRequestHeader := by
  refine Throws.get_bind fun d => ?_
  cases hl : d.isLegacy with
  | true =>
      refine throws_readServiceContext.bind fun _ => throws_readUlong.bind fun requestId => ?_
      refine throws_readOctet.bind fun flags => (throws_read (Throws.modify _)).bind fun _ => ?_
      refine throws_readBlobView.bind fun key => throws_readStringView.bind fun op => ?_
      exact throws_readUlong.bind fun _ => Throws.pure _
  | false =>
      refine throws_readUlong.bind fun requestId => throws_readOctet.bind fun flags => ?_
      refine (throws_read (Throws.modify _)).bind fun _ => throws_readTarget.bind fun key => ?_
      refine throws_readStringView.bind fun op => throws_readServiceContext.bind fun _ => ?_
      exact (throws_read (Throws.modify _)).bind fun _ => Throws.pure _

theorem throws_scanReplyHeader : Throws Fault.OfScan scanReplyHeader := by
  have hend : ∀ (d : GIOPDecoder) (reply : ReplyHeader), Throws Fault.OfScan (do
      if d.majorVersion = 1 ∧ d.minorVersion ≥ 2 then
        readServiceContext
      return reply : ScanM ReplyHeader) := by
    intro d reply
    split
    · exact throws_readServiceContext.bind fun _ => Throws.pure _
    · exact Throws.pure _
  refine Throws.get_bind fun d => ?_
  cases hl : d.isLegacy with
  | true =>
      refine throws_readServiceContext.bind fun _ => throws_readUlong.bind fun requestId => ?_
      refine (Throws.modify _).bind fun _ => throws_readUlong.bind fun status => ?_
      exact (Throws.modify _).bind fun _ => hend d _
  | false =>
      refine throws_readUlong.bind fun requestId => (Throws.modify _).bind fun _ => ?_
      exact throws_readUlong.bind fun status => (Throws.modify _).bind fun _ => hend d _

theorem throws_scanLocateRequest : Throws Fault.OfScan scanLocateRequest := by
  refine throws_readUlong.bind fun requestId => (Throws.modify _).bind fun _ => ?_
  refine Throws.get_bind fun d => ?_
  cases hl : d.isLegacy with
  | true => exact throws_readBlobView.bind fun key => Throws.pure _
  | false => exact throws_readTarget.bind fun key => Throws.pure _

end GIOPDecoder

/-! ### What escapes from the writers -/

/-- What a program that writes ends with when it does not end with a value. -/
def Fault.OfWrite (f : Fault) : Prop := ∃ t, f = .thrown t

namespace GIOPEncoder

theorem throws_write (f : CDREncoder → CDREncoder) : Throws Fault.OfWrite (write f) :=
  Throws.modify _

variable [Platform]

theorem throws_fillInSize : Throws Fault.OfWrite fillInSize := by
  intro e f e' hrun
  cases hstack : e.buffer.sizeStack with
  | nil =>
      simp only [fillInSize, CDREncoder.fillInSize, hstack] at hrun
      cases hrun
      exact ⟨_, rfl⟩
  | cons savedOffset rest =>
      simp only [fillInSize, CDREncoder.fillInSize, hstack] at hrun
      cases hrun

theorem throws_writeEncapsulation {type : UInt32} {closure : EncodeM Unit}
    (h : Throws Fault.OfWrite closure) : Throws Fault.OfWrite (writeEncapsulation type closure) := by
  refine (throws_write _).bind fun _ => (throws_write _).bind fun _ => ?_
  exact (throws_write _).bind fun _ => h.bind fun _ => throws_fillInSize

theorem throws_writeProfile (objectKey : Octets) (objectIsAStub : Bool) :
    Throws Fault.OfWrite (writeProfile objectKey objectIsAStub) := by
  refine (throws_write _).bind fun _ => Throws.get_bind fun e => ?_
  refine (throws_write _).bind fun _ => (throws_write _).bind fun _ => ?_
  cases e.connection with
  | none => exact Throws.throw ⟨_, rfl⟩
  | some c =>
      have htail : Throws Fault.OfWrite (do
          writeBlob objectKey
          if e.majorVersion ≠ 1 ∨ e.minorVersion ≠ 0 then
            writeUlong 1
            writeEncapsulation ComponentId.orbType (writeUlong 0x4d313300)) := by
        refine (throws_write _).bind fun _ => ?_
        split
        · refine (throws_write _).bind fun _ => ?_
          exact throws_writeEncapsulation (throws_write _)
        · exact Throws.pure _
      dsimp only
      split
      · exact (throws_write _).bind fun _ => (throws_write _).bind fun _ => htail
      · exact (throws_write _).bind fun _ => (throws_write _).bind fun _ => htail

theorem throws_writeReference (repositoryId objectKey : Octets) (objectIsAStub : Bool) :
    Throws Fault.OfWrite (writeReference repositoryId objectKey objectIsAStub) := by
  refine (throws_write _).bind fun _ => (throws_write _).bind fun _ => ?_
  refine (throws_write _).bind fun _ => (throws_write _).bind fun _ => ?_
  exact (throws_writeProfile _ _).bind fun _ => throws_fillInSize

theorem throws_writeObject (o : Option Object) : Throws Fault.OfWrite (writeObject o) := by
  cases o with
  | none => exact (throws_write _).bind fun _ => (throws_write _).bind fun _ => throws_write _
  | some o =>
      cases o with
      | stub s => exact throws_writeReference _ _ _
      | skeleton s => exact throws_writeReference _ _ _
      | ior => exact Throws.throw ⟨_, rfl⟩
      | valueType => exact Throws.throw ⟨_, rfl⟩

end GIOPEncoder

section Writing

variable [Platform]

theorem WriteCall.throws (call : WriteCall) : Throws Fault.OfWrite call.run := by
  cases call with
  | value v => exact GIOPEncoder.throws_write _
  | endian => exact GIOPEncoder.throws_write _
  | object o => exact GIOPEncoder.throws_writeObject o
  | reserveSize => exact GIOPEncoder.throws_write _
  | fillInSize => exact GIOPEncoder.throws_fillInSize

theorem WriteCall.throws_runAll (calls : List WriteCall) :
    Throws Fault.OfWrite (WriteCall.runAll calls) := by
  induction calls with
  | nil => exact Throws.pure ()
  | cons call calls ih => exact call.throws.bind fun _ => ih

/-- **User code only ends by throwing or by returning:** nothing it does to an encoder is
undefined. -/
theorem Writing.throws (w : Writing) : Throws Fault.OfWrite w.run := by
  refine (WriteCall.throws_runAll w.calls).bind fun _ => ?_
  cases w.completion with
  | returns => exact Throws.pure ()
  | throws t => exact Throws.throw ⟨t, rfl⟩

end Writing

namespace ORB

/-! ### One path each -/

/-- What comes after a program that reads is reached when that ends, and otherwise its exception
escapes. -/
theorem scan_bind_returns {α : Type} {m : ScanM α} (hm : Throws Fault.OfScan m)
    (f : α → RcvM Unit) (r : Reception) :
    ReturnedNormally ((scan m >>= f) r) ↔
      ∃ a d, m r.decoder = .ok a d ∧ ReturnedNormally (f a { r with decoder := d }) := by
  cases hrun : m r.decoder with
  | ok a d =>
      rw [bind_ok (scan_ok hrun)]
      constructor
      · intro h
        exact ⟨a, d, rfl, h⟩
      · rintro ⟨a', d', ⟨⟩, h⟩
        exact h
  | error fault d =>
      rw [bind_error (scan_error hrun)]
      have hfault := hm _ _ _ hrun
      constructor
      · intro h
        cases fault with
        | thrown t => exact False.elim h
        | undefined u =>
            cases u with
            | dangling => exact False.elim hfault
            | _ => exact False.elim h
      · rintro ⟨a, d', ⟨⟩, -⟩

variable [Platform]

section Paths

variable {d : GIOPDecoder} {request : RequestHeader} {e : GIOPEncoder} {r : Reception}

theorem sendReply_returns (he : (replyRoom d).Continues e) (requestId : UInt32)
    (status : ReplyStatus) : ReturnedNormally (sendReply requestId status e r) := by
  obtain ⟨message, hrun, -, -, -⟩ := sendReply_run he requestId status r
  rw [hrun]
  trivial

omit [Platform] in
theorem guarded_returns {x : RcvM Unit} (hx : ReturnedNormally (x r)) :
    ReturnedNormally ((if request.responseExpected then x else pure ()) r) := by
  split
  · exact hx
  · trivial

/-- A body is written behind what is there, and the reply is sent. -/
theorem sendBody_returns {m : EncodeM Unit} {xs : Cdr.Items} (he : (replyRoom d).Continues e)
    (hm : m e = .ok () { e with buffer := e.buffer.put xs }) (requestId : UInt32)
    (status : ReplyStatus) :
    ReturnedNormally ((do let e ← encode m e; sendReply requestId status e) r) := by
  rw [bind_ok (encode_ok hm r)]
  exact sendReply_returns (he.put xs) _ _

/-- The handler of what a coroutine throws lets nothing out. -/
theorem onThrow_returns (he : (replyRoom d).Continues e) (t : Thrown) :
    ReturnedNormally (onThrow request e t r) := by
  have hgeneric : ∀ typeName what : CString,
      ReturnedNormally ((if request.responseExpected then do
            let e ← encode (do
              writeSystemException genericId 0 0
              GIOPEncoder.writeString (genericText typeName what)) e
            sendReply request.requestId .systemException e
          else pure ()) r) :=
    fun typeName what => guarded_returns (sendBody_returns he (writeGeneric_run typeName what e) _ _)
  cases t with
  | userException => exact guarded_returns (sendReply_returns he _ _)
  | systemException ex =>
      exact guarded_returns (sendBody_returns he (writeSystemException_run _ _ _ e) _ _)
  | outOfRange what => exact hgeneric _ _
  | lengthError what => exact hgeneric _ _
  | runtimeError what => exact hgeneric _ _
  | stdException typeName what => exact hgeneric _ _
  | other => trivial

omit [Platform] in
/-- What `_dispatch` itself throws is caught if it is an exception of the C++ library. -/
theorem onCallThrow_returns (t : Thrown) :
    ReturnedNormally (onCallThrow t r) ↔ t ≠ .other := by
  cases t with
  | other => simp [onCallThrow, ReturnedNormally]
  | _ => simp [onCallThrow, ReturnedNormally]

omit [Platform] in
theorem onLateThrow_returns (t : Thrown) : ReturnedNormally (onLateThrow t r) := by
  cases t <;> trivial

theorem noServant_returns : ReturnedNormally (noServant request r) := by
  refine guarded_returns ?_
  rw [get_bind, bind_ok (encode_ok (writeNotExist_run r.decoder) r)]
  exact sendReply_returns ((replyRoom_continues r.decoder).put _) _ _

/-- `_is_a` is answered if its argument can be read. -/
theorem is_a_returns {servant : Servant} {D : Octets} (hD : D.length < 2 ^ 63)
    (hover : r.decoder.Over D) :
    ReturnedNormally (is_a servant request r) ↔
      ∃ view d, GIOPDecoder.readStringView r.decoder = .ok view d ∧ ¬ view.Endless := by
  rw [is_a, scan_bind_returns GIOPDecoder.throws_readStringView]
  refine exists_congr fun view => exists_congr fun d => and_congr_right fun hview => ?_
  obtain ⟨hinside, hstring⟩ := GIOPDecoder.triple_readStringView hD _ _ _ hover hview
  have hdata : d.buffer.data = D := hinside.1
  rw [get_bind, bind_ok (encode_ok (skipReplyHeader_run d) _)]
  rcases hstring with hwithin | hendless
  · have hoctets := GIOPDecoder.octets_within (v := view) (d := d) (by rw [hdata]; exact hwithin)
    rw [bind_ok (scan_ok hoctets), bind_ok (encode_ok (writeBoolean_run _ _) _)]
    refine iff_of_true ?_ (hwithin.not_endless hD)
    exact sendReply_returns ((replyRoom_continues d).put _) _ _
  · have hoctets := GIOPDecoder.octets_endless (d := d) hendless (by rw [hdata]; exact hD)
    rw [bind_error (scan_error hoctets)]
    exact iff_of_false id fun h => h hendless

/-- How the call of a servant has to end: what `_dispatch` itself throws is an exception of the C++
library. -/
def CallEnds (call : Dispatch) (e : GIOPEncoder) : Prop :=
  ∀ t e', call.writing.run e = .error (.thrown t) e' → call.phase = .call → t ≠ .other

theorem thenOrCatch_returns (he : (replyRoom d).Continues e) (call : Dispatch) :
    ReturnedNormally (thenOrCatch request e call r) ↔ CallEnds call e := by
  have hcontinues := call.writing.preserves_continues e he
  rw [thenOrCatch, CallEnds]
  cases hrun : call.writing.run e with
  | ok u e' =>
      rw [hrun] at hcontinues
      refine iff_of_true (guarded_returns (sendReply_returns hcontinues _ _)) ?_
      rintro t e'' ⟨⟩
  | error f e' =>
      rw [hrun] at hcontinues
      obtain ⟨t, rfl⟩ := call.writing.throws e _ _ hrun
      cases hphase : call.phase with
      | call =>
          refine (onCallThrow_returns t).trans ⟨?_, fun h => h t e' rfl rfl⟩
          rintro h t' e'' ⟨⟩ -
          exact h
      | coroutine =>
          refine iff_of_true (onThrow_returns hcontinues t) ?_
          rintro t' e'' - ⟨⟩
      | resumed =>
          refine iff_of_true (onLateThrow_returns t) ?_
          rintro t' e'' - ⟨⟩

theorem onReply_returns :
    ReturnedNormally (onReply r) ↔ Ends GIOPDecoder.scanReplyHeader r.decoder := by
  rw [onReply, scan_bind_returns GIOPDecoder.throws_scanReplyHeader]
  refine exists_congr fun reply => exists_congr fun d => ?_
  rw [get_bind, emit_run]
  exact and_iff_left trivial

theorem onLocateRequest_returns (servants : Servants) {D : Octets} (hD : D.length < 2 ^ 63)
    (hover : r.decoder.Over D) :
    ReturnedNormally (onLocateRequest servants r) ↔
      Ends GIOPDecoder.scanLocateRequest r.decoder := by
  rw [onLocateRequest, scan_bind_returns GIOPDecoder.throws_scanLocateRequest]
  refine exists_congr fun located => exists_congr fun d => and_iff_left_of_imp fun hscan => ?_
  obtain ⟨hinside, hkey⟩ := GIOPDecoder.triple_scanLocateRequest hD _ _ _ hover hscan
  have hdata : d.buffer.data = D := hinside.1
  have hread := GIOPDecoder.octets_within (v := located.objectKey) (d := d)
    (by rw [hdata]; exact hkey)
  rw [bind_ok (scan_ok hread)]
  trivial

end Paths

/-! ### Messages -/

/-- When a request is handled: its header lies in the message, and where it is for a servant, the
argument of `_is_a` does, or the call ends as it has to. -/
def HandlesRequest (servants : Servants) (connection : Connection) (message : Octets)
    (d : GIOPDecoder) (e : Endian) : Prop :=
  ∃ objectKey operation o connection',
    Giop.RequestLaid message e connection d.isLegacy objectKey operation o connection' ∧
    ∀ servant, servants objectKey = some servant →
      let d' := ({ d with connection := some connection' } : GIOPDecoder).on message o e
      if operation = ascii "_is_a" then Giop.StringLaid message e o
      else CallEnds (servant.dispatch operation d') (replyRoom d')

/-- When a message is handled or dropped. -/
def Handles (servants : Servants) (connection : Connection) (message : Octets) : Prop :=
  message = [] ∨
  (16 ≤ message.length ∧ message.take 4 = ascii "GIOP") ∧
  let d := headed connection message
  let e := Giop.order (message.getD 6 0)
  match d.m_type with
  | .request => HandlesRequest servants connection message d e
  | .reply => Giop.ReplyLaid message e connection d.majorVersion d.minorVersion
  | .locateRequest => Giop.LocateLaid message e d.isLegacy
  | _ => True

section Messages

variable {servants : Servants} {connection : Connection} {message : Octets} {d : GIOPDecoder}
  {e : Endian}

/-- A request is handled if its header can be scanned and its operation be read. -/
theorem onRequest_scanned (hsize : message.length < 2 ^ 63) (hover : d.Over message) :
    ReturnedNormally (onRequest servants ⟨d, []⟩) ↔
      ∃ request d', GIOPDecoder.scanRequestHeader d = .ok request d' ∧
        ¬ request.operation.Endless ∧
        ∀ servant, servants (request.objectKey.of message) = some servant →
          if request.operation.of message = ascii "_is_a" then
            ∃ view d'', GIOPDecoder.readStringView d' = .ok view d'' ∧ ¬ view.Endless
          else CallEnds (servant.dispatch (request.operation.of message) d') (replyRoom d') := by
  rw [onRequest, scan_bind_returns GIOPDecoder.throws_scanRequestHeader]
  refine exists_congr fun request => exists_congr fun d' => and_congr_right fun hscan => ?_
  obtain ⟨hover', hkey, hop⟩ := GIOPDecoder.triple_scanRequestHeader hsize _ _ _ hover hscan
  have hdata : d'.buffer.data = message := hover'.1
  have hread := GIOPDecoder.octets_within (v := request.objectKey) (d := d')
    (by rw [hdata]; exact hkey)
  rw [hdata] at hread
  rw [bind_ok (scan_ok hread)]
  rcases hop with hwithin | hendless
  · have hoctets := GIOPDecoder.octets_within (v := request.operation) (d := d')
      (by rw [hdata]; exact hwithin)
    rw [hdata] at hoctets
    rw [bind_ok (scan_ok hoctets), and_iff_right (hwithin.not_endless hsize)]
    cases servants (request.objectKey.of message) with
    | none => exact iff_of_true noServant_returns (by rintro servant ⟨⟩)
    | some servant =>
        dsimp only
        have hone : ∀ P : Servant → Prop,
            (∀ servant', some servant = some servant' → P servant') ↔ P servant := by
          simp
        rw [hone]
        by_cases hisA : request.operation.of message = ascii "_is_a"
        · rw [if_pos hisA, if_pos hisA]
          exact is_a_returns hsize hover'
        · rw [if_neg hisA, if_neg hisA, dispatch_run]
          exact thenOrCatch_returns (replyRoom_continues d') _
  · have hoctets := GIOPDecoder.octets_endless (d := d') hendless (by rw [hdata]; exact hsize)
    rw [bind_error (scan_error hoctets)]
    exact iff_of_false id fun h => h.1 hendless

/-- **A request is handled exactly if it lies in the message as it has to.** -/
theorem onRequest_returns (hsize : message.length < 2 ^ 63) (hc : d.connection = some connection)
    (hhost : connection.remote.host.length < 2 ^ 63) (hover : (d.on message 12 e).Over message) :
    ReturnedNormally (onRequest servants ⟨d.on message 12 e, []⟩) ↔
      HandlesRequest servants connection message d e := by
  refine (onRequest_scanned hsize hover).trans ⟨?_, ?_⟩
  · rintro ⟨request, d', hscan, hendless, hservant⟩
    obtain ⟨o, c, hlaid, rfl⟩ :=
      GIOPDecoder.scanRequestHeader_laid hsize hc hhost hscan hendless
    have hle := hlaid.end_le hsize
    refine ⟨_, _, o, c, hlaid, fun servant hs => ?_⟩
    have hcall := hservant servant hs
    rwa [GIOPDecoder.readStringView_laid_iff (by omega) hsize] at hcall
  · rintro ⟨objectKey, operation, o, c, hlaid, hservant⟩
    have hle := hlaid.end_le hsize
    obtain ⟨request, hscan, rfl, rfl, hendless⟩ :=
      GIOPDecoder.scanRequestHeader_of_laid hsize rfl hc hhost hlaid
    refine ⟨request, _, hscan, hendless, fun servant hs => ?_⟩
    have hcall := hservant servant hs
    rwa [GIOPDecoder.readStringView_laid_iff (by omega) hsize]

/-- **Nothing escapes from receiving a message exactly under this condition.** -/
theorem socketRcvd_returns_iff (servants : Servants) (connection : Connection) (message : Octets)
    (hsize : message.length < 2 ^ 63) (hhost : connection.remote.host.length < 2 ^ 63) :
    ReturnedNormally (socketRcvd servants connection message) ↔
      Handles servants connection message := by
  rw [socketRcvd, Handles]
  by_cases hempty : message = []
  · rw [if_pos (List.length_eq_zero_iff.2 hempty)]
    exact iff_of_true trivial (Or.inl hempty)
  rw [if_neg (mt List.length_eq_zero_iff.1 hempty), or_iff_right hempty, onMessage]
  by_cases hhead : 16 ≤ message.length ∧ message.take 4 = ascii "GIOP"
  · have hscan := scanGIOPHeader_headed connection hhead.1 hhead.2
    have hover : (headed connection message).Over message :=
      (GIOPDecoder.triple_scanGIOPHeader hsize _ _ _ ⟨rfl, Nat.zero_le _⟩ hscan).1.over
    have hc : (headed connection message).connection = some connection := rfl
    rw [and_iff_right hhead, bind_ok (scan_ok hscan)]
    dsimp only
    cases (headed connection message).m_type with
    | request => exact onRequest_returns (d := headed connection message) hsize hc hhost hover
    | reply =>
        exact onReply_returns.trans (GIOPDecoder.scanReplyHeader_ends_iff
          (d := headed connection message) hsize hc hhost)
    | locateRequest =>
        exact (onLocateRequest_returns servants hsize hover).trans
          (GIOPDecoder.scanLocateRequest_ends_iff (d := headed connection message) hsize rfl)
    | _ => exact iff_of_true trivial trivial
  · -- the header is scanned outside of any `try`
    rw [scan_bind_returns GIOPDecoder.throws_scanGIOPHeader]
    refine iff_of_false ?_ fun h => hhead h.1
    rintro ⟨type, d, hscan, -⟩
    exact hhead ((scanGIOPHeader_returns_iff connection message).1 ⟨type, d, hscan⟩)

end Messages

omit [Platform]

/-- A request for `add` lies in its message. -/
theorem addRequest_handles :
    letI : Platform := ⟨.little⟩
    Handles (fun _ => some adder) addConnection (addRequest 3) := by
  have hscan : @GIOPDecoder.scanRequestHeader ⟨.little⟩ (addDecoder 3 12) =
      .ok ⟨7, true, ⟨28, 1⟩, ⟨36, 3⟩⟩ (addDecoder 3 48) := by decide +kernel
  have hop : ¬ (⟨36, 3⟩ : View).Endless := by
    rw [View.Endless]
    decide
  obtain ⟨o, c, hlaid, -⟩ := @GIOPDecoder.scanRequestHeader_laid (addDecoder 3 12) _
    (addRequest 3) .little ⟨.little⟩ addConnection _ (by decide) rfl (by decide) hscan hop
  have hheaded : headed addConnection (addRequest 3) = addDecoder 3 12 := by decide +kernel
  have horder : Giop.order ((addRequest 3).getD 6 0) = .little := by decide
  have hoperation : (⟨36, 3⟩ : View).of (addRequest 3) ≠ ascii "_is_a" := by decide
  unfold Handles
  rw [hheaded, horder]
  refine Or.inr ⟨by decide, _, _, o, c, hlaid, ?_⟩
  rintro servant ⟨⟩
  dsimp only
  rw [if_neg hoperation]
  rintro t e ⟨⟩

/-- It is handled, then, and nothing escapes. -/
theorem socketRcvd_returns_add :
    letI : Platform := ⟨.little⟩
    Handles (fun _ => some adder) addConnection (addRequest 3) ∧
      ReturnedNormally (socketRcvd (fun _ => some adder) addConnection (addRequest 3)) := by
  refine ⟨addRequest_handles, ?_⟩
  rw [@socketRcvd_returns_iff ⟨.little⟩ (fun _ => some adder) addConnection (addRequest 3)
    (by decide) (by decide)]
  exact addRequest_handles

/-- A single octet is enough to throw an exception into the event loop. -/
theorem socketRcvd_throws :
    letI : Platform := ⟨.little⟩
    ¬ ∀ (servants : Servants) (connection : Connection) (message : Octets),
      message.length < 2 ^ 63 → ReturnedNormally (socketRcvd servants connection message) := by
  intro h
  have hreturned := h (fun _ => none) addConnection (ascii "G") (by decide)
  have hrun : @socketRcvd ⟨.little⟩ (fun _ => none) addConnection (ascii "G") =
      .error (.thrown (.runtimeError (GIOPDecoder.tooSmall 1)))
        ⟨fresh addConnection (ascii "G"), []⟩ := rfl
  rw [hrun] at hreturned
  exact hreturned

end ORB

end Corba
