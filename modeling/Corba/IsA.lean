/-
Whether a servant is of a type.

A class of servants says of which types it is by overriding `Object::repository_id` and
`Object::_is_a`, and the second asks the classes it is derived from.  The operation `_is_a` of a
request is not handed to the servant: `ORB::socketRcvd` of `src/corba/orb.cc` compares the repository
id itself.

Main definitions:

* `Corba.SkeletonClass` — the classes of servants, and what they say of themselves;
* `Corba.ORB.AskedIsA` — a request for the operation `_is_a` reaches a servant;
* `Corba.ORB.RemoteIsA` — the boolean its sender gets.

Main results:

* `Corba.SkeletonClass.is_a_iff` — what a class says is decided along the chain of inheritance;
* `Corba.ORB.remoteIsA_iff` — the boolean that is sent;
* `Corba.ORB.remote_is_a_agrees_iff` — exactly when both agree.
-/

import Corba.CdrRoundTrip
import Corba.OrbException

set_option relaxedAutoImplicit false
set_option autoImplicit false

namespace Corba

open Layout ByteOrder Placed Exec

/-! ### Classes of servants -/

/-- The classes of servants: `Object`, those that override both functions for the interface they
implement and leave what they do not know to the interfaces it is derived from, and those that only
override `repository_id`. -/
inductive SkeletonClass where
  | object
  | interface (repositoryId : Octets) (bases : List SkeletonClass)
  | renamed (repositoryId : Octets) (base : SkeletonClass)

namespace SkeletonClass

def objectId : Octets := ascii "IDL:omg.org/CORBA/Object:1.0"

/-- `repository_id()`. -/
def repositoryId : SkeletonClass → Octets
  | object => objectId
  | interface repositoryId _ => repositoryId
  | renamed repositoryId _ => repositoryId

mutual

/-- `_is_a()`. -/
def is_a (logical_type_id : Octets) : SkeletonClass → Bool
  | object => logical_type_id == objectId
  | interface repositoryId bases => logical_type_id == repositoryId || anyIsA logical_type_id bases
  | renamed _ base => is_a logical_type_id base

def anyIsA (logical_type_id : Octets) : List SkeletonClass → Bool
  | [] => false
  | base :: bases => is_a logical_type_id base || anyIsA logical_type_id bases

end

def namingContextExtImpl : SkeletonClass :=
  renamed (ascii "IDL:omg.org/CosNaming/NamingContext:1.0") object

mutual

/-- The repository ids of the interfaces along the chain of inheritance. -/
def interfaces : SkeletonClass → List Octets
  | object => [objectId]
  | interface repositoryId bases => repositoryId :: allInterfaces bases
  | renamed _ base => interfaces base

def allInterfaces : List SkeletonClass → List Octets
  | [] => []
  | base :: bases => interfaces base ++ allInterfaces bases

end

mutual

theorem is_a_iff (r : Octets) : (c : SkeletonClass) → (c.is_a r = true ↔ r ∈ c.interfaces)
  | object => by simp [is_a, interfaces]
  | interface repositoryId bases => by
      rw [is_a, interfaces, Bool.or_eq_true, beq_iff_eq, List.mem_cons, anyIsA_iff r bases]
  | renamed _ base => by rw [is_a, interfaces, is_a_iff r base]

theorem anyIsA_iff (r : Octets) :
    (bases : List SkeletonClass) → (anyIsA r bases = true ↔ r ∈ allInterfaces bases)
  | [] => by simp [anyIsA, allInterfaces]
  | base :: bases => by
      rw [anyIsA, allInterfaces, Bool.or_eq_true, List.mem_append, is_a_iff r base,
        anyIsA_iff r bases]

end

/-- A servant of the class. -/
def servant (c : SkeletonClass) (dispatch : Octets → GIOPDecoder → Dispatch) : Servant :=
  ⟨c.repositoryId, dispatch⟩

/-- The id is that of the class, which knows it, or of no interface at all. -/
def Settles (c : SkeletonClass) (r : Octets) : Prop :=
  (r = c.repositoryId ∧ r ∈ c.interfaces) ∨ (r ≠ c.repositoryId ∧ r ∉ c.interfaces)

theorem eq_is_a_iff (c : SkeletonClass) (r : Octets) :
    (r == c.repositoryId) = c.is_a r ↔ c.Settles r := by
  rw [Bool.eq_iff_iff, beq_iff_eq, is_a_iff, Settles]
  by_cases hr : r = c.repositoryId
  · simp [hr]
  · simp [hr]

/-- A class that overrides both settles everything but the interfaces it inherits. -/
theorem interface_settles_iff (repositoryId : Octets) (bases : List SkeletonClass) (r : Octets) :
    (interface repositoryId bases).Settles r ↔
      r = repositoryId ∨ r ∉ allInterfaces bases := by
  rw [Settles, interfaces, SkeletonClass.repositoryId, List.mem_cons]
  by_cases hr : r = repositoryId
  · simp [hr]
  · simp [hr]

/-- The naming context settles neither its own id nor that of `Object`. -/
theorem namingContextExtImpl_settles_iff (r : Octets) :
    namingContextExtImpl.Settles r ↔ r ≠ namingContextExtImpl.repositoryId ∧ r ≠ objectId := by
  have hne : namingContextExtImpl.repositoryId ≠ objectId := by decide
  have hinterfaces : namingContextExtImpl.interfaces = [objectId] := rfl
  rw [Settles, hinterfaces, List.mem_singleton]
  constructor
  · rintro (⟨hown, hobject⟩ | h)
    · exact absurd (hown.symm.trans hobject) hne
    · exact h
  · exact Or.inr

end SkeletonClass

/-! ### The operation -/

namespace ORB

variable [Platform]

/-- A request of GIOP 1.0, 1.1 or 1.2 asks a servant whether it is of the type `r`. -/
structure AskedIsA (servants : Servants) (connection : Connection) (message : Octets)
    (d₁ : GIOPDecoder) (request : RequestHeader) (d₂ : GIOPDecoder) (servant : Servant)
    (r : Octets) : Prop where
  size : message.length < 2 ^ 63
  head : GIOPDecoder.scanGIOPHeader { buffer := ⟨message, 0, none⟩, connection := connection } =
    .ok .request d₁
  header : GIOPDecoder.scanRequestHeader d₁ = .ok request d₂
  majorVersion : d₁.majorVersion = 1
  minorVersion : d₁.minorVersion ≤ 2
  operation : ¬ request.operation.Endless
  is_a : request.operation.of message = ascii "_is_a"
  servant : servants (request.objectKey.of message) = some servant
  argument : ∃ view d₃, GIOPDecoder.readStringView d₂ = .ok view d₃ ∧ ¬ view.Endless ∧
    view.of message = r

/-- The only answer to the request arrives at its sender, who reads this boolean. -/
def RemoteIsA (servants : Servants) (connection : Connection) (message : Octets)
    (servants' : Servants) (caller : Connection) (requestId : UInt32) (b : Bool) : Prop :=
  ∃ d d', Crosses servants connection message servants' caller requestId d ∧
    d.replyStatus = .noException ∧ GIOPDecoder.readBoolean d = .ok b d'

variable {servants : Servants} {connection : Connection} {message : Octets}
  {d₁ d₂ : GIOPDecoder} {request : RequestHeader} {servant : Servant} {r : Octets}

/-- The room of the headers followed by a boolean. -/
def booleanReply (d : GIOPDecoder) (b : Bool) : GIOPEncoder :=
  { replyRoom d with buffer := (replyRoom d).buffer.put (Cdr.boolean b) }

/-- What is sent is decided by the repository id of the servant. -/
theorem AskedIsA.run (h : AskedIsA servants connection message d₁ request d₂ servant r) :
    ∃ d₃, d₃.majorVersion = 1 ∧ d₃.minorVersion ≤ 2 ∧
      socketRcvd servants connection message =
        sendReply request.requestId .noException
          (booleanReply d₃ (r == servant.repositoryId)) ⟨d₃, []⟩ := by
  obtain ⟨hover, hspeaks, -, -⟩ := socketRcvd_request servants h.size h.head h.header
  obtain ⟨view, d₃, hview, hendless, hr⟩ := h.argument
  obtain ⟨hinside, hstring⟩ := GIOPDecoder.triple_readStringView h.size _ _ _ hover hview
  have hspeaks' : d₃.Speaks d₁.majorVersion d₁.minorVersion := by
    have hread := GIOPDecoder.speaks_read CDRDecoder.readStringView _ hspeaks
    rw [show GIOPDecoder.read CDRDecoder.readStringView d₂ = .ok view d₃ from hview] at hread
    exact hread
  have hdata : d₃.buffer.data = message := hinside.1
  have hoctets := GIOPDecoder.octets_within (v := view) (d := d₃)
    (by rw [hdata]; exact hstring.resolve_right hendless)
  rw [hdata, hr] at hoctets
  refine ⟨d₃, hspeaks'.1.trans h.majorVersion, hspeaks'.2.trans_le h.minorVersion, ?_⟩
  rw [socketRcvd_operation servants h.size h.head h.header h.operation, h.servant]
  dsimp only
  rw [if_pos h.is_a, ORB.is_a, bind_ok (scan_ok hview), get_bind,
    bind_ok (encode_ok (skipReplyHeader_run d₃) _)]
  dsimp only
  rw [bind_ok (scan_ok hoctets), bind_ok (encode_ok (writeBoolean_run _ _) _)]
  rfl

/-- **The sender of the request gets exactly one boolean**: whether the type is the repository id of
the servant. -/
theorem remoteIsA_iff (h : AskedIsA servants connection message d₁ request d₂ servant r)
    (servants' : Servants) (caller : Connection) (b : Bool) :
    RemoteIsA servants connection message servants' caller request.requestId b ↔
      b = (r == servant.repositoryId) := by
  obtain ⟨d₃, hmajor, hminor, hrun⟩ := h.run
  have hcontinues := (replyRoom_continues d₃).put (Cdr.boolean (r == servant.repositoryId))
  obtain ⟨reply, hsend, hreply, hlength, hkeep⟩ :=
    sendReply_run hcontinues request.requestId .noException ⟨d₃, []⟩
  have hlength : reply.length = 25 := hlength
  rw [hmajor] at hreply
  obtain ⟨d, hrcvd, hbuffer, hstatus⟩ :=
    socketRcvd_reply servants' caller hreply hminor (by omega) (by omega)
  have hcrosses : Crosses servants connection message servants' caller request.requestId d := by
    refine ⟨reply, ?_, by rw [hrcvd]; rfl⟩
    rw [hrun]
    exact congrArg (fun result => (State result).events) hsend
  have hlaid : Laid reply 24 (Cdr.boolean (r == servant.repositoryId)) :=
    ((replyRoom d₃).buffer.laid_put _).keep hkeep le_rfl le_rfl
  have hread := GIOPDecoder.read_on (d := d)
    (readBoolean_run (e := native) hlaid (by omega))
  rw [GIOPDecoder.on, ← hbuffer] at hread
  constructor
  · rintro ⟨d', d'', hcrosses', -, hread'⟩
    rw [hcrosses'.unique hcrosses] at hread'
    have heq := hread'.symm.trans hread
    cases heq
    rfl
  · rintro rfl
    exact ⟨d, _, hcrosses, hstatus, hread⟩

/-- **The sender gets what the servant says of itself exactly when the type is the servant's own,
which its class knows, or none along its chain of inheritance.** -/
theorem remote_is_a_agrees_iff (c : SkeletonClass) (code : Octets → GIOPDecoder → Dispatch)
    (h : AskedIsA servants connection message d₁ request d₂ (c.servant code) r)
    (servants' : Servants) (caller : Connection) :
    RemoteIsA servants connection message servants' caller request.requestId (c.is_a r) ↔
      c.Settles r := by
  rw [remoteIsA_iff h, ← c.eq_is_a_iff]
  exact eq_comm

omit [Platform]

/-- A request of GIOP 1.2 for the operation `_is_a` of the object `A`. -/
def isARequest (r : Octets) : Octets :=
  ascii "GIOP" ++ [1, 2, 1, 0, UInt8.ofNat (41 + r.length), 0, 0, 0, 7, 0, 0, 0, 3, 0, 0, 0,
    0, 0, 0, 0, 1, 0, 0, 0] ++ ascii "A" ++ [0, 0, 0, 6, 0, 0, 0] ++ ascii "_is_a" ++
    [0, 0, 0, 0, 0, 0, 0, UInt8.ofNat (r.length + 1), 0, 0, 0] ++ r ++ [0]

/-- The decoder that has come to an offset of it. -/
def isADecoder (r : Octets) (offset : ℕ) : GIOPDecoder :=
  { buffer := ⟨isARequest r, offset, some .little⟩
    connection := addConnection
    m_length := 41 + r.length }

/-- The interface `A` of the tests, and `B`, which is derived from it. -/
def interfaceA : SkeletonClass := .interface (ascii "IDL:A:1.0") [.object]

def interfaceB : SkeletonClass := .interface (ascii "IDL:B:1.0") [interfaceA]

/-- The request asks a servant of the class `B`. -/
theorem askedIsA_interfaceB {r : Octets} (hr : r = ascii "IDL:A:1.0" ∨ r = ascii "IDL:B:1.0") :
    @AskedIsA ⟨.little⟩ (fun _ => some (interfaceB.servant fun _ _ => { writing := ⟨[], .returns⟩ }))
      addConnection (isARequest r) (isADecoder r 12) ⟨7, true, ⟨28, 1⟩, ⟨36, 5⟩⟩ (isADecoder r 48)
      (interfaceB.servant fun _ _ => { writing := ⟨[], .returns⟩ }) r := by
  obtain rfl | rfl := hr
  · refine @AskedIsA.mk ⟨.little⟩ _ _ _ _ _ _ _ _ (by decide) (by decide +kernel)
      (by decide +kernel) rfl le_rfl ?_ (by decide +kernel) rfl
      ⟨⟨52, 9⟩, isADecoder (ascii "IDL:A:1.0") 62, by decide +kernel, ?_, by decide +kernel⟩
    · rw [View.Endless]
      decide
    · rw [View.Endless]
      decide
  · refine @AskedIsA.mk ⟨.little⟩ _ _ _ _ _ _ _ _ (by decide) (by decide +kernel)
      (by decide +kernel) rfl le_rfl ?_ (by decide +kernel) rfl
      ⟨⟨52, 9⟩, isADecoder (ascii "IDL:B:1.0") 62, by decide +kernel, ?_, by decide +kernel⟩
    · rw [View.Endless]
      decide
    · rw [View.Endless]
      decide

/-- The servant of the class `B` is a `B`. -/
theorem remote_is_a_agrees_own :
    letI : Platform := ⟨.little⟩
    RemoteIsA (fun _ => some (interfaceB.servant fun _ _ => { writing := ⟨[], .returns⟩ }))
      addConnection (isARequest (ascii "IDL:B:1.0")) (fun _ => none) addConnection 7
      (interfaceB.is_a (ascii "IDL:B:1.0")) :=
  (@remote_is_a_agrees_iff ⟨.little⟩ _ _ _ _ _ _ _ interfaceB _ (askedIsA_interfaceB (.inr rfl))
    _ _).mpr (Or.inl ⟨rfl, by decide⟩)

/-- It is an `A` as well, but the sender of the request is told that it is not. -/
theorem remote_is_a_inherited_differs :
    letI : Platform := ⟨.little⟩
    ¬ ∀ (c : SkeletonClass) (code : Octets → GIOPDecoder → Dispatch) (servants : Servants)
      (connection : Connection) (message : Octets) (d₁ d₂ : GIOPDecoder) (request : RequestHeader)
      (r : Octets) (servants' : Servants) (caller : Connection),
      AskedIsA servants connection message d₁ request d₂ (c.servant code) r →
      RemoteIsA servants connection message servants' caller request.requestId (c.is_a r) := by
  intro h
  let : Platform := ⟨.little⟩
  have hasked := askedIsA_interfaceB (.inl rfl)
  have hremote := h interfaceB _ _ _ _ _ _ _ _ (fun _ => none) addConnection hasked
  have hlocal : interfaceB.is_a (ascii "IDL:A:1.0") = true := by decide
  have heq := (remoteIsA_iff hasked (fun _ => none) addConnection _).1 hremote
  rw [hlocal] at heq
  exact absurd heq (by decide)

end ORB

end Corba
