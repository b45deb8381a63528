/-
Service contexts of any peer.

The encoder writes at most one service context.  A peer can send any number of them, of kinds the
decoder knows or does not know, each an encapsulation in a byte order of its own.  Wherever a header
has them, the decoder reads past all of them, and takes from them where the peer can be reached.

Main definitions:

* `Corba.ServiceContext` — a service context that is well-formed;
* `Corba.Giop.contextList` — a list of service contexts;
* `Corba.Giop.requestContent`, `Corba.Giop.replyContent`, `Corba.Giop.locateRequestContent` — headers
  with any service contexts.

Main results:

* `Corba.GIOPDecoder.readServiceContext_list` — the service contexts of a header;
* `Corba.GIOPDecoder.scanRequestHeader_content`, `Corba.GIOPDecoder.scanReplyHeader_content`,
  `Corba.GIOPDecoder.scanLocateRequest_content` — the headers.
-/

import Corba.GiopScan

set_option relaxedAutoImplicit false
set_option autoImplicit false

namespace Corba

open Layout ByteOrder Placed Exec

/-! ### Service contexts -/

/-- A service context, the encapsulation of which is in the byte order `inner`.  It either says where
the peer can be reached, or is of another kind, and the decoder does not look into it.  What the
decoder does not read can be anything. -/
inductive ServiceContext where
  | listenPoints (inner : Endian) (points : List HostAndPort) (rest : Octets)
  | other (id : UInt32) (h : ServiceId.ofUlong id ≠ .biDirIIOP) (inner : Endian) (rest : Octets)

namespace ServiceContext

def id : ServiceContext → UInt32
  | listenPoints _ _ _ => ServiceId.biDirIIOP.toUlong
  | other id _ _ _ => id

def inner : ServiceContext → Endian
  | listenPoints inner _ _ => inner
  | other _ _ inner _ => inner

def points : ServiceContext → List HostAndPort
  | listenPoints _ points _ => points
  | other _ _ _ _ => []

/-- The part of the encapsulation that is read. -/
def front : ServiceContext → Cdr.Items
  | listenPoints inner points _ =>
      Cdr.ulong inner (UInt32.ofNat points.length) ++ points.flatMap (Giop.listenPoint inner)
  | other _ _ _ _ => []

def rest : ServiceContext → Octets
  | listenPoints _ _ rest => rest
  | other _ _ _ rest => rest

/-- What stands behind the octet that announces the byte order. -/
def body (s : ServiceContext) : Cdr.Items := s.front ++ [.raw s.rest]

/-- A service context that begins at `o`. -/
def items (e : Endian) (o : ℕ) (s : ServiceContext) : Cdr.Items :=
  Giop.encapsulation e o s.id s.inner s.body

/-- Where a service context that begins at `o` ends. -/
def next (o : ℕ) (s : ServiceContext) : ℕ := extent (roundUp 4 o + 9) s.body

@[simp] theorem extent_items (e : Endian) (o : ℕ) (s : ServiceContext) :
    extent o (s.items e o) = s.next o := Giop.extent_encapsulation _ _ _ _ _

theorem lt_next (o : ℕ) (s : ServiceContext) : o < s.next o := by
  have hround := le_roundUp 4 o
  have hle := le_extent (roundUp 4 o + 9) s.body
  rw [next]
  omega

end ServiceContext

namespace Giop

/-- Service contexts one after the other, from `o` on. -/
def contexts (e : Endian) : ℕ → List ServiceContext → Cdr.Items
  | _, [] => []
  | o, s :: ss => s.items e o ++ contexts e (s.next o) ss

/-- A list of service contexts that begins at `o`. -/
def contextList (e : Endian) (o : ℕ) (ss : List ServiceContext) : Cdr.Items :=
  Cdr.ulong e (UInt32.ofNat ss.length) ++ contexts e (roundUp 4 o + 4) ss

/-- Where a list of service contexts that begins at `o` ends. -/
def contextListEnd (o : ℕ) (ss : List ServiceContext) : ℕ :=
  ss.foldl ServiceContext.next (roundUp 4 o + 4)

theorem extent_contexts (e : Endian) (o : ℕ) (ss : List ServiceContext) :
    extent o (contexts e o ss) = ss.foldl ServiceContext.next o := by
  induction ss generalizing o with
  | nil => rfl
  | cons s ss ih => rw [contexts, extent_append, ServiceContext.extent_items, ih, List.foldl_cons]

@[simp] theorem extent_contextList (e : Endian) (o : ℕ) (ss : List ServiceContext) :
    extent o (contextList e o ss) = contextListEnd o ss := by
  rw [contextList, extent_append, Cdr.extent_ulong, extent_contexts, contextListEnd]

theorem add_length_le_contexts (o : ℕ) (ss : List ServiceContext) :
    o + ss.length ≤ ss.foldl ServiceContext.next o := by
  induction ss generalizing o with
  | nil => exact le_rfl
  | cons s ss ih =>
      have hlt := s.lt_next o
      have hle := ih (s.next o)
      rw [List.length_cons, List.foldl_cons]
      omega

theorem le_contextListEnd (o : ℕ) (ss : List ServiceContext) : o ≤ contextListEnd o ss := by
  have hround := le_roundUp 4 o
  have hle := add_length_le_contexts (roundUp 4 o + 4) ss
  rw [contextListEnd]
  omega

theorem add_length_le_listenPoints (e : Endian) (o : ℕ) (points : List HostAndPort) :
    o + points.length ≤ extent o (points.flatMap (listenPoint e)) := by
  induction points generalizing o with
  | nil => exact le_rfl
  | cons a points ih =>
      have hle := ih (extent o (listenPoint e a))
      have hround := le_roundUp 4 o
      have hround' := le_roundUp 2 (roundUp 4 o + 4 + (a.host.length + 1))
      rw [List.flatMap_cons, extent_append, List.length_cons]
      rw [extent_listenPoint] at hle ⊢
      omega

end Giop

/-! ### Reading service contexts -/

/-- What a connection is after its peer has announced all these ends. -/
def Connection.adoptAll (points : List HostAndPort) (c : Option Connection) : Option Connection :=
  c.map fun c => points.foldl Connection.adopt c

theorem Connection.adoptAll_nil (c : Option Connection) : adoptAll [] c = c := by
  cases c <;> rfl

theorem Connection.adoptAll_append (points points' : List HostAndPort) (c : Option Connection) :
    adoptAll (points ++ points') c = adoptAll points' (adoptAll points c) := by
  cases c with
  | none => rfl
  | some c => simp [adoptAll]

namespace GIOPDecoder

variable [Platform] {d : GIOPDecoder} {D : Octets} {o : ℕ} {e : Endian}

/-- A message has at most `2 ^ 32 + 11` octets: its header says how many there are behind the first
twelve. -/
abbrev Within (o : ℕ) : Prop := o < 2 ^ 32 + 12

theorem times_readListenPoint {points : List HostAndPort}
    (h : Laid D o (points.flatMap (Giop.listenPoint e))) (ho : 12 ≤ o)
    (hext : Within (extent o (points.flatMap (Giop.listenPoint e)))) (hD : D.length < 2 ^ 64)
    (hc : points ≠ [] → d.connection.isSome) :
    times readListenPoint points.length (d.on D o e) = .ok ()
      ({ d with connection := Connection.adoptAll points d.connection }.on D
        (extent o (points.flatMap (Giop.listenPoint e))) e) := by
  induction points generalizing o d with
  | nil =>
      rw [Connection.adoptAll_nil]
      rfl
  | cons a points ih =>
      obtain ⟨c, hc⟩ := Option.isSome_iff_exists.1 (hc (List.cons_ne_nil _ _))
      rw [List.flatMap_cons, extent_append] at hext ⊢
      obtain ⟨hpoint, hrest⟩ := laid_append.1 h
      have hle := le_extent (extent o (Giop.listenPoint e a))
        (points.flatMap (Giop.listenPoint e))
      have hround := le_roundUp 4 o
      have hround' := le_roundUp 2 (roundUp 4 o + 4 + (a.host.length + 1))
      have hstart : 12 ≤ extent o (Giop.listenPoint e a) := ho.trans (le_extent _ _)
      have hpoints := ih (d := { d with connection := some (c.adopt a) }) hrest hstart hext
        fun _ => rfl
      have hend := Giop.extent_listenPoint o e a
      have hrun := readListenPoint_run (d := d) hpoint (by omega) hD hc
      rw [List.length_cons, times, bind_ok hrun, hpoints, hc]
      rfl

theorem readServiceContextBody_context (s : ServiceContext) (h : Laid D o s.front) (ho : 12 ≤ o)
    (hext : Within (extent o s.front)) (hD : D.length < 2 ^ 64)
    (hc : s.points ≠ [] → d.connection.isSome) :
    readServiceContextBody s.id (d.on D o s.inner) = .ok ()
      ({ d with connection := Connection.adoptAll s.points d.connection }.on D (extent o s.front)
        s.inner) := by
  cases s with
  | listenPoints inner points rest =>
      obtain ⟨hcount, hpoints⟩ := laid_append.1 h
      have hle := Giop.add_length_le_listenPoints inner (roundUp 4 o + 4) points
      have hround := le_roundUp 4 o
      rw [ServiceContext.front, extent_append] at hext ⊢
      rw [Cdr.extent_ulong] at hpoints hext ⊢
      have hnumber : (UInt32.ofNat points.length).toNat = points.length := by
        rw [UInt32.toNat_ofNat_of_lt' (by show _ < 2 ^ 32; omega)]
      rw [ServiceContext.id, readServiceContextBody, ServiceId.ofUlong_toUlong]
      show (readUlong >>= fun count => times readListenPoint count.toNat) _ = _
      refine (bind_ok (readUlong_on hcount hD) _).trans ?_
      rw [hnumber]
      exact times_readListenPoint hpoints (by omega) hext hD hc
  | other id hid inner rest =>
      rw [ServiceContext.id, readServiceContextBody]
      show _ = EStateM.Result.ok () ({ d with
        connection := Connection.adoptAll [] d.connection }.on D o inner)
      rw [Connection.adoptAll_nil]
      cases hkind : ServiceId.ofUlong id with
      | biDirIIOP => exact absurd hkind hid
      | _ => rfl

/-- Of a service context the decoder reads what it knows, and then goes to its end. -/
theorem readEncapsulation_context (s : ServiceContext) (h : Laid D o (s.items e o)) (ho : 12 ≤ o)
    (hext : Within (s.next o)) (hD : D.length < 2 ^ 64)
    (hc : s.points ≠ [] → d.connection.isSome) :
    readEncapsulation readServiceContextBody (d.on D o e) = .ok ()
      ({ d with connection := Connection.adoptAll s.points d.connection }.on D (s.next o) e) := by
  have hround := le_roundUp 4 o
  have hlaid : Laid D (roundUp 4 o + 9) s.front := (laid_append.1 (laid_encapsulation h).2).1
  have hnext : s.next o = extent (extent (roundUp 4 o + 9) s.front) [.raw s.rest] :=
    extent_append _ _ _
  have hfront := le_extent (roundUp 4 o + 9) s.front
  have hle := le_extent (extent (roundUp 4 o + 9) s.front) [.raw s.rest]
  rw [← hnext] at hle
  have hbody := readServiceContextBody_context (d := d) s hlaid (by omega) (by omega) hD hc
  rw [readEncapsulation_ok h hD hbody rfl]
  have hend : sizeT (roundUp 4 o + 8 +
      (UInt32.ofNat (s.next o - (roundUp 4 o + 8))).toNat) = s.next o := by
    rw [UInt32.toNat_ofNat_of_lt' (by show _ < 2 ^ 32; omega), sizeT_of_lt (by omega)]
    omega
  rw [← hend]
  rfl

theorem times_readEncapsulation {ss : List ServiceContext} (h : Laid D o (Giop.contexts e o ss))
    (ho : 12 ≤ o) (hext : Within (ss.foldl ServiceContext.next o)) (hD : D.length < 2 ^ 64)
    (hc : ss.flatMap ServiceContext.points ≠ [] → d.connection.isSome) :
    times (readEncapsulation readServiceContextBody) ss.length (d.on D o e) = .ok ()
      ({ d with
          connection := Connection.adoptAll (ss.flatMap ServiceContext.points) d.connection }.on D
        (ss.foldl ServiceContext.next o) e) := by
  induction ss generalizing o d with
  | nil =>
      rw [List.flatMap_nil, Connection.adoptAll_nil]
      rfl
  | cons s ss ih =>
      rw [List.flatMap_cons] at hc ⊢
      rw [List.foldl_cons] at hext ⊢
      obtain ⟨hcontext, hrest⟩ := laid_append.1 h
      rw [ServiceContext.extent_items] at hrest
      have hlt := s.lt_next o
      have hle := Giop.add_length_le_contexts (s.next o) ss
      have hrun := readEncapsulation_context (d := d) s hcontext ho (by omega) hD fun hne =>
        hc (List.append_ne_nil_of_left_ne_nil hne _)
      have hsome : ss.flatMap ServiceContext.points ≠ [] →
          (Connection.adoptAll s.points d.connection).isSome := by
        intro hne
        rw [Connection.adoptAll, Option.isSome_map]
        exact hc (List.append_ne_nil_of_right_ne_nil _ hne)
      have hall := ih (d := { d with connection := Connection.adoptAll s.points d.connection })
        hrest (by omega) hext hsome
      rw [List.length_cons, times, bind_ok hrun, hall, Connection.adoptAll_append]

/-- **A list of service contexts.**  The decoder ends where the list does. -/
theorem readServiceContext_list {ss : List ServiceContext}
    (h : Laid D o (Giop.contextList e o ss)) (ho : 12 ≤ o) (hext : Within (Giop.contextListEnd o ss))
    (hD : D.length < 2 ^ 64) (hc : ss.flatMap ServiceContext.points ≠ [] → d.connection.isSome) :
    readServiceContext (d.on D o e) = .ok ()
      ({ d with
          connection := Connection.adoptAll (ss.flatMap ServiceContext.points) d.connection }.on D
        (Giop.contextListEnd o ss) e) := by
  obtain ⟨hcount, hrest⟩ := laid_append.1 h
  rw [Cdr.extent_ulong] at hrest
  have hround := le_roundUp 4 o
  have hle := Giop.add_length_le_contexts (roundUp 4 o + 4) ss
  have hext' : Within (ss.foldl ServiceContext.next (roundUp 4 o + 4)) := hext
  have hnumber : (UInt32.ofNat ss.length).toNat = ss.length := by
    rw [UInt32.toNat_ofNat_of_lt' (by show _ < 2 ^ 32; omega)]
  rw [readServiceContext, bind_ok (readUlong_on hcount hD), hnumber]
  exact times_readEncapsulation hrest (by omega) hext' hD hc

end GIOPDecoder

/-! ### Headers -/

/-- What the header of a request says.  The principal is not there any more since GIOP 1.2. -/
structure RequestContent where
  contexts : List ServiceContext
  requestId : UInt32
  responseFlags : UInt8
  objectKey : Octets
  operation : Octets
  principal : Octets

/-- What the header of a reply says. -/
structure ReplyContent where
  contexts : List ServiceContext
  requestId : UInt32
  replyStatus : ReplyStatus

/-- What a locate request says. -/
structure LocateContent where
  requestId : UInt32
  objectKey : Octets

/-- The versions whose headers begin with the service contexts. -/
def Giop.isLegacy (major minor : ℕ) : Bool := major == 1 && minor ≤ 1

namespace RequestContent

/-- The part of a header behind the service contexts, up to GIOP 1.1. -/
def back (e : Endian) (r : RequestContent) : Cdr.Items :=
  Giop.requestFront e r.requestId r.responseFlags ++ (Cdr.blob e r.objectKey ++
    (Cdr.string e r.operation ++ Cdr.blob e r.principal))

/-- The part of a header in front of the service contexts, since GIOP 1.2. -/
def front (e : Endian) (r : RequestContent) : Cdr.Items :=
  Giop.requestHeaderFront e r.objectKey r.operation r.requestId r.responseFlags

/-- Behind the first twelve octets of a message. -/
def items (e : Endian) (legacy : Bool) (r : RequestContent) : Cdr.Items :=
  if legacy then Giop.contextList e 12 r.contexts ++ r.back e
  else r.front e ++ Giop.contextList e (extent 12 (r.front e)) r.contexts

/-- Where the object key stands. -/
def keyOffset (legacy : Bool) (r : RequestContent) : ℕ :=
  if legacy then roundUp 4 (roundUp 4 (Giop.contextListEnd 12 r.contexts) + 8) + 4 else 28

/-- Where the operation stands. -/
def operationOffset (legacy : Bool) (r : RequestContent) : ℕ :=
  roundUp 4 (r.keyOffset legacy + r.objectKey.length) + 4

/-- What the decoder makes of the header. -/
def header (legacy : Bool) (r : RequestContent) : RequestHeader :=
  ⟨r.requestId, GIOPDecoder.responseExpectedOf legacy r.responseFlags,
    ⟨r.keyOffset legacy, r.objectKey.length⟩, ⟨r.operationOffset legacy, r.operation.length⟩⟩

/-- Where the decoder stands afterwards: not behind the principal, but behind its length. -/
def stop (legacy : Bool) (r : RequestContent) : ℕ :=
  if legacy then roundUp 4 (r.operationOffset true + (r.operation.length + 1)) + 4
  else roundUp 8 (Giop.contextListEnd (r.operationOffset false + (r.operation.length + 1))
    r.contexts)

/-- Of the principal only the length is read. -/
theorem back_eq (e : Endian) (r : RequestContent) : r.back e =
    Giop.requestFront e r.requestId r.responseFlags ++ (Cdr.blob e r.objectKey ++
      (Cdr.string e r.operation ++ Cdr.ulong e (UInt32.ofNat r.principal.length))) ++
      [.raw r.principal] := by
  simp only [back, List.append_assoc]
  rfl

theorem extent_back (e : Endian) (r : RequestContent) :
    extent (Giop.contextListEnd 12 r.contexts) (r.back e) =
      roundUp 4 (r.operationOffset true + (r.operation.length + 1)) + 4 + r.principal.length := by
  simp only [back, Giop.requestFront, extent_append, Cdr.extent_ulong, Cdr.extent_octet,
    Cdr.extent_blob, Cdr.extent_string, extent_skip, extent_nil]
  rfl

theorem extent_front (e : Endian) (r : RequestContent) :
    extent 12 (r.front e) = r.operationOffset false + (r.operation.length + 1) := by
  have h22 : roundUp 2 (roundUp 4 12 + 4 + 1 + 3) + 2 = 22 := rfl
  have h28 : roundUp 4 22 + 4 = 28 := rfl
  simp only [front, Giop.requestHeaderFront, Giop.requestFront, extent_append, Cdr.extent_ulong,
    Cdr.extent_octet, Cdr.extent_ushort, Cdr.extent_blob, Cdr.extent_string, extent_skip,
    extent_nil, h22, h28]
  rfl

end RequestContent

namespace ReplyContent

/-- Behind the first twelve octets of a message.  Of other versions than 1 the decoder expects no
service contexts. -/
def items (e : Endian) (major minor : ℕ) (r : ReplyContent) : Cdr.Items :=
  (if major = 1 ∧ minor < 2 then Giop.contextList e 12 r.contexts else []) ++
    (Cdr.ulong e r.requestId ++ (Cdr.ulong e r.replyStatus.toUlong ++
      (if major = 1 ∧ minor ≥ 2 then Giop.contextList e 20 r.contexts else [])))

/-- What the decoder makes of the header. -/
def header (r : ReplyContent) : ReplyHeader := ⟨r.requestId, r.replyStatus⟩

/-- Where the decoder stands afterwards. -/
def stop (major minor : ℕ) (r : ReplyContent) : ℕ :=
  if major = 1 ∧ minor < 2 then roundUp 4 (Giop.contextListEnd 12 r.contexts) + 8
  else if major = 1 ∧ minor ≥ 2 then Giop.contextListEnd 20 r.contexts
  else 20

/-- The service contexts the decoder looks for. -/
def heard (major : ℕ) (r : ReplyContent) : List HostAndPort :=
  if major = 1 then r.contexts.flatMap ServiceContext.points else []

end ReplyContent

namespace LocateContent

/-- Behind the first twelve octets of a message. -/
def items (e : Endian) (legacy : Bool) (r : LocateContent) : Cdr.Items :=
  Cdr.ulong e r.requestId ++
    (if legacy then Cdr.blob e r.objectKey
    else Cdr.ushort e AddressingDisposition.keyAddr.toUshort ++ Cdr.blob e r.objectKey)

/-- Where the object key stands. -/
def keyOffset (legacy : Bool) : ℕ := if legacy then 20 else 24

/-- What the decoder makes of the message. -/
def header (legacy : Bool) (r : LocateContent) : LocateRequest :=
  ⟨r.requestId, ⟨keyOffset legacy, r.objectKey.length⟩⟩

/-- Where the decoder stands afterwards. -/
def stop (legacy : Bool) (r : LocateContent) : ℕ := keyOffset legacy + r.objectKey.length

end LocateContent

namespace GIOPDecoder

variable [Platform] {d : GIOPDecoder} {D : Octets} {e : Endian}

/-- **The header of a request.** -/
theorem scanRequestHeader_content {legacy : Bool} {r : RequestContent}
    (h : Laid D 12 (r.items e legacy)) (hext : Within (extent 12 (r.items e legacy)))
    (hD : D.length < 2 ^ 64) (hl : d.isLegacy = legacy)
    (hc : r.contexts.flatMap ServiceContext.points ≠ [] → d.connection.isSome) :
    scanRequestHeader (d.on D 12 e) = .ok (r.header legacy)
        ({ d with
            connection := Connection.adoptAll (r.contexts.flatMap ServiceContext.points)
              d.connection }.on D (r.stop legacy) e) ∧
      At D (r.keyOffset legacy) r.objectKey ∧ At D (r.operationOffset legacy) r.operation := by
  cases legacy with
  | true =>
      obtain ⟨hcontext, hback⟩ := laid_append.1 h
      rw [RequestContent.items, if_pos rfl, extent_append] at hext
      rw [Giop.extent_contextList] at hback hext
      rw [RequestContent.extent_back] at hext
      have hfields := (RequestContent.back_eq e r) ▸ hback
      have hkey : r.keyOffset true = roundUp 4 (roundUp 4 (Giop.contextListEnd 12 r.contexts) + 8) +
        4 := rfl
      have hop : r.operationOffset true = roundUp 4 (r.keyOffset true + r.objectKey.length) + 4 :=
        rfl
      have h1 := le_roundUp 4 (Giop.contextListEnd 12 r.contexts)
      have h2 := le_roundUp 4 (roundUp 4 (Giop.contextListEnd 12 r.contexts) + 8)
      have h3 := le_roundUp 4 (r.keyOffset true + r.objectKey.length)
      have h4 := le_roundUp 4 (r.operationOffset true + (r.operation.length + 1))
      obtain ⟨key, op, rfl, rfl, hscan, hat⟩ := scanRequestHeader_legacy_of
        (readServiceContext_list hcontext le_rfl (by omega) hD hc) (laid_append.1 hfields).1
        (by omega) (by omega) hD hl
      exact ⟨hscan, hat⟩
  | false =>
      obtain ⟨hfront, hcontext⟩ := laid_append.1 h
      rw [RequestContent.items, if_neg Bool.false_ne_true, extent_append,
        Giop.extent_contextList, RequestContent.extent_front] at hext
      have hop : r.operationOffset false = roundUp 4 (28 + r.objectKey.length) + 4 := rfl
      have h1 := le_roundUp 4 (28 + r.objectKey.length)
      have h2 := Giop.le_contextListEnd (r.operationOffset false + (r.operation.length + 1))
        r.contexts
      have h3 := roundUp_lt (a := 8) (by decide)
        (Giop.contextListEnd (r.operationOffset false + (r.operation.length + 1)) r.contexts)
      have hrun := readServiceContext_list (d := d) hcontext
        (by rw [RequestContent.extent_front]; omega)
        (by rw [RequestContent.extent_front]; exact hext) hD hc
      obtain ⟨op, rfl, hscan, hat⟩ := scanRequestHeader_of hfront hrun (by omega) (by omega)
        (by rw [RequestContent.extent_front]; omega) hD hl
      rw [RequestContent.extent_front] at hscan
      exact ⟨hscan, hat⟩

/-- **The header of a reply.** -/
theorem scanReplyHeader_content {r : ReplyContent}
    (h : Laid D 12 (r.items e d.majorVersion d.minorVersion))
    (hext : Within (extent 12 (r.items e d.majorVersion d.minorVersion))) (hD : D.length < 2 ^ 64)
    (hc : r.heard d.majorVersion ≠ [] → d.connection.isSome) :
    scanReplyHeader (d.on D 12 e) = .ok r.header
      ({ d with
          connection := Connection.adoptAll (r.heard d.majorVersion) d.connection
          requestId := r.requestId
          replyStatus := r.replyStatus }.on D (r.stop d.majorVersion d.minorVersion) e) := by
  simp only [ReplyContent.items] at h hext
  -- the service contexts stand in front, behind or nowhere
  by_cases hold : d.majorVersion = 1 ∧ d.minorVersion < 2
  · have hnew : ¬ (d.majorVersion = 1 ∧ d.minorVersion ≥ 2) := by omega
    have hheard : r.heard d.majorVersion = r.contexts.flatMap ServiceContext.points :=
      if_pos hold.1
    have hstop : r.stop d.majorVersion d.minorVersion =
        roundUp 4 (Giop.contextListEnd 12 r.contexts) + 8 := if_pos hold
    have hsame : roundUp 4 (roundUp 4 (Giop.contextListEnd 12 r.contexts) + 4) =
        roundUp 4 (Giop.contextListEnd 12 r.contexts) + 4 :=
      roundUp_eq_self (by
        have hmod := roundUp_mod (a := 4) (by decide) (Giop.contextListEnd 12 r.contexts)
        omega)
    rw [if_pos hold, if_neg hnew, List.append_nil] at h hext
    obtain ⟨hfront, hrest⟩ := laid_append.1 h
    rw [Giop.extent_contextList] at hrest
    simp only [extent_append, Giop.extent_contextList, Cdr.extent_ulong, hsame] at hext
    have hround := le_roundUp 4 (Giop.contextListEnd 12 r.contexts)
    rw [hheard] at hc ⊢
    have hcontexts := readServiceContext_list hfront le_rfl (show _ < _ by omega) hD hc
    rw [scanReplyHeader_legacy_of hold hcontexts hrest hD, hsame, hstop]
    rfl
  · have htwenty : roundUp 4 (roundUp 4 12 + 4) + 4 = 20 := rfl
    rw [if_neg hold, List.nil_append, ← List.append_assoc] at h hext
    obtain ⟨hfront, hbehind⟩ := laid_append.1 h
    rw [scanReplyHeader_since hold hfront hD]
    simp only [extent_append, Cdr.extent_ulong, htwenty] at hbehind hext
    by_cases hnew : d.majorVersion = 1 ∧ d.minorVersion ≥ 2
    · have hheard : r.heard d.majorVersion = r.contexts.flatMap ServiceContext.points :=
        if_pos hnew.1
      have hstop : r.stop d.majorVersion d.minorVersion = Giop.contextListEnd 20 r.contexts := by
        rw [ReplyContent.stop, if_neg hold, if_pos hnew]
      simp only [if_pos hnew, Giop.extent_contextList] at hbehind hext ⊢
      rw [hheard] at hc ⊢
      rw [hstop]
      exact bind_ok (readServiceContext_list
        (d := { d with requestId := r.requestId, replyStatus := r.replyStatus }) hbehind (by decide)
        hext hD hc) _
    · have hheard : r.heard d.majorVersion = [] := if_neg fun hone => hold ⟨hone, by omega⟩
      have hstop : r.stop d.majorVersion d.minorVersion = 20 := by
        rw [ReplyContent.stop, if_neg hold, if_neg hnew]
      rw [hheard, Connection.adoptAll_nil, hstop]
      simp only [if_neg hnew]
      rfl

/-- **A locate request.** -/
theorem scanLocateRequest_content {legacy : Bool} {r : LocateContent}
    (h : Laid D 12 (r.items e legacy)) (hext : Within (extent 12 (r.items e legacy)))
    (hD : D.length < 2 ^ 64) (hl : d.isLegacy = legacy) :
    scanLocateRequest (d.on D 12 e) = .ok (r.header legacy)
        ({ d with requestId := r.requestId }.on D (r.stop legacy) e) ∧
      At D (LocateContent.keyOffset legacy) r.objectKey := by
  obtain ⟨buffer, c, major, minor, t, l, i, s⟩ := d
  have hlegacy : ∀ b : CDRDecoder, isLegacy ⟨b, c, major, minor, t, l, r.requestId, s⟩ = legacy :=
    fun _ => hl
  obtain ⟨hid, hkey⟩ := laid_append.1 h
  rw [LocateContent.items, extent_append] at hext
  rw [Cdr.extent_ulong] at hkey hext
  rw [scanLocateRequest, bind_ok (readUlong_on hid hD), modify_bind, get_bind]
  simp only [hlegacy]
  cases legacy with
  | true =>
      have hblob : Laid D 16 (Cdr.blob e r.objectKey) := hkey
      have hlength : 20 + r.objectKey.length < 2 ^ 32 + 12 := by
        rw [if_pos rfl, Cdr.extent_blob] at hext
        exact hext
      refine ⟨?_, at_blob hblob⟩
      rw [if_pos rfl]
      exact bind_ok (readBlobView_on (d := ⟨buffer, c, major, minor, t, l, r.requestId, s⟩) hblob
        (by omega) hD) _
  | false =>
      have htarget : Laid D 16 (Cdr.ushort e AddressingDisposition.keyAddr.toUshort ++
        Cdr.blob e r.objectKey) := hkey
      have hblob := (laid_append.1 htarget).2
      rw [Cdr.extent_ushort] at hblob
      have hlength : 24 + r.objectKey.length < 2 ^ 32 + 12 := by
        rw [if_neg Bool.false_ne_true, extent_append, Cdr.extent_ushort, Cdr.extent_blob] at hext
        exact hext
      refine ⟨?_, at_blob hblob⟩
      rw [if_neg Bool.false_ne_true]
      exact bind_ok (readTarget_run (d := ⟨buffer, c, major, minor, t, l, r.requestId, s⟩) htarget
        (by omega) hD) _

end GIOPDecoder

end Corba
