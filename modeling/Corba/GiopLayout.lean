/-
How GIOP lays out its messages, and that the encoder does.

The layouts are stated for either byte order, without saying how they come about.  The encoder
comes to them by detours: it goes back to fill in counts and sizes, and writes the header every
message begins with at the very end.

Main definitions:

* `Corba.Giop.header`, `requestHeader`, `replyHeader`, `reference`, … — the layouts;
* `Corba.GIOPEncoder.Writes` — a program lays out items at the offset of the encoder.

Main results:

* `Corba.GIOPEncoder.writes_encapsulation` — the size of an encapsulation is filled in correctly;
* `Corba.GIOPEncoder.writes_serviceContext` — and so is the number of service contexts;
* `Corba.GIOPEncoder.encodeRequest_run`, `Corba.GIOPEncoder.writes_reference` — the layouts of a
  request header and of a reference;
* `Corba.GIOPEncoder.setGIOPHeader_spec` — the header is put in front of what is there.
-/

import Corba.Giop

set_option relaxedAutoImplicit false
set_option autoImplicit false

namespace Corba

open Layout ByteOrder Placed Exec

namespace Giop

/-! ### The layouts -/

/-- The octet that announces a byte order. -/
def endianFlag (e : Endian) : UInt8 := if e = .big then 0 else 1

/-- An encapsulation that begins at `o`.  What it holds is in a byte order of its own. -/
def encapsulation (e : Endian) (o : ℕ) (type : UInt32) (inner : Endian) (body : Cdr.Items) :
    Cdr.Items :=
  Cdr.ulong e type ++ Cdr.sized e (roundUp 4 o + 4) (Cdr.octet (endianFlag inner) ++ body)

/-- What every message begins with. -/
def header (e : Endian) (major minor : UInt8) (type : MessageType) (length : UInt32) : Cdr.Items :=
  Cdr.octet 0x47 ++ (Cdr.octet 0x49 ++ (Cdr.octet 0x4f ++ (Cdr.octet 0x50 ++ (Cdr.octet major ++
    (Cdr.octet minor ++ (Cdr.octet (endianFlag e) ++ (Cdr.octet type.toOctet ++
      Cdr.ulong e length)))))))

/-- The end a peer can be reached at. -/
def listenPoint (e : Endian) (a : HostAndPort) : Cdr.Items :=
  Cdr.string e a.host ++ Cdr.ushort e a.port

/-- The service contexts the encoder writes at `o`: at most the end of the connection that is near
to the encoder. -/
def serviceContext (e : Endian) (o : ℕ) : Option Connection → Cdr.Items
  | none => Cdr.ulong e 0
  | some c =>
      if c.didSendBiDirIIOP then Cdr.ulong e 0
      else
        Cdr.ulong e 1 ++
          encapsulation e (roundUp 4 o + 4) ServiceId.biDirIIOP.toUlong e
            (Cdr.ulong e 1 ++ listenPoint e c.protocolLocal)

/-- A connection to which the near end has been announced. -/
def announced : Option Connection → Option Connection
  | none => none
  | some c => some { c with didSendBiDirIIOP := true }

/-- The part of a request header the versions have in common. -/
def requestFront (e : Endian) (requestId : UInt32) (responseFlags : UInt8) : Cdr.Items :=
  Cdr.ulong e requestId ++ Cdr.octet responseFlags ++ [.skip 3]

/-- The header of a request of GIOP 1.0 and 1.1, behind the first twelve octets. -/
def requestHeaderLegacy (e : Endian) (c : Option Connection) (objectKey operation : Octets)
    (requestId : UInt32) (responseFlags : UInt8) : Cdr.Items :=
  serviceContext e 12 c ++ (requestFront e requestId responseFlags ++ (Cdr.blob e objectKey ++
    (Cdr.string e operation ++ Cdr.ulong e 0)))

/-- The header of a request since GIOP 1.2, up to the service contexts. -/
def requestHeaderFront (e : Endian) (objectKey operation : Octets)
    (requestId : UInt32) (responseFlags : UInt8) : Cdr.Items :=
  requestFront e requestId responseFlags ++
    (Cdr.ushort e AddressingDisposition.keyAddr.toUshort ++ (Cdr.blob e objectKey ++
      Cdr.string e operation))

/-- The header of a request since GIOP 1.2. -/
def requestHeader (e : Endian) (c : Option Connection) (objectKey operation : Octets)
    (requestId : UInt32) (responseFlags : UInt8) : Cdr.Items :=
  requestHeaderFront e objectKey operation requestId responseFlags ++
    (serviceContext e
      (extent 12 (requestHeaderFront e objectKey operation requestId responseFlags)) c ++
    [.align 8])

/-- The header of a reply without service contexts.  Their number stands in front or behind. -/
def replyHeader (e : Endian) (major minor : ℕ) (requestId : UInt32) (status : ReplyStatus) :
    Cdr.Items :=
  (if major = 1 ∧ minor < 2 then Cdr.ulong e 0 else []) ++
    (Cdr.ulong e requestId ++ (Cdr.ulong e status.toUlong ++
      (if major = 1 ∧ minor ≥ 2 then Cdr.ulong e 0 else [])))

/-- The header of a locate reply. -/
def locateReplyHeader (e : Endian) (requestId : UInt32) (status : LocateStatusType) : Cdr.Items :=
  Cdr.ulong e requestId ++ Cdr.ulong e status.toUlong

/-- What an IIOP profile says in every version. -/
def profileFront (e : Endian) (major minor : ℕ) (a : HostAndPort) (objectKey : Octets) :
    Cdr.Items :=
  Cdr.octet (endianFlag e) ++ (Cdr.octet (UInt8.ofNat major) ++ (Cdr.octet (UInt8.ofNat minor) ++
    (listenPoint e a ++ Cdr.blob e objectKey)))

/-- The components of a profile: the type of the ORB. -/
def components (e : Endian) (o : ℕ) : Cdr.Items :=
  Cdr.ulong e 1 ++
    encapsulation e (roundUp 4 o + 4) ComponentId.orbType e (Cdr.ulong e 0x4d313300)

/-- An IIOP profile that begins at `o`.  Version 1.0 has no components. -/
def profile (e : Endian) (o major minor : ℕ) (a : HostAndPort) (objectKey : Octets) : Cdr.Items :=
  profileFront e major minor a objectKey ++
    (if major ≠ 1 ∨ minor ≠ 0 then
      components e (extent o (profileFront e major minor a objectKey))
    else [])

/-- The type of a reference and the announcement of its only profile. -/
def referenceFront (e : Endian) (repositoryId : Octets) : Cdr.Items :=
  Cdr.string e repositoryId ++ (Cdr.ulong e 1 ++ Cdr.ulong e ProfileId.tagInternetIop.toUlong)

/-- A reference that begins at `o`. -/
def reference (e : Endian) (o major minor : ℕ) (repositoryId : Octets) (a : HostAndPort)
    (objectKey : Octets) : Cdr.Items :=
  referenceFront e repositoryId ++
    Cdr.sized e (extent o (referenceFront e repositoryId))
      (profile e (roundUp 4 (extent o (referenceFront e repositoryId)) + 4) major minor a objectKey)

/-! ### Where the headers begin -/

/-- The encoder skips ten octets only and is brought to the twelfth by the first number. -/
theorem extent_ten (xs : Cdr.Items) :
    extent 10 (.align 4 :: xs) = extent 12 (.align 4 :: xs) := rfl

theorem laid_ten {D : Octets} {xs : Cdr.Items} :
    Laid D 10 (.align 4 :: xs) ↔ Laid D 12 (.align 4 :: xs) := by
  rw [laid_align, laid_align]
  rfl

theorem put_ten (b : CDREncoder) (xs : Cdr.Items) :
    CDREncoder.put (.align 4 :: xs) { b with offset := 10 } =
      CDREncoder.put (.align 4 :: xs) { b with offset := 12 } := by
  have hround : roundUp 4 10 = roundUp 4 12 := rfl
  simp only [CDREncoder.put, write, extent_align, hround]

theorem serviceContext_ten (e : Endian) (c : Option Connection) :
    serviceContext e 10 c = serviceContext e 12 c := by
  have hround : roundUp 4 10 = roundUp 4 12 := rfl
  cases c with
  | none => rfl
  | some c => simp only [serviceContext, hround]

/-! ### Where the layouts end -/

@[simp] theorem extent_encapsulation (o : ℕ) (e : Endian) (type : UInt32) (inner : Endian)
    (body : Cdr.Items) :
    extent o (encapsulation e o type inner body) = extent (roundUp 4 o + 9) body := by
  have hsize : roundUp 4 (roundUp 4 o + 4) = roundUp 4 o + 4 :=
    roundUp_roundUp_add (by decide) (by decide) o
  simp [encapsulation, extent_append, hsize]

@[simp] theorem extent_listenPoint (o : ℕ) (e : Endian) (a : HostAndPort) :
    extent o (listenPoint e a) = roundUp 2 (roundUp 4 o + 4 + (a.host.length + 1)) + 2 := by
  simp [listenPoint, extent_append]

/-- How many octets a profile has. -/
def profileSize (major minor : ℕ) (a : HostAndPort) (objectKey : Octets) : ℕ :=
  extent 0 (profile .big 0 major minor a objectKey)

/-- A profile has the same size wherever it begins. -/
theorem extent_profile {p : ℕ} (hp : p % 4 = 0) (e : Endian) (major minor : ℕ) (a : HostAndPort)
    (objectKey : Octets) :
    extent p (profile e p major minor a objectKey) = p + profileSize major minor a objectKey := by
  have htwo : p % 2 = 0 := by omega
  rw [profileSize, profile, profile]
  split
  · simp only [profileFront, components, extent_append, extent_listenPoint, extent_encapsulation,
      Cdr.extent_octet, Cdr.extent_blob, Cdr.extent_ulong, Nat.add_assoc, roundUp_add hp,
      roundUp_add htwo, Nat.zero_add]
  · simp only [profileFront, extent_append, extent_listenPoint, Cdr.extent_octet, Cdr.extent_blob,
      extent_nil, Nat.add_assoc, roundUp_add hp, roundUp_add htwo, Nat.zero_add]

/-- Where the profile of a reference begins. -/
def profileStart (o : ℕ) (repositoryId : Octets) : ℕ :=
  roundUp 4 (roundUp 4 (roundUp 4 o + 4 + (repositoryId.length + 1)) + 4) + 8

theorem extent_referenceFront (o : ℕ) (e : Endian) (repositoryId : Octets) :
    roundUp 4 (extent o (referenceFront e repositoryId)) + 4 = profileStart o repositoryId := by
  have hmod := roundUp_mod (a := 4) (by decide)
    (roundUp 4 (roundUp 4 o + 4 + (repositoryId.length + 1)) + 4)
  simp only [referenceFront, extent_append, Cdr.extent_string, Cdr.extent_ulong, profileStart]
  rw [roundUp_eq_self (o := roundUp 4 _ + 4) (by omega)]

theorem extent_reference (o : ℕ) (e : Endian) (major minor : ℕ) (repositoryId : Octets)
    (a : HostAndPort) (objectKey : Octets) :
    extent o (reference e o major minor repositoryId a objectKey) =
      profileStart o repositoryId + profileSize major minor a objectKey := by
  have hstart : profileStart o repositoryId % 4 = 0 := by
    have := roundUp_mod (a := 4) (by decide)
      (roundUp 4 (roundUp 4 o + 4 + (repositoryId.length + 1)) + 4)
    rw [profileStart]
    omega
  rw [reference, extent_append, Cdr.extent_sized, extent_referenceFront, extent_profile hstart]

end Giop

/-! ### What the encoder lays out -/

namespace GIOPEncoder

/-- The program ends normally, has laid out the items and leaves the encoder with the given
connection. -/
def Writes (m : EncodeM Unit) (e : GIOPEncoder) (xs : Cdr.Items) (c : Option Connection) : Prop :=
  ∃ b, m e = .ok () { e with buffer := b, connection := c } ∧ e.buffer.Wrote xs b

theorem writes_put {f : CDREncoder → CDREncoder} {xs : Cdr.Items} (e : GIOPEncoder)
    (hf : f e.buffer = e.buffer.put xs) : Writes (write f) e xs e.connection :=
  ⟨f e.buffer, rfl, hf ▸ CDREncoder.Wrote.put xs e.buffer⟩

theorem writes_nil (e : GIOPEncoder) : Writes (pure ()) e [] e.connection :=
  ⟨e.buffer, rfl, CDREncoder.Wrote.put [] e.buffer⟩

/-- One program after the other.  Where the second one starts is known from the first one. -/
theorem Writes.bind {m m' : EncodeM Unit} {e : GIOPEncoder} {xs ys : Cdr.Items}
    {c c' : Option Connection} (h : Writes m e xs c)
    (h' : ∀ b, e.buffer.Wrote xs b → Writes m' { e with buffer := b, connection := c } ys c') :
    Writes (m >>= fun _ => m') e (xs ++ ys) c' := by
  obtain ⟨b, hrun, hb⟩ := h
  obtain ⟨b', hrun', hb'⟩ := h' b hb
  refine ⟨b', ?_, hb.trans hb'⟩
  rw [bind_ok hrun, hrun']

/-- A look at the encoder. -/
theorem writes_get {f : GIOPEncoder → EncodeM Unit} {e : GIOPEncoder} {xs : Cdr.Items}
    {c : Option Connection} (h : Writes (f e) e xs c) : Writes (get >>= f) e xs c := by
  obtain ⟨b, hrun, hb⟩ := h
  exact ⟨b, by rw [bind_ok (get_run e), hrun], hb⟩

/-- A change of the connection. -/
theorem writes_connection {m : EncodeM Unit} {e : GIOPEncoder} {xs : Cdr.Items}
    {connection c : Option Connection} (h : Writes m { e with connection } xs c) :
    Writes (do modify ({ · with connection := connection }); m) e xs c := by
  obtain ⟨b, hrun, hb⟩ := h
  exact ⟨b, by rw [bind_ok (modify_run _ e), hrun], hb⟩

theorem writes_octet (e : GIOPEncoder) (v : UInt8) :
    Writes (writeOctet v) e (Cdr.octet v) e.connection := writes_put e rfl

variable [Platform]

theorem writes_endian (e : GIOPEncoder) :
    Writes writeEndian e (Cdr.octet (Giop.endianFlag native)) e.connection := writes_put e rfl

theorem writes_ushort (e : GIOPEncoder) (v : UInt16) :
    Writes (writeUshort v) e (Cdr.ushort native v) e.connection :=
  writes_put e (CDREncoder.writeUshort_eq _ v)

theorem writes_ulong (e : GIOPEncoder) (v : UInt32) :
    Writes (writeUlong v) e (Cdr.ulong native v) e.connection :=
  writes_put e (CDREncoder.writeUlong_eq _ v)

theorem writes_string (e : GIOPEncoder) (v : Octets) :
    Writes (writeString v) e (Cdr.string native v) e.connection :=
  writes_put e (CDREncoder.writeString_eq _ v)

theorem writes_blob (e : GIOPEncoder) (v : Octets) :
    Writes (writeBlob v) e (Cdr.blob native v) e.connection :=
  writes_put e (CDREncoder.writeBlob_eq _ v)

/-- Contents between the reservation of their size and its being filled in. -/
theorem writes_sized {closure : EncodeM Unit} {e : GIOPEncoder} {body : Cdr.Items}
    {c : Option Connection}
    (h : Writes closure { e with buffer := e.buffer.reserveSize } body c) :
    Writes (do reserveSize; closure; fillInSize) e
      (Cdr.sized native e.buffer.offset body) c := by
  obtain ⟨b, hrun, hb⟩ := h
  obtain ⟨b', hfill, hb'⟩ := hb.sized
  refine ⟨b', ?_, hb'⟩
  have hres : reserveSize e = .ok () { e with buffer := e.buffer.reserveSize } := rfl
  rw [bind_ok hres, bind_ok hrun, fillInSize, hfill]

/-- An encapsulation: the closure runs behind the octet that announces the byte order. -/
theorem writes_encapsulation {closure : EncodeM Unit} {e : GIOPEncoder} {body : Cdr.Items}
    {c : Option Connection} (type : UInt32)
    (h : ∀ b, Writes closure { e with buffer := b } body c) :
    Writes (writeEncapsulation type closure) e
      (Giop.encapsulation native e.buffer.offset type native body) c := by
  refine Writes.bind (writes_ulong e type) fun b hb => ?_
  have hoff : b.offset = roundUp 4 e.buffer.offset + 4 := by
    rw [hb.offset, Cdr.extent_ulong]
  rw [← hoff]
  have hclosure : Writes (do writeEndian; closure) { e with buffer := b.reserveSize }
      (Cdr.octet (Giop.endianFlag native) ++ body) c :=
    Writes.bind (writes_endian _) fun b' _ => h b'
  have hsized := writes_sized (e := { e with buffer := b }) hclosure
  simpa only [bind_assoc] using hsized

/-! ### Service contexts -/

/-- Going back to a number and coming forward again. -/
theorem rewrite_ulong {e b : CDREncoder} {v w : UInt32} {ys : Cdr.Items}
    (h : e.Wrote (Cdr.ulong native v ++ ys) b) :
    e.Wrote (Cdr.ulong native w ++ ys)
      { CDREncoder.writeUlong w { b with offset := e.offset } with offset := b.offset } := by
  have hpatch := @CDREncoder.Wrote.patch [.align 4] ys _ (native.bytes 4 w.toNat) e b h
    (by simp [Item.next])
  rw [CDREncoder.writeUlong_eq]
  exact hpatch

/-- The program between the two writes of the number, which is written again from where it was
written first. -/
theorem writes_counted {m : EncodeM Unit} {e : GIOPEncoder} {xs : Cdr.Items}
    {c : Option Connection} (count : UInt32)
    (h : Writes (do writeUlong 0; m) e (Cdr.ulong native 0 ++ xs) c) :
    Writes (do
      writeUlong 0
      m
      let offset0 := (← get).buffer.offset
      setOffset e.buffer.offset
      writeUlong count
      setOffset offset0) e (Cdr.ulong native count ++ xs) c := by
  obtain ⟨b, hrun, hb⟩ := h
  refine ⟨_, ?_, rewrite_ulong (w := count) hb⟩
  rw [← bind_assoc, bind_ok hrun, bind_ok (get_run _)]
  rfl

theorem writes_listenPoint (e : GIOPEncoder) (a : HostAndPort) :
    Writes (do writeString a.host; writeUshort a.port) e (Giop.listenPoint native a)
      e.connection :=
  Writes.bind (writes_string e a.host) fun _ _ => writes_ushort _ a.port

theorem writes_serviceContext (e : GIOPEncoder) :
    Writes writeServiceContext e (Giop.serviceContext native e.buffer.offset e.connection)
      (Giop.announced e.connection) := by
  obtain ⟨c, major, minor, b⟩ := e
  cases c with
  | none => exact writes_ulong _ 0
  | some c =>
      obtain ⟨remote, near, sent⟩ := c
      refine writes_get ?_
      cases sent with
      | true =>
          have h := @writes_counted _ (pure ()) ⟨some ⟨remote, near, true⟩, major, minor, b⟩ []
            (some ⟨remote, near, true⟩) 0 (by simpa using writes_ulong _ 0)
          simpa [Giop.serviceContext, Giop.announced] using h
      | false =>
          -- the flag is set before the near end is written
          have hbody : ∀ b', Writes
              (do writeUlong 1; writeString near.host; writeUshort near.port)
              ⟨some ⟨remote, near, true⟩, major, minor, b'⟩
              (Cdr.ulong native 1 ++ Giop.listenPoint native near)
              (some ⟨remote, near, true⟩) :=
            fun b' => Writes.bind (writes_ulong _ 1) fun _ _ => writes_listenPoint _ near
          have hfirst := writes_ulong ⟨some ⟨remote, near, false⟩, major, minor, b⟩ 0
          have h := writes_counted
            (m := do
              modify ({ · with connection := some ⟨remote, near, true⟩ })
              writeEncapsulation ServiceId.biDirIIOP.toUlong
                (do writeUlong 1; writeString near.host; writeUshort near.port)) 1
            (Writes.bind hfirst fun b' hb' => by
              have hoff : b'.offset = roundUp 4 b.offset + 4 := by
                rw [hb'.offset, Cdr.extent_ulong]
              have henc := writes_encapsulation
                (e := ⟨some ⟨remote, near, true⟩, major, minor, b'⟩)
                ServiceId.biDirIIOP.toUlong hbody
              rw [hoff] at henc
              exact writes_connection henc)
          simpa [Giop.serviceContext, Giop.announced] using h

/-! ### Headers -/

theorem writes_requestFront (e : GIOPEncoder) (requestId : UInt32) (responseFlags : UInt8)
    {m : EncodeM Unit} {xs : Cdr.Items} {c : Option Connection}
    (h : ∀ b, e.buffer.Wrote (Giop.requestFront native requestId responseFlags) b →
      Writes m { e with buffer := b } xs c) :
    Writes (do
      writeUlong requestId
      writeOctet responseFlags
      write fun b => { b with offset := b.offset + 3 }
      m) e (Giop.requestFront native requestId responseFlags ++ xs) c := by
  have hfront : Writes (do
      writeUlong requestId
      writeOctet responseFlags
      write fun b => { b with offset := b.offset + 3 }) e
      (Giop.requestFront native requestId responseFlags) e.connection := by
    rw [Giop.requestFront, List.append_assoc]
    refine Writes.bind (writes_ulong e requestId) fun b _ => ?_
    refine Writes.bind (writes_octet _ responseFlags) fun b _ => ?_
    exact writes_put _ rfl
  simpa only [bind_assoc] using hfront.bind h

/-- A request header: the layout of the version, and the near end of the connection has been
announced. -/
theorem encodeRequest_run (e : GIOPEncoder) (objectKey operation : Octets) (requestId : UInt32)
    (responseExpected : Bool) :
    ∃ b, encodeRequest objectKey operation requestId responseExpected e =
        .ok () { e with buffer := b, connection := Giop.announced e.connection } ∧
      CDREncoder.Wrote
        (if e.isLegacy then
          Giop.requestHeaderLegacy native e.connection objectKey operation requestId
            (if responseExpected then 1 else 0)
        else
          Giop.requestHeader native e.connection objectKey operation requestId
            (if responseExpected then 3 else 0))
        { e.buffer with offset := 10 } b := by
  obtain ⟨c, major, minor, buffer⟩ := e
  have hskip : skipGIOPHeader ⟨c, major, minor, buffer⟩ =
      .ok () ⟨c, major, minor, { buffer with offset := 10 }⟩ := rfl
  rw [encodeRequest, bind_ok hskip, bind_ok (get_run _)]
  cases hl : isLegacy ⟨c, major, minor, { buffer with offset := 10 }⟩ with
  | true =>
      have hl' : isLegacy ⟨c, major, minor, buffer⟩ = true := hl
      simp only [hl', if_true]
      rw [Giop.requestHeaderLegacy, ← Giop.serviceContext_ten]
      refine Writes.bind (writes_serviceContext ⟨c, major, minor, _⟩) fun b _ => ?_
      refine writes_requestFront _ _ _ fun b _ => ?_
      refine Writes.bind (writes_blob _ objectKey) fun b _ => ?_
      exact Writes.bind (writes_string _ operation) fun b _ => writes_ulong _ 0
  | false =>
      have hl' : isLegacy ⟨c, major, minor, buffer⟩ = false := hl
      simp only [hl', Bool.false_eq_true, if_false]
      have hfront : Writes (do
          writeUlong requestId
          writeOctet (if responseExpected then 3 else 0)
          write fun b => { b with offset := b.offset + 3 }
          writeUshort AddressingDisposition.keyAddr.toUshort
          writeBlob objectKey
          writeString operation) ⟨c, major, minor, { buffer with offset := 10 }⟩
          (Giop.requestHeaderFront native objectKey operation requestId
            (if responseExpected then 3 else 0)) c := by
        refine writes_requestFront _ _ _ fun b _ => ?_
        refine Writes.bind (writes_ushort _ _) fun b _ => ?_
        exact Writes.bind (writes_blob _ objectKey) fun b _ => writes_string _ operation
      have hlast : ∀ b : CDREncoder, b.align8 = b.put [.align 8] := CDREncoder.align8_eq
      have hrest : ∀ b, CDREncoder.Wrote (Giop.requestHeaderFront native objectKey operation
          requestId (if responseExpected then 3 else 0)) { buffer with offset := 10 } b →
          Writes (do writeServiceContext; write (·.align8)) ⟨c, major, minor, b⟩
            (Giop.serviceContext native (extent 12 (Giop.requestHeaderFront native objectKey
              operation requestId (if responseExpected then 3 else 0))) c ++ [.align 8])
            (Giop.announced c) := by
        intro b hb
        have hoff : b.offset = extent 12 (Giop.requestHeaderFront native objectKey operation
          requestId (if responseExpected then 3 else 0)) := hb.offset.trans (Giop.extent_ten _)
        rw [← hoff]
        exact Writes.bind (writes_serviceContext ⟨c, major, minor, b⟩) fun b' _ =>
          writes_put _ (hlast b')
      have hall := hfront.bind hrest
      simp only [bind_assoc] at hall
      exact hall

omit [Platform] in
theorem setOffset_run (e : GIOPEncoder) (offset : ℕ) :
    setOffset offset e = .ok () { e with buffer := { e.buffer with offset } } := rfl

omit [Platform] in
theorem writeOctet_run (e : GIOPEncoder) (v : UInt8) :
    writeOctet v e = .ok () { e with buffer := e.buffer.put (Cdr.octet v) } := rfl

theorem writeEndian_run (e : GIOPEncoder) :
    writeEndian e = .ok () { e with
      buffer := e.buffer.put (Cdr.octet (Giop.endianFlag native)) } := rfl

theorem writeUlong_run (e : GIOPEncoder) (v : UInt32) :
    writeUlong v e = .ok () { e with buffer := e.buffer.put (Cdr.ulong native v) } := by
  rw [← CDREncoder.writeUlong_eq]
  rfl

theorem setReplyHeader_run (e : GIOPEncoder) (requestId : UInt32) (replyStatus : ReplyStatus) :
    setReplyHeader requestId replyStatus e = .ok () { e with
      buffer := CDREncoder.put
        (Giop.replyHeader native e.majorVersion e.minorVersion requestId replyStatus)
        { e.buffer with offset := 10 } } := by
  obtain ⟨c, major, minor, buffer⟩ := e
  have hskip : skipGIOPHeader ⟨c, major, minor, buffer⟩ =
      .ok () ⟨c, major, minor, { buffer with offset := 10 }⟩ := rfl
  rw [setReplyHeader, bind_ok hskip, bind_ok (get_run _)]
  -- the number of service contexts is written in front, behind or not at all
  by_cases hfront : major = 1 ∧ minor < 2
  · have hbehind : ¬ (major = 1 ∧ minor ≥ 2) := by omega
    simp only [if_pos hfront, if_neg hbehind, Giop.replyHeader, CDREncoder.put_append]
    rw [bind_ok (writeUlong_run _ _), bind_ok (writeUlong_run _ _),
      bind_ok (writeUlong_run _ _)]
    rfl
  · by_cases hbehind : major = 1 ∧ minor ≥ 2
    · simp only [if_neg hfront, if_pos hbehind, Giop.replyHeader, CDREncoder.put_append]
      rw [bind_ok (writeUlong_run _ _), bind_ok (writeUlong_run _ _), writeUlong_run]
      rfl
    · simp only [if_neg hfront, if_neg hbehind, Giop.replyHeader, CDREncoder.put_append]
      rw [bind_ok (writeUlong_run _ _), bind_ok (writeUlong_run _ _)]
      rfl

theorem encodeLocateReply_run (e : GIOPEncoder) (requestId : UInt32)
    (status : LocateStatusType) :
    encodeLocateReply requestId status e = .ok () { e with
      buffer := CDREncoder.put (Giop.locateReplyHeader native requestId status)
        { e.buffer with offset := 10 } } := by
  have hskip : skipGIOPHeader e =
      .ok () { e with buffer := { e.buffer with offset := 10 } } := rfl
  rw [encodeLocateReply, bind_ok hskip, bind_ok (writeUlong_run _ _), writeUlong_run,
    Giop.locateReplyHeader, CDREncoder.put_append]

/-- The header every message begins with is put in front of what is there. -/
theorem setGIOPHeader_run (e : GIOPEncoder) (type : MessageType) :
    setGIOPHeader type e = .ok () { e with
      buffer :=
        { CDREncoder.put (Giop.header native (UInt8.ofNat e.majorVersion)
            (UInt8.ofNat e.minorVersion) type (UInt32.ofNat e.buffer.offset - 12))
            { e.buffer.reserve with offset := 0 } with
          offset := e.buffer.offset } } := by
  obtain ⟨c, major, minor, buffer⟩ := e
  rw [setGIOPHeader, bind_ok (write_run _ _), bind_ok (get_run _), bind_ok (setOffset_run _ _),
    bind_ok (writeOctet_run _ _), bind_ok (writeOctet_run _ _), bind_ok (writeOctet_run _ _),
    bind_ok (writeOctet_run _ _), bind_ok (writeOctet_run _ _), bind_ok (writeOctet_run _ _),
    bind_ok (writeEndian_run _), bind_ok (writeOctet_run _ _), bind_ok (writeUlong_run _ _),
    setOffset_run]
  simp only [Giop.header, CDREncoder.put_append]
  rfl

omit [Platform] in
theorem extent_header (e : Endian) (major minor : UInt8) (type : MessageType) (length : UInt32) :
    extent 0 (Giop.header e major minor type length) = 12 := by
  simp only [Giop.header, extent_append, Cdr.extent_octet, Cdr.extent_ulong]
  rfl

/-- Putting the header in front of a message: the vector then reaches up to the offset, and the
message is as it was. -/
theorem setGIOPHeader_spec (e : GIOPEncoder) (type : MessageType)
    (hlen : e.buffer.data.length ≤ e.buffer.offset) (hoff : 12 ≤ e.buffer.offset) :
    ∃ D, setGIOPHeader type e = .ok () { e with buffer := { e.buffer with data := D } } ∧
      D.length = e.buffer.offset ∧
      Laid D 0 (Giop.header native (UInt8.ofNat e.majorVersion) (UInt8.ofNat e.minorVersion) type
        (UInt32.ofNat (e.buffer.offset - 12))) ∧
      Keep 12 e.buffer.offset e.buffer.data D := by
  have hnum : UInt32.ofNat e.buffer.offset - 12 = UInt32.ofNat (e.buffer.offset - 12) := by
    rw [UInt32.ofNat_sub hoff]
    rfl
  have hpad : (padTo 0 e.buffer.offset e.buffer.data).length = e.buffer.offset := by
    rw [length_padTo]
    omega
  refine ⟨_, setGIOPHeader_run e type, ?_, ?_, ?_⟩
  · have hle := length_write_le 0 (padTo 0 e.buffer.offset e.buffer.data) 0
      (Giop.header native (UInt8.ofNat e.majorVersion) (UInt8.ofNat e.minorVersion) type
        (UInt32.ofNat e.buffer.offset - 12))
    have hge := length_le_write 0 (padTo 0 e.buffer.offset e.buffer.data) 0
      (Giop.header native (UInt8.ofNat e.majorVersion) (UInt8.ofNat e.minorVersion) type
        (UInt32.ofNat e.buffer.offset - 12))
    rw [extent_header] at hle
    rw [hpad] at hle hge
    exact le_antisymm (hle.trans_eq (Nat.max_eq_left hoff)) hge
  · rw [← hnum]
    exact laid_write 0 _ 0 _
  · refine (keep_padTo 0 12 _ e.buffer.offset e.buffer.data).trans ?_
    rw [← extent_header native (UInt8.ofNat e.majorVersion) (UInt8.ofNat e.minorVersion) type
      (UInt32.ofNat e.buffer.offset - 12)]
    exact keep_write_above 0 _ 0 _ _

/-! ### References -/

theorem writes_components (e : GIOPEncoder) :
    Writes (do writeUlong 1; writeEncapsulation ComponentId.orbType (writeUlong 0x4d313300)) e
      (Giop.components native e.buffer.offset) e.connection := by
  refine Writes.bind (writes_ulong e 1) fun b hb => ?_
  have hoff : b.offset = roundUp 4 e.buffer.offset + 4 := by
    rw [hb.offset, Cdr.extent_ulong]
  rw [← hoff]
  exact writes_encapsulation _ fun b' => writes_ulong ⟨_, _, _, b'⟩ _

theorem writes_profile (e : GIOPEncoder) {connection : Connection}
    (hc : e.connection = some connection) (objectKey : Octets) (objectIsAStub : Bool) :
    Writes (writeProfile objectKey objectIsAStub) e
      (Giop.profile native e.buffer.offset e.majorVersion e.minorVersion
        (if objectIsAStub then connection.remote else connection.protocolLocal) objectKey)
      e.connection := by
  obtain ⟨c, major, minor, buffer⟩ := e
  obtain rfl : c = some connection := hc
  have hfront : ∀ a : HostAndPort, Writes (do
      writeEndian
      writeOctet (UInt8.ofNat major)
      writeOctet (UInt8.ofNat minor)
      writeString a.host
      writeUshort a.port
      writeBlob objectKey) ⟨some connection, major, minor, buffer⟩
      (Giop.profileFront native major minor a objectKey) (some connection) := by
    intro a
    refine Writes.bind (writes_endian _) fun b _ => ?_
    refine Writes.bind (writes_octet _ _) fun b _ => ?_
    refine Writes.bind (writes_octet _ _) fun b _ => ?_
    have haddr := (writes_listenPoint ⟨some connection, major, minor, b⟩ a).bind
      fun b _ => writes_blob _ objectKey
    simpa only [bind_assoc] using haddr
  have hrest : ∀ (a : HostAndPort) (b : CDREncoder),
      buffer.Wrote (Giop.profileFront native major minor a objectKey) b →
      Writes (if major ≠ 1 ∨ minor ≠ 0 then do
          writeUlong 1
          writeEncapsulation ComponentId.orbType (writeUlong 0x4d313300) else pure ())
        ⟨some connection, major, minor, b⟩
        (if major ≠ 1 ∨ minor ≠ 0 then
          Giop.components native
            (extent buffer.offset (Giop.profileFront native major minor a objectKey)) else [])
        (some connection) := by
    intro a b hb
    rw [← hb.offset]
    split
    · exact writes_components ⟨some connection, major, minor, b⟩
    · exact writes_nil _
  -- the encoder is looked at behind the first octet, where nothing else has changed
  have hall := fun a => (hfront a).bind (hrest a)
  simp only [bind_assoc] at hall
  cases objectIsAStub with
  | true => exact hall connection.remote
  | false => exact hall connection.protocolLocal

theorem writes_reference (e : GIOPEncoder) {connection : Connection}
    (hc : e.connection = some connection) (repositoryId objectKey : Octets)
    (objectIsAStub : Bool) :
    Writes (writeReference repositoryId objectKey objectIsAStub) e
      (Giop.reference native e.buffer.offset e.majorVersion e.minorVersion repositoryId
        (if objectIsAStub then connection.remote else connection.protocolLocal) objectKey)
      e.connection := by
  have hfront : Writes (do
      writeString repositoryId
      writeUlong 1
      writeUlong ProfileId.tagInternetIop.toUlong) e (Giop.referenceFront native repositoryId)
      e.connection := by
    refine Writes.bind (writes_string e repositoryId) fun b _ => ?_
    exact Writes.bind (writes_ulong _ 1) fun b _ => writes_ulong _ _
  have hrest : ∀ b, e.buffer.Wrote (Giop.referenceFront native repositoryId) b →
      Writes (do reserveSize; writeProfile objectKey objectIsAStub; fillInSize)
        { e with buffer := b }
        (Cdr.sized native (extent e.buffer.offset (Giop.referenceFront native repositoryId))
          (Giop.profile native
            (roundUp 4 (extent e.buffer.offset (Giop.referenceFront native repositoryId)) + 4)
            e.majorVersion e.minorVersion
            (if objectIsAStub then connection.remote else connection.protocolLocal) objectKey))
        e.connection := by
    intro b hb
    have hroom : b.reserveSize.offset = roundUp 4 b.offset + 4 := by
      rw [CDREncoder.reserveSize_eq]
      rfl
    have hprofile := writes_profile { e with buffer := b.reserveSize } hc objectKey objectIsAStub
    rw [← hb.offset, ← hroom]
    exact writes_sized (e := { e with buffer := b }) hprofile
  have hall := hfront.bind hrest
  simp only [bind_assoc] at hall
  exact hall

end GIOPEncoder

end Corba
