/-
What the GIOP decoder makes of headers that are laid out.

A message need not come from the encoder: all that counts here is that its header is laid out in
its buffer.  The decoder then ends where the layout does, and what it has seen on the way is what
the layout was made of.

Main definitions:

* `Corba.GIOPDecoder.on` — a decoder that stands at an offset of some buffer;
* `Corba.Connection.adopt` — a connection after its peer has announced an end.

Main results:

* `Corba.GIOPDecoder.scanGIOPHeader_run`, `Corba.GIOPDecoder.scanRequestHeader_run`,
  `Corba.GIOPDecoder.scanReplyHeader_run` — the headers;
* `Corba.GIOPDecoder.readEncapsulation_run` — encapsulations;
* `Corba.GIOPDecoder.readServiceContext_run` — the service contexts of the encoder.
-/

import Corba.CdrSound
import Corba.GiopDecoder
import Corba.GiopLayout

set_option relaxedAutoImplicit false
set_option autoImplicit false

namespace Corba

open Layout ByteOrder Placed Exec

/-- The far end of a connection is replaced only when both its host and its port are new. -/
def Connection.adopt (c : Connection) (a : HostAndPort) : Connection :=
  if a.host ≠ c.remote.host ∧ a.port ≠ c.remote.port then { c with remote := a } else c

namespace GIOPDecoder

/-- The decoder stands at `o` in `D`, in the byte order `e`. -/
@[reducible] def on (d : GIOPDecoder) (D : Octets) (o : ℕ) (e : Endian) : GIOPDecoder :=
  { d with buffer := ⟨D, o, some e⟩ }

variable {d : GIOPDecoder} {D : Octets} {o : ℕ} {e : Endian}

/-! ### Readers -/

theorem read_on {α : Type} {m : DecodeM α} {a : α} {o' : ℕ} {e' : Endian}
    (h : m ⟨D, o, some e⟩ = .ok a ⟨D, o', some e'⟩) :
    read m (d.on D o e) = .ok a (d.on D o' e') := read_ok h

theorem readOctet_on {v : UInt8} (h : Laid D o (Cdr.octet v)) (hD : D.length < 2 ^ 64) :
    readOctet (d.on D o e) = .ok v (d.on D (o + 1) e) := read_on (CDRDecoder.next_run h hD)

variable [Platform]

theorem readUshort_on {v : UInt16} (h : Laid D o (Cdr.ushort e v)) (hD : D.length < 2 ^ 64) :
    readUshort (d.on D o e) = .ok v (d.on D (roundUp 2 o + 2) e) :=
  read_on (CDRDecoder.readUshort_run h hD)

theorem readUlong_on {v : UInt32} (h : Laid D o (Cdr.ulong e v)) (hD : D.length < 2 ^ 64) :
    readUlong (d.on D o e) = .ok v (d.on D (roundUp 4 o + 4) e) :=
  read_on (CDRDecoder.readUlong_run h hD)

theorem readBlobView_on {v : Octets} (h : Laid D o (Cdr.blob e v)) (hv : v.length < 2 ^ 32)
    (hD : D.length < 2 ^ 64) :
    readBlobView (d.on D o e) =
      .ok ⟨roundUp 4 o + 4, v.length⟩ (d.on D (roundUp 4 o + 4 + v.length) e) :=
  read_on (CDRDecoder.readBlobView_run h hv hD)

theorem readStringView_on {v : Octets} (h : Laid D o (Cdr.string e v))
    (hv : v.length + 1 < 2 ^ 32) (hD : D.length < 2 ^ 64) :
    readStringView (d.on D o e) =
      .ok ⟨roundUp 4 o + 4, v.length⟩ (d.on D (roundUp 4 o + 4 + (v.length + 1)) e) :=
  read_on (CDRDecoder.readStringView_run h hv hD)

omit [Platform] in
theorem octets_on {p : ℕ} {v : Octets} (h : At D p v) :
    octets ⟨p, v.length⟩ (d.on D o e) = .ok v (d.on D o e) :=
  read_on (CDRDecoder.octets_run (d := ⟨D, o, some e⟩) h)

omit [Platform] in
theorem equals_on {p : ℕ} {v : Octets} (h : At D p v) (s : Octets) :
    equals ⟨p, v.length⟩ s (d.on D o e) = .ok (v == s) (d.on D o e) := by
  by_cases hlen : v.length = s.length
  · rw [equals, if_neg (not_not.2 hlen), bind_ok (octets_on h)]
    rfl
  · have hne : v ≠ s := fun heq => hlen (congrArg List.length heq)
    rw [equals, if_pos hlen, pure_run, beq_false_of_ne hne]

omit [Platform] in
/-- The octets of a blob stand behind its length. -/
theorem at_blob {v : Octets} (h : Laid D o (Cdr.blob e v)) : At D (roundUp 4 o + 4) v := by
  have hbody := (laid_append.1 h).2
  rw [Cdr.extent_ulong] at hbody
  exact (laid_raw.1 hbody).1

omit [Platform] in
/-- The octets of a string stand behind its length. -/
theorem at_string {v : Octets} (h : Laid D o (Cdr.string e v)) : At D (roundUp 4 o + 4) v := by
  have hbody := (laid_append.1 h).2
  rw [Cdr.extent_ulong] at hbody
  exact (at_append.1 (laid_raw.1 hbody).1).1

/-! ### Encapsulations -/

omit [Platform] in
theorem setLittleEndian_endianFlag (d : CDRDecoder) (e : Endian) :
    d.setLittleEndian (Giop.endianFlag e &&& 1 == 1) = { d with endian := some e } := by
  cases e <;> rfl

omit [Platform] in
/-- What an encapsulation holds stands behind its type, its size and its byte order. -/
theorem laid_encapsulation {type : UInt32} {inner : Endian} {body : Cdr.Items}
    (h : Laid D o (Giop.encapsulation e o type inner body)) :
    Laid D (roundUp 4 o + 8) (Cdr.octet (Giop.endianFlag inner)) ∧
      Laid D (roundUp 4 o + 9) body := by
  have hfour : roundUp 4 (roundUp 4 o + 4) = roundUp 4 o + 4 :=
    roundUp_roundUp_add (by decide) (by decide) o
  have hbody := (laid_append.1 (laid_append.1 h).2).2
  rw [Cdr.extent_ulong, Cdr.extent_ulong, hfour] at hbody
  exact laid_append.1 hbody

/-- Of an encapsulation the decoder yields what the closure yields, and then goes to where the size
says, which is stored modulo `2 ^ 32`. -/
theorem readEncapsulation_ok {α : Type} {closure : UInt32 → ScanM α} {type : UInt32}
    {inner : Endian} {body : Cdr.Items} {a : α} {d' : GIOPDecoder}
    (h : Laid D o (Giop.encapsulation e o type inner body)) (hD : D.length < 2 ^ 64)
    (hclosure : closure type (d.on D (roundUp 4 o + 9) inner) = .ok a d')
    (hd' : d'.buffer.data = D) :
    readEncapsulation closure (d.on D o e) =
      .ok a (d'.on D (sizeT (roundUp 4 o + 8 +
        (UInt32.ofNat (extent (roundUp 4 o + 9) body - (roundUp 4 o + 8))).toNat)) e) := by
  have hsize : roundUp 4 (roundUp 4 o + 4) = roundUp 4 o + 4 :=
    roundUp_roundUp_add (by decide) (by decide) o
  obtain ⟨htype, hrest⟩ := laid_append.1 h
  have hlen := (laid_append.1 hrest).1
  rw [Cdr.extent_ulong] at hlen
  have hflag := (laid_encapsulation h).1
  -- the size is the distance from the octet that announces the byte order to the end
  have hnum : extent (roundUp 4 (roundUp 4 o + 4) + 4)
      (Cdr.octet (Giop.endianFlag inner) ++ body) - (roundUp 4 (roundUp 4 o + 4) + 4) =
      extent (roundUp 4 o + 9) body - (roundUp 4 o + 8) := by
    rw [hsize, extent_append, Cdr.extent_octet]
  rw [hnum] at hlen
  have hset : read (modify (CDRDecoder.setLittleEndian (Giop.endianFlag inner &&& 1 == 1)))
      (d.on D (roundUp 4 o + 9) e) = .ok ⟨⟩ (d.on D (roundUp 4 o + 9) inner) := by
    refine read_on ?_
    rw [modify_run, setLittleEndian_endianFlag]
  have hulong := readUlong_on (d := d) hlen hD
  rw [hsize] at hulong
  rw [readEncapsulation, bind_ok (readUlong_on htype hD), bind_ok hulong, bind_ok (get_run _),
    bind_ok (readOctet_on hflag hD), bind_ok hset, bind_ok hclosure]
  -- whatever the closure has read, the byte order and the offset are put back
  obtain ⟨⟨D', o', e'⟩, c, major, minor, t, l, i, s⟩ := d'
  obtain rfl : D' = D := hd'
  rw [read_modify_bind, read_modify_bind, pure_run]
  rfl

theorem readEncapsulation_run {α : Type} {closure : UInt32 → ScanM α} {type : UInt32}
    {inner : Endian} {body : Cdr.Items} {a : α} {d' : GIOPDecoder}
    (h : Laid D o (Giop.encapsulation e o type inner body))
    (hext : extent (roundUp 4 o + 9) body < 2 ^ 32) (hD : D.length < 2 ^ 64)
    (hclosure : closure type (d.on D (roundUp 4 o + 9) inner) = .ok a d')
    (hd' : d'.buffer.data = D) :
    readEncapsulation closure (d.on D o e) =
      .ok a (d'.on D (extent (roundUp 4 o + 9) body) e) := by
  have hle := le_extent (roundUp 4 o + 9) body
  have hnext : sizeT (roundUp 4 o + 8 +
      (UInt32.ofNat (extent (roundUp 4 o + 9) body - (roundUp 4 o + 8))).toNat) =
      extent (roundUp 4 o + 9) body := by
    rw [UInt32.toNat_ofNat_of_lt' (by show _ < 2 ^ 32; omega), sizeT_of_lt (by omega)]
    omega
  rw [readEncapsulation_ok h hD hclosure hd', hnext]

/-! ### Service contexts -/

/-- The listen point of a peer, on a connection.  The octet that ends the host may be any. -/
theorem readListenPoint_open {a : HostAndPort} {c : Connection}
    (h : Laid D o (Cdr.stringOpen e a.host ++ Cdr.ushort e a.port))
    (ha : a.host.length + 1 < 2 ^ 32) (hD : D.length < 2 ^ 64) (hc : d.connection = some c) :
    readListenPoint (d.on D o e) = .ok ()
      ({ d with connection := some (c.adopt a) }.on D
        (extent o (Cdr.stringOpen e a.host ++ Cdr.ushort e a.port)) e) := by
  obtain ⟨hhost, hport⟩ := laid_append.1 h
  have hat := CDRDecoder.at_stringOpen hhost
  -- the port stands behind the host, which therefore lies in the buffer
  have hin : extent o (Cdr.stringOpen e a.host) ≤ D.length := by
    have hle := (laid_raw.1 (laid_align.1 hport)).1.le_length
      (List.ne_nil_of_length_pos (by rw [Endian.length_bytes]; decide))
    have hround := le_roundUp 2 (extent o (Cdr.stringOpen e a.host))
    omega
  have hview : readStringView (d.on D o e) = .ok ⟨roundUp 4 o + 4, a.host.length⟩
      (d.on D (extent o (Cdr.stringOpen e a.host)) e) :=
    read_on (CDRDecoder.readStringView_open hhost ha hin hD)
  have hmax : ¬ maxStringSize < a.host.length := by
    unfold maxStringSize
    omega
  rw [readListenPoint, bind_ok hview, bind_ok (readUshort_on hport hD), bind_ok (get_run _)]
  simp only [hc]
  rw [bind_ok (equals_on hat _), extent_append, Cdr.extent_ushort]
  by_cases hdiff : a.host ≠ c.remote.host ∧ a.port ≠ c.remote.port
  · have hnew : ¬ (a.host == c.remote.host) = true ∧ a.port ≠ c.remote.port := by
      simpa using hdiff
    rw [if_pos hnew, if_neg hmax, bind_ok (octets_on hat), modify_run, Connection.adopt,
      if_pos hdiff]
  · have hold : ¬ (¬ (a.host == c.remote.host) = true ∧ a.port ≠ c.remote.port) := by
      simpa using hdiff
    rw [if_neg hold, pure_run, Connection.adopt, if_neg hdiff, ← hc]

theorem readListenPoint_run {a : HostAndPort} {c : Connection}
    (h : Laid D o (Giop.listenPoint e a)) (ha : a.host.length + 1 < 2 ^ 32)
    (hD : D.length < 2 ^ 64) (hc : d.connection = some c) :
    readListenPoint (d.on D o e) = .ok ()
      ({ d with connection := some (c.adopt a) }.on D (extent o (Giop.listenPoint e a)) e) := by
  obtain ⟨hhost, hport⟩ := laid_append.1 h
  have hopen : Laid D o (Cdr.stringOpen e a.host ++ Cdr.ushort e a.port) := by
    refine laid_append.2 ⟨Cdr.laid_stringOpen hhost, ?_⟩
    rw [Cdr.extent_stringOpen]
    rwa [Cdr.extent_string] at hport
  rw [readListenPoint_open hopen ha hD hc, extent_append, Giop.listenPoint, extent_append,
    Cdr.extent_stringOpen, Cdr.extent_string]

/-- A service context with one listen point. -/
theorem readServiceContextBody_run {a : HostAndPort} {c : Connection}
    (h : Laid D o (Cdr.ulong e 1 ++ Giop.listenPoint e a)) (ha : a.host.length + 1 < 2 ^ 32)
    (hD : D.length < 2 ^ 64) (hc : d.connection = some c) :
    readServiceContextBody ServiceId.biDirIIOP.toUlong (d.on D o e) = .ok ()
      ({ d with connection := some (c.adopt a) }.on D
        (extent o (Cdr.ulong e 1 ++ Giop.listenPoint e a)) e) := by
  obtain ⟨hcount, hpoint⟩ := laid_append.1 h
  rw [extent_append, Cdr.extent_ulong]
  rw [Cdr.extent_ulong] at hpoint
  rw [readServiceContextBody, ServiceId.ofUlong_toUlong]
  show (readUlong >>= fun count => times readListenPoint count.toNat) _ = _
  rw [bind_ok (readUlong_on hcount hD)]
  show (readListenPoint >>= fun _ => pure ()) _ = _
  rw [bind_ok (readListenPoint_run hpoint ha hD hc), pure_run]

/-- What the connection of the receiver is after the service contexts of a sender have been read. -/
def heard (sender : Option Connection) (receiver : Option Connection) : Option Connection :=
  match sender with
  | none => receiver
  | some c =>
      if c.didSendBiDirIIOP then receiver
      else receiver.map fun r => r.adopt c.protocolLocal

/-- An empty list of service contexts. -/
theorem readServiceContext_zero (h : Laid D o (Cdr.ulong e 0)) (hD : D.length < 2 ^ 64) :
    readServiceContext (d.on D o e) = .ok () (d.on D (roundUp 4 o + 4) e) := by
  rw [readServiceContext, bind_ok (readUlong_on h hD)]
  rfl

/-- The service contexts of the encoder.  A decoder without a connection cannot read the
announcement of one. -/
theorem readServiceContext_run {c : Option Connection}
    (h : Laid D o (Giop.serviceContext e o c))
    (hext : extent o (Giop.serviceContext e o c) < 2 ^ 32) (hD : D.length < 2 ^ 64)
    (hd : c.isSome → d.connection.isSome) :
    readServiceContext (d.on D o e) = .ok ()
      ({ d with connection := heard c d.connection }.on D
        (extent o (Giop.serviceContext e o c)) e) := by
  have hnone : Laid D o (Cdr.ulong e 0) →
      readServiceContext (d.on D o e) = .ok () (d.on D (extent o (Cdr.ulong e 0)) e) := by
    intro h
    rw [readServiceContext_zero h hD, Cdr.extent_ulong]
  cases c with
  | none => exact hnone h
  | some c =>
      obtain ⟨remote, near, sent⟩ := c
      cases sent with
      | true => exact hnone h
      | false =>
          obtain ⟨r, hr⟩ := Option.isSome_iff_exists.1 (hd rfl)
          obtain ⟨hcount, henc⟩ := laid_append.1 h
          rw [Cdr.extent_ulong] at henc
          have hend : extent o (Giop.serviceContext e o (some ⟨remote, near, false⟩)) =
              extent (roundUp 4 (roundUp 4 o + 4) + 9)
                (Cdr.ulong e 1 ++ Giop.listenPoint e near) := by
            simp only [Giop.serviceContext, Bool.false_eq_true, if_false, extent_append,
              Cdr.extent_ulong, Giop.extent_encapsulation]
          rw [hend] at hext ⊢
          have hhost : near.host.length + 1 < 2 ^ 32 := by
            rw [extent_append, Giop.extent_listenPoint] at hext
            have hround := le_roundUp 2 (roundUp 4 (extent (roundUp 4 (roundUp 4 o + 4) + 9)
              (Cdr.ulong e 1)) + 4 + (near.host.length + 1))
            omega
          have hbody := readServiceContextBody_run (d := d) (laid_encapsulation henc).2 hhost hD hr
          rw [readServiceContext, bind_ok (readUlong_on hcount hD)]
          show (readEncapsulation readServiceContextBody >>= fun _ => pure ()) _ = _
          rw [bind_ok (readEncapsulation_run henc hext hD hbody rfl), pure_run, heard, hr]
          rfl

/-! ### Headers -/

/-- The header every message begins with, whatever its flags are. -/
theorem scanGIOPHeader_octets {major minor flags type : UInt8} {length : UInt32}
    (hmagic : D.take 4 = ascii "GIOP") (h : At D 4 [major, minor, flags, type])
    (horder : (if flags &&& 1 == 1 then .little else .big) = e)
    (hlength : Laid D 8 (Cdr.ulong e length)) (hlen : 16 ≤ D.length) (hd : d.buffer.data = D) :
    scanGIOPHeader d = .ok (MessageType.ofOctet type) { d with
      buffer := ⟨D, 12, some e⟩
      majorVersion := major.toNat
      minorVersion := minor.toNat
      m_type := MessageType.ofOctet type
      m_length := length.toNat } := by
  obtain ⟨⟨D', o', e'⟩, c, major', minor', t, l, i, s⟩ := d
  obtain rfl : D' = D := hd
  obtain ⟨hmajor, h⟩ := at_cons.1 h
  obtain ⟨hminor, h⟩ := at_cons.1 h
  obtain ⟨hflags, h⟩ := at_cons.1 h
  rw [scanGIOPHeader, bind_ok (get_run _), if_neg (by show ¬ D'.length < 16; omega),
    if_neg (not_not.2 hmagic)]
  -- the octets in front of the length, which is the only number, are read in any byte order
  have hoctet : ∀ {p : ℕ} {v : UInt8} {order : Option Endian} (M m : ℕ) (t : MessageType),
      p + 1 < 2 ^ 64 → D'[p]? = some v → readOctet ⟨⟨D', p, order⟩, c, M, m, t, l, i, s⟩ =
        .ok v ⟨⟨D', p + 1, order⟩, c, M, m, t, l, i, s⟩ :=
    fun _ _ _ hp h =>
      read_ok (CDRDecoder.next_at (laid_raw.2 ⟨at_singleton.2 h, laid_nil _ _⟩) hp)
  have hlast : readUlong ⟨⟨D', 8, some e⟩, c, major.toNat, minor.toNat, MessageType.ofOctet type,
      l, i, s⟩ =
      .ok length ⟨⟨D', 12, some e⟩, c, major.toNat, minor.toNat, MessageType.ofOctet type,
        l, i, s⟩ :=
    read_ok (CDRDecoder.readUlong_at hlength (by decide))
  simp only [read_modify_bind, modify_bind, CDRDecoder.setOffset, CDRDecoder.setLittleEndian,
    bind_ok (hoctet _ _ _ (by decide) hmajor), bind_ok (hoctet _ _ _ (by decide) hminor),
    bind_ok (hoctet _ _ _ (by decide) hflags), horder,
    bind_ok (hoctet _ _ _ (by decide) (at_singleton.1 h)), bind_ok hlast, pure_run]

omit [Platform] in
/-- What the header of a message of the encoder consists of. -/
theorem laid_header {major minor : UInt8} {type : MessageType} {length : UInt32}
    (h : Laid D 0 (Giop.header e major minor type length)) :
    D.take 4 = ascii "GIOP" ∧ At D 4 [major, minor, Giop.endianFlag e, type.toOctet] ∧
      Laid D 8 (Cdr.ulong e length) := by
  simp only [Giop.header, laid_append, Cdr.extent_octet, Nat.reduceAdd] at h
  obtain ⟨hG, hI, hO, hP, hmajor, hminor, hflags, htype, hlength⟩ := h
  have hmagic : At D 0 (ascii "GIOP") :=
    at_cons.2 ⟨at_singleton.1 (laid_raw.1 hG).1, at_cons.2 ⟨at_singleton.1 (laid_raw.1 hI).1,
      at_cons.2 ⟨at_singleton.1 (laid_raw.1 hO).1, (laid_raw.1 hP).1⟩⟩⟩
  refine ⟨hmagic.take_drop, ?_, hlength⟩
  exact at_cons.2 ⟨at_singleton.1 (laid_raw.1 hmajor).1,
    at_cons.2 ⟨at_singleton.1 (laid_raw.1 hminor).1,
      at_cons.2 ⟨at_singleton.1 (laid_raw.1 hflags).1, (laid_raw.1 htype).1⟩⟩⟩

/-- The header every message of the encoder begins with. -/
theorem scanGIOPHeader_run {major minor : UInt8} {type : MessageType} {length : UInt32}
    (h : Laid D 0 (Giop.header e major minor type length)) (hlen : 16 ≤ D.length)
    (hd : d.buffer.data = D) :
    scanGIOPHeader d = .ok type { d with
      buffer := ⟨D, 12, some e⟩
      majorVersion := major.toNat
      minorVersion := minor.toNat
      m_type := type
      m_length := length.toNat } := by
  obtain ⟨hmagic, hoctets, hlength⟩ := laid_header h
  have hscan := scanGIOPHeader_octets (d := d) hmagic hoctets (by cases e <;> rfl) hlength hlen hd
  rwa [MessageType.ofOctet_toOctet] at hscan

omit [Platform] in
/-- Reading past room that is left open. -/
theorem skip_on (n : ℕ) (h : o + n < 2 ^ 64) (d : GIOPDecoder) :
    ({ d.on D o e with buffer := CDRDecoder.skip n (d.on D o e).buffer } : GIOPDecoder) =
      d.on D (o + n) e := by
  show GIOPDecoder.mk ⟨D, sizeT (o + n), some e⟩ _ _ _ _ _ _ _ = _
  rw [sizeT_of_lt h]

omit [Platform] in
theorem align8_on (h : roundUp 8 o < 2 ^ 64) (d : GIOPDecoder) :
    ({ d.on D o e with buffer := CDRDecoder.align8 (d.on D o e).buffer } : GIOPDecoder) =
      d.on D (roundUp 8 o) e := by
  rw [CDRDecoder.align8_eq]
  show GIOPDecoder.mk ⟨D, sizeT (roundUp 8 o), some e⟩ _ _ _ _ _ _ _ = _
  rw [sizeT_of_lt h]

omit [Platform] in
/-- A number ends in the buffer. -/
theorem ulong_le {v : UInt32} (h : Laid D o (Cdr.ulong e v)) : roundUp 4 o + 4 ≤ D.length := by
  have hle := (laid_raw.1 (laid_align.1 h)).1.le_length (List.ne_nil_of_length_pos (by simp))
  rwa [Endian.length_bytes] at hle

/-- The header of a request of GIOP 1.0 and 1.1, when its service contexts can be read. -/
theorem scanRequestHeader_legacy_of {d' : GIOPDecoder} {o' : ℕ} {objectKey operation : Octets}
    {requestId principalLength : UInt32} {responseFlags : UInt8}
    (hcontext : readServiceContext (d.on D 12 e) = .ok () (d'.on D o' e))
    (h : Laid D o' (Giop.requestFront e requestId responseFlags ++ (Cdr.blob e objectKey ++
      (Cdr.string e operation ++ Cdr.ulong e principalLength))))
    (hkey : objectKey.length < 2 ^ 32) (hop : operation.length + 1 < 2 ^ 32)
    (hD : D.length < 2 ^ 64) (hl : d.isLegacy = true) :
    ∃ key op, key = roundUp 4 (roundUp 4 o' + 8) + 4 ∧
      op = roundUp 4 (key + objectKey.length) + 4 ∧
      scanRequestHeader (d.on D 12 e) =
        .ok ⟨requestId, responseExpectedOf true responseFlags, ⟨key, objectKey.length⟩,
            ⟨op, operation.length⟩⟩
          (d'.on D (roundUp 4 (op + (operation.length + 1)) + 4) e) ∧
      At D key objectKey ∧ At D op operation := by
  simp only [Giop.requestFront, laid_append, extent_append, Cdr.extent_ulong, Cdr.extent_octet,
    Cdr.extent_blob, Cdr.extent_string, extent_skip, extent_nil] at h
  obtain ⟨⟨⟨hid, hflags⟩, -⟩, hblob, hstring, hprincipal⟩ := h
  have hfit := ulong_le (laid_append.1 hblob).1
  have hround := le_roundUp 4 (roundUp 4 o' + 4 + 1 + 3)
  have hl' : (d.on D 12 e).isLegacy = true := hl
  refine ⟨_, _, rfl, rfl, ?_, at_blob hblob, at_string hstring⟩
  rw [scanRequestHeader, get_bind]
  simp only [hl', if_true]
  rw [bind_ok hcontext, bind_ok (readUlong_on hid hD), bind_ok (readOctet_on hflags hD),
    read_modify_bind, skip_on 3 (by omega), bind_ok (readBlobView_on hblob hkey hD),
    bind_ok (readStringView_on hstring hop hD), bind_ok (readUlong_on hprincipal hD), pure_run]

/-- The header of a request of GIOP 1.0 and 1.1. -/
theorem scanRequestHeader_legacy {c : Option Connection} {objectKey operation : Octets}
    {requestId : UInt32} {responseFlags : UInt8}
    (h : Laid D 12 (Giop.requestHeaderLegacy e c objectKey operation requestId responseFlags))
    (hext : extent 12 (Giop.requestHeaderLegacy e c objectKey operation requestId responseFlags) <
      2 ^ 32)
    (hD : D.length < 2 ^ 64) (hl : d.isLegacy = true)
    (hd : c.isSome → d.connection.isSome) :
    ∃ key op,
      scanRequestHeader (d.on D 12 e) =
        .ok ⟨requestId, responseExpectedOf true responseFlags, ⟨key, objectKey.length⟩,
            ⟨op, operation.length⟩⟩
          ({ d with connection := heard c d.connection }.on D
            (extent 12 (Giop.requestHeaderLegacy e c objectKey operation requestId responseFlags))
            e) ∧
      At D key objectKey ∧ At D op operation := by
  obtain ⟨hcontext, hrest⟩ := laid_append.1 h
  rw [Giop.requestHeaderLegacy, extent_append] at hext ⊢
  have hrun := readServiceContext_run (d := d) hcontext
  generalize extent 12 (Giop.serviceContext e 12 c) = o₁ at *
  simp only [Giop.requestFront, extent_append, Cdr.extent_ulong, Cdr.extent_octet,
    Cdr.extent_blob, Cdr.extent_string, extent_skip, extent_nil] at hext ⊢
  have h1 := le_roundUp 4 o₁
  have h2 := le_roundUp 4 (roundUp 4 o₁ + 4 + 1 + 3)
  have h3 := le_roundUp 4 (roundUp 4 (roundUp 4 o₁ + 4 + 1 + 3) + 4 + objectKey.length)
  have h4 := le_roundUp 4 (roundUp 4 (roundUp 4 (roundUp 4 o₁ + 4 + 1 + 3) + 4 +
    objectKey.length) + 4 + (operation.length + 1))
  obtain ⟨key, op, rfl, rfl, hscan, hat⟩ := scanRequestHeader_legacy_of
    (hrun (by omega) hD hd) hrest (by omega) (by omega) hD hl
  exact ⟨_, _, hscan, hat⟩

theorem readTarget_run {objectKey : Octets}
    (h : Laid D o (Cdr.ushort e AddressingDisposition.keyAddr.toUshort ++ Cdr.blob e objectKey))
    (hkey : objectKey.length < 2 ^ 32) (hD : D.length < 2 ^ 64) :
    readTarget (d.on D o e) =
      .ok ⟨roundUp 4 (roundUp 2 o + 2) + 4, objectKey.length⟩
        (d.on D (roundUp 4 (roundUp 2 o + 2) + 4 + objectKey.length) e) := by
  obtain ⟨hdisp, hblob⟩ := laid_append.1 h
  rw [Cdr.extent_ushort] at hblob
  rw [readTarget, bind_ok (readUshort_on hdisp hD), AddressingDisposition.ofUshort_toUshort]
  exact readBlobView_on hblob hkey hD

/-- The header of a request since GIOP 1.2, when its service contexts can be read. -/
theorem scanRequestHeader_of {d' : GIOPDecoder} {o' : ℕ} {objectKey operation : Octets}
    {requestId : UInt32} {responseFlags : UInt8}
    (h : Laid D 12 (Giop.requestHeaderFront e objectKey operation requestId responseFlags))
    (hcontext : readServiceContext (d.on D (extent 12 (Giop.requestHeaderFront e objectKey
      operation requestId responseFlags)) e) = .ok () (d'.on D o' e))
    (hkey : objectKey.length < 2 ^ 32) (hop : operation.length + 1 < 2 ^ 32)
    (ho' : roundUp 8 o' < 2 ^ 64) (hD : D.length < 2 ^ 64) (hl : d.isLegacy = false) :
    ∃ op, op = roundUp 4 (28 + objectKey.length) + 4 ∧
      scanRequestHeader (d.on D 12 e) =
        .ok ⟨requestId, responseExpectedOf false responseFlags, ⟨28, objectKey.length⟩,
            ⟨op, operation.length⟩⟩ (d'.on D (roundUp 8 o') e) ∧
      At D 28 objectKey ∧ At D op operation := by
  have h12 : roundUp 4 12 = 12 := rfl
  have h22 : roundUp 2 (12 + 4 + 1 + 3) + 2 = 22 := rfl
  have h28 : roundUp 4 22 + 4 = 28 := rfl
  simp only [Giop.requestHeaderFront, Giop.requestFront, laid_append, extent_append,
    Cdr.extent_ulong, Cdr.extent_octet, Cdr.extent_ushort, Cdr.extent_blob, Cdr.extent_string,
    extent_skip, extent_nil, h12, h22, h28] at h hcontext
  obtain ⟨⟨⟨hid, hflags⟩, -⟩, hdisp, hblob, hstring⟩ := h
  have htarget := readTarget_run (d := d) (laid_append.2 ⟨hdisp, by
    rw [Cdr.extent_ushort]
    exact hblob⟩) hkey hD
  rw [h22, h28] at htarget
  have hl' : (d.on D 12 e).isLegacy = false := hl
  refine ⟨_, rfl, ?_, at_blob hblob, at_string hstring⟩
  rw [scanRequestHeader, get_bind]
  simp only [hl', Bool.false_eq_true, if_false]
  rw [bind_ok (readUlong_on hid hD), h12, bind_ok (readOctet_on hflags hD), read_modify_bind,
    skip_on 3 (by decide), bind_ok htarget, bind_ok (readStringView_on hstring hop hD),
    bind_ok hcontext, read_modify_bind, align8_on ho', pure_run]

/-- The header of a request since GIOP 1.2. -/
theorem scanRequestHeader_run {c : Option Connection} {objectKey operation : Octets}
    {requestId : UInt32} {responseFlags : UInt8}
    (h : Laid D 12 (Giop.requestHeader e c objectKey operation requestId responseFlags))
    (hext : extent 12 (Giop.requestHeader e c objectKey operation requestId responseFlags) <
      2 ^ 32)
    (hD : D.length < 2 ^ 64) (hl : d.isLegacy = false)
    (hd : c.isSome → d.connection.isSome) :
    ∃ key op,
      scanRequestHeader (d.on D 12 e) =
        .ok ⟨requestId, responseExpectedOf false responseFlags, ⟨key, objectKey.length⟩,
            ⟨op, operation.length⟩⟩
          ({ d with connection := heard c d.connection }.on D
            (extent 12 (Giop.requestHeader e c objectKey operation requestId responseFlags))
            e) ∧
      At D key objectKey ∧ At D op operation := by
  rw [Giop.requestHeader, laid_append, laid_append] at h
  obtain ⟨hfront, hcontext, -⟩ := h
  rw [Giop.requestHeader, extent_append, extent_append, extent_align, extent_nil] at hext ⊢
  have hrun := readServiceContext_run (d := d) hcontext
  have h5 := le_extent (extent 12
    (Giop.requestHeaderFront e objectKey operation requestId responseFlags))
    (Giop.serviceContext e (extent 12
      (Giop.requestHeaderFront e objectKey operation requestId responseFlags)) c)
  generalize extent (extent 12
    (Giop.requestHeaderFront e objectKey operation requestId responseFlags))
    (Giop.serviceContext e (extent 12
      (Giop.requestHeaderFront e objectKey operation requestId responseFlags)) c) = o₂ at *
  have h6 : 28 + objectKey.length + (operation.length + 1) ≤
      extent 12 (Giop.requestHeaderFront e objectKey operation requestId responseFlags) := by
    simp only [Giop.requestHeaderFront, Giop.requestFront, extent_append, Cdr.extent_ulong,
      Cdr.extent_octet, Cdr.extent_ushort, Cdr.extent_blob, Cdr.extent_string, extent_skip,
      extent_nil]
    have h28 : roundUp 4 (roundUp 2 (roundUp 4 12 + 4 + 1 + 3) + 2) + 4 = 28 := rfl
    have hround := le_roundUp 4 (28 + objectKey.length)
    rw [h28]
    omega
  have h1 := le_roundUp 8 o₂
  obtain ⟨op, rfl, hscan, hat⟩ := scanRequestHeader_of hfront (hrun (by omega) hD hd) (by omega)
    (by omega) (by omega) hD hl
  exact ⟨_, _, hscan, hat⟩

section Reply

variable {requestId : UInt32} {status : ReplyStatus} {d' : GIOPDecoder} {o' : ℕ}

/-- The header of a reply of GIOP 1.0 and 1.1, when its service contexts can be read. -/
theorem scanReplyHeader_legacy_of (hl : d.majorVersion = 1 ∧ d.minorVersion < 2)
    (hcontext : readServiceContext (d.on D 12 e) = .ok () (d'.on D o' e))
    (h : Laid D o' (Cdr.ulong e requestId ++ Cdr.ulong e status.toUlong))
    (hD : D.length < 2 ^ 64) :
    scanReplyHeader (d.on D 12 e) = .ok ⟨requestId, status⟩
      ({ d' with requestId := requestId, replyStatus := status }.on D
        (roundUp 4 (roundUp 4 o' + 4) + 4) e) := by
  obtain ⟨hid, hstatus⟩ := laid_append.1 h
  rw [Cdr.extent_ulong] at hstatus
  have hlegacy : (d.on D 12 e).isLegacy = true := by
    have hle : d.minorVersion ≤ 1 := Nat.lt_succ_iff.1 hl.2
    simp [isLegacy, hl.1, hle]
  have hnew : ¬ ((d.on D 12 e).majorVersion = 1 ∧ (d.on D 12 e).minorVersion ≥ 2) :=
    fun hnew => absurd hl.2 (Nat.not_lt.2 hnew.2)
  rw [scanReplyHeader, get_bind]
  simp only [hlegacy, hnew, if_true, if_false]
  rw [bind_ok hcontext, bind_ok (readUlong_on hid hD), modify_bind]
  refine (bind_ok (readUlong_on (d := { d' with requestId := requestId }) hstatus hD) _).trans ?_
  rw [ReplyStatus.ofUlong_toUlong]
  rfl

/-- The header of a reply of any other version, up to where GIOP 1.2 has the service contexts. -/
theorem scanReplyHeader_since (hl : ¬ (d.majorVersion = 1 ∧ d.minorVersion < 2))
    (h : Laid D 12 (Cdr.ulong e requestId ++ Cdr.ulong e status.toUlong))
    (hD : D.length < 2 ^ 64) :
    scanReplyHeader (d.on D 12 e) =
      (do
        if d.majorVersion = 1 ∧ d.minorVersion ≥ 2 then
          readServiceContext
        return ⟨requestId, status⟩ : ScanM ReplyHeader)
      ({ d with requestId := requestId, replyStatus := status }.on D 20 e) := by
  obtain ⟨hid, hstatus⟩ := laid_append.1 h
  rw [Cdr.extent_ulong] at hstatus
  have hlegacy : (d.on D 12 e).isLegacy = false := by
    simp only [isLegacy, Bool.and_eq_false_iff, beq_eq_false_iff_ne, decide_eq_false_iff_not]
    omega
  rw [scanReplyHeader, get_bind]
  simp only [hlegacy, Bool.false_eq_true, if_false]
  rw [bind_ok (readUlong_on hid hD), modify_bind]
  refine (bind_ok (readUlong_on (d := { d with requestId := requestId }) hstatus hD) _).trans ?_
  rw [ReplyStatus.ofUlong_toUlong]
  rfl

/-- The header of a reply without service contexts, in any version. -/
theorem scanReplyHeader_run
    (h : Laid D 12 (Giop.replyHeader e d.majorVersion d.minorVersion requestId status))
    (hD : D.length < 2 ^ 64) :
    scanReplyHeader (d.on D 12 e) = .ok ⟨requestId, status⟩
      ({ d with requestId := requestId, replyStatus := status }.on D
        (extent 12 (Giop.replyHeader e d.majorVersion d.minorVersion requestId status)) e) := by
  simp only [Giop.replyHeader] at h ⊢
  -- the number of service contexts stands in front, behind or nowhere
  by_cases hold : d.majorVersion = 1 ∧ d.minorVersion < 2
  · have hnew : ¬ (d.majorVersion = 1 ∧ d.minorVersion ≥ 2) := by omega
    rw [if_pos hold, if_neg hnew, List.append_nil] at h ⊢
    obtain ⟨hfront, hrest⟩ := laid_append.1 h
    rw [Cdr.extent_ulong] at hrest
    rw [scanReplyHeader_legacy_of hold (readServiceContext_zero hfront hD) hrest hD]
    simp only [extent_append, Cdr.extent_ulong]
  · rw [if_neg hold, List.nil_append, ← List.append_assoc] at h ⊢
    obtain ⟨hfront, hbehind⟩ := laid_append.1 h
    have htwenty : roundUp 4 (roundUp 4 12 + 4) + 4 = 20 := rfl
    rw [scanReplyHeader_since hold hfront hD]
    simp only [extent_append, Cdr.extent_ulong, htwenty] at hbehind ⊢
    by_cases hnew : d.majorVersion = 1 ∧ d.minorVersion ≥ 2
    · simp only [if_pos hnew, Cdr.extent_ulong] at hbehind ⊢
      exact bind_ok (readServiceContext_zero
        (d := { d with requestId := requestId, replyStatus := status }) hbehind hD) _
    · simp only [if_neg hnew]
      rfl

end Reply

end GIOPDecoder

end Corba
