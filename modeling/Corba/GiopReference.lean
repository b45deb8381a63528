/-
Object references: what the encoder sends for an object, and what the decoder makes of it.

A reference says where its object lives.  For an object of its own process the encoder writes the
near end of the connection; for a stub it writes the far end of the connection it is itself
writing to, which is where the stub points only when the stub was obtained over that connection.

Main definitions:

* `Corba.Stub.PassableOver` — the condition on a stub, its connection and that of the encoder.

Main results:

* `Corba.GIOPDecoder.readObject_of_laid` — what the decoder makes of a reference that is laid out;
* `Corba.GIOPDecoder.readObject_bounds` — the lengths of whatever reference it yields;
* `Corba.writeObject_stub_iff` — when a stub that is passed on points at the same object.
-/

import Corba.GiopScan

set_option relaxedAutoImplicit false
set_option autoImplicit false

namespace Corba

open Layout ByteOrder Placed Exec

variable [Platform]

namespace GIOPDecoder

/-! ### A reference that is laid out -/

section Laid

variable {d : GIOPDecoder} {D : Octets} {o : ℕ} {e : Endian}

theorem readString_on {v : Octets} (h : Laid D o (Cdr.string e v)) (hv : v.length + 1 < 2 ^ 32)
    (hD : D.length < 2 ^ 64) :
    readString (d.on D o e) = .ok v (d.on D (roundUp 4 o + 4 + (v.length + 1)) e) :=
  read_on (CDRDecoder.readString_run h hv hD)

theorem readBlob_on {v : Octets} (h : Laid D o (Cdr.blob e v)) (hv : v.length < 2 ^ 32)
    (hD : D.length < 2 ^ 64) :
    readBlob (d.on D o e) = .ok v (d.on D (roundUp 4 o + 4 + v.length) e) :=
  read_on (CDRDecoder.readBlob_run h hv hD)

/-- What the decoder takes from an IIOP profile, behind the octet that announces its byte order. -/
theorem readProfile_run (profile : Option IiopProfile) {major minor : UInt8} {a : HostAndPort}
    {objectKey : Octets}
    (h : Laid D o (Cdr.octet major ++ (Cdr.octet minor ++
      (Giop.listenPoint e a ++ Cdr.blob e objectKey))))
    (ha : a.host.length + 1 < 2 ^ 32) (hkey : objectKey.length < 2 ^ 32)
    (hD : D.length < 2 ^ 64) :
    ∃ o', readProfile profile ProfileId.tagInternetIop.toUlong (d.on D o e) =
      .ok (some ⟨a.host, a.port, objectKey⟩) (d.on D o' e) := by
  simp only [Giop.listenPoint, laid_append, extent_append, Cdr.extent_octet, Cdr.extent_string,
    Cdr.extent_ushort] at h
  obtain ⟨hmajor, hminor, ⟨hhost, hport⟩, hblob⟩ := h
  refine ⟨roundUp 4 (roundUp 2 (roundUp 4 (o + 1 + 1) + 4 + (a.host.length + 1)) + 2) + 4 +
    objectKey.length, ?_⟩
  rw [readProfile, ProfileId.ofUlong_toUlong]
  show (readOctet >>= fun _ => _) _ = _
  rw [bind_ok (readOctet_on hmajor hD), bind_ok (readOctet_on hminor hD),
    bind_ok (readString_on hhost ha hD), bind_ok (readUshort_on hport hD),
    bind_ok (readBlob_on hblob hkey hD), pure_run]

omit [Platform] in
/-- The parts of a reference: the length of the type, the type, the number of profiles, and the
profile, which is an encapsulation. -/
theorem laid_reference {major minor : ℕ} {repositoryId objectKey : Octets} {a : HostAndPort}
    (h : Laid D o (Giop.reference e o major minor repositoryId a objectKey)) :
    ∃ p rest, Laid D o (Cdr.ulong e (UInt32.ofNat (repositoryId.length + 1))) ∧
      At D (roundUp 4 o + 4) (repositoryId ++ [0]) ∧
      Laid D (roundUp 4 o + 4 + (repositoryId.length + 1)) (Cdr.ulong e 1) ∧
      p = roundUp 4 (roundUp 4 o + 4 + (repositoryId.length + 1)) + 4 ∧
      extent (roundUp 4 p + 9) ((Cdr.octet (UInt8.ofNat major) ++ (Cdr.octet (UInt8.ofNat minor) ++
        (Giop.listenPoint e a ++ Cdr.blob e objectKey))) ++ rest) =
          Giop.profileStart o repositoryId + Giop.profileSize major minor a objectKey ∧
      Laid D p (Giop.encapsulation e p ProfileId.tagInternetIop.toUlong e
        ((Cdr.octet (UInt8.ofNat major) ++ (Cdr.octet (UInt8.ofNat minor) ++
          (Giop.listenPoint e a ++ Cdr.blob e objectKey))) ++ rest)) := by
  obtain ⟨hfront, hsized⟩ := laid_append.1 h
  obtain ⟨hstring, hnumbers⟩ := laid_append.1 hfront
  obtain ⟨hlen, hbytes⟩ := laid_append.1 hstring
  obtain ⟨hcount, htag⟩ := laid_append.1 hnumbers
  rw [Cdr.extent_ulong] at hbytes htag
  rw [Cdr.extent_string] at hcount htag
  have hend : extent o (Giop.referenceFront e repositoryId) =
      roundUp 4 (roundUp 4 (roundUp 4 o + 4 + (repositoryId.length + 1)) + 4) + 4 := by
    simp only [Giop.referenceFront, extent_append, Cdr.extent_string, Cdr.extent_ulong]
  have hextent := Giop.extent_reference o e major minor repositoryId a objectKey
  rw [Giop.reference, extent_append, Cdr.extent_sized] at hextent
  rw [hend, Giop.profile, Giop.profileFront, List.append_assoc] at hsized hextent
  generalize hp : roundUp 4 (roundUp 4 o + 4 + (repositoryId.length + 1)) + 4 = p at *
  have hround : roundUp 4 (roundUp 4 p + 4) = roundUp 4 p + 4 :=
    roundUp_roundUp_add (by decide) (by decide) p
  have hnine : roundUp 4 p + 4 + 4 + 1 = roundUp 4 p + 9 := by omega
  rw [hround, extent_append, Cdr.extent_octet, hnine] at hextent
  rw [hround, ← Cdr.extent_ulong p e ProfileId.tagInternetIop.toUlong] at hsized
  have hprofile := laid_append.2 ⟨htag, hsized⟩
  rw [Cdr.extent_ulong] at hprofile
  exact ⟨p, _, hlen, (laid_raw.1 hbytes).1, hcount, rfl, hextent, hprofile⟩

omit [Platform] in
/-- A length that is not one of the tags that announce a value. -/
theorem and_tag_ne {code : UInt32} (h : code.toNat < 0x7fffff00) :
    code &&& 0xffffff00 ≠ 0x7fffff00 := by
  intro heq
  have hle : (code &&& 0xffffff00).toNat ≤ code.toNat := by
    rw [UInt32.toNat_and]
    exact Nat.and_le_left
  rw [heq] at hle
  have htag : (0x7fffff00 : UInt32).toNat = 0x7fffff00 := rfl
  omega

/-- A reference whose lengths can be expressed is read as what it says, and the decoder goes to
where the size of the profile says, which is stored modulo `2 ^ 32`. -/
theorem readObject_of_laid {major minor : ℕ} {repositoryId objectKey : Octets} {a : HostAndPort}
    (h : Laid D o (Giop.reference e o major minor repositoryId a objectKey))
    (hid : repositoryId.length + 1 < 0x7fffff00) (ha : a.host.length + 1 < 2 ^ 32)
    (hkey : objectKey.length < 2 ^ 32) (hD : D.length < 2 ^ 64) :
    readObject true (d.on D o e) = .ok (some ⟨repositoryId, a.host, a.port, objectKey⟩)
      (d.on D (sizeT (Giop.profileStart o repositoryId +
        (UInt32.ofNat (Giop.profileSize major minor a objectKey)).toNat)) e) := by
  obtain ⟨p, rest, hlen, hid', hcount, hp, hextent, hencapsulation⟩ := laid_reference h
  obtain ⟨o', hprofile⟩ := readProfile_run (d := d) none
    (laid_append.1 (laid_encapsulation hencapsulation).2).1 ha hkey hD
  have hstart : roundUp 4 p + 8 = Giop.profileStart o repositoryId := by
    rw [hp, Giop.profileStart]
  have hloop := readEncapsulation_ok hencapsulation hD hprofile rfl
  rw [hextent, hstart, Nat.add_sub_cancel_left] at hloop
  set q := sizeT (Giop.profileStart o repositoryId +
    (UInt32.ofNat (Giop.profileSize major minor a objectKey)).toNat)
  have hstring := read_on (d := d) (CDRDecoder.readStringOf_run (e := e) hid' (by omega) hD)
  have hcount' := readUlong_on (d := d) hcount hD
  have hprofiles : readProfiles (1 : UInt32).toNat none (d.on D p e) =
      .ok (some ⟨a.host, a.port, objectKey⟩) (d.on D q e) := by
    show (readEncapsulation (readProfile none) >>= fun p => pure p) _ = _
    rw [bind_ok hloop, pure_run]
  have hreference : readReference (repositoryId.length + 1) (d.on D (roundUp 4 o + 4) e) =
      .ok ⟨repositoryId, a.host, a.port, objectKey⟩ (d.on D q e) := by
    rw [readReference, bind_ok hstring, bind_ok hcount', ← hp]
    exact bind_ok hprofiles _
  -- the length of the type is none of the tags of a value
  have hcode : (UInt32.ofNat (repositoryId.length + 1)).toNat = repositoryId.length + 1 :=
    UInt32.toNat_ofNat_of_lt' (by show _ < 2 ^ 32; omega)
  rw [← hcode] at hid
  have hnull : UInt32.ofNat (repositoryId.length + 1) ≠ 0 := by
    intro h0
    rw [h0] at hcode
    exact absurd hcode (Nat.succ_ne_zero _).symm
  have hpointer : UInt32.ofNat (repositoryId.length + 1) ≠ 0xffffffff := by
    intro h1
    rw [h1] at hid
    exact absurd hid (by decide)
  have hlt : UInt32.ofNat (repositoryId.length + 1) < 0x7fffff00 := hid
  rw [readObject, bind_ok (readUlong_on hlen hD), if_neg hnull, if_neg (and_tag_ne hid),
    if_neg hpointer, if_pos hlt, hcode]
  exact bind_ok hreference _

end Laid

/-! ### Any reference -/

section Bounds

omit [Platform] in
theorem fetch_yields (pos n : ℕ) :
    Yields (fun v : Octets => v.length = n) (CDRDecoder.fetch pos n) := by
  intro d v d' hrun
  rw [CDRDecoder.fetch] at hrun
  split at hrun
  · cases hrun
    rw [List.length_take, List.length_drop]
    omega
  · cases hrun

omit [Platform] in
/-- A string is as long as the length that was read for it says. -/
theorem readStringOf_yields {n : ℕ} (hn : n < 2 ^ 64) :
    Yields (fun v : Octets => v.length + 1 = n) (CDRDecoder.readStringOf n) := by
  refine Yields.of_rest fun buffer => ?_
  show Yields _ (if maxStringSize < sizeT (n + (2 ^ 64 - 1)) then _ else _)
  split
  · exact Yields.throw _
  · intro d v d' hrun
    have hlen := fetch_yields buffer _ d v d' hrun
    unfold maxStringSize sizeT at *
    omega

omit [Platform] in
theorem read_yields {α : Type} {Q : α → Prop} {m : DecodeM α} (h : Yields Q m) :
    Yields Q (read m) := by
  intro d a d' hrun
  rw [read] at hrun
  split at hrun
  · rename_i b hb
    cases hrun
    exact h d.buffer a _ hb
  · cases hrun

theorem readString_yields : Yields (fun v : Octets => v.length + 1 < 2 ^ 32) readString := by
  refine read_yields (Yields.of_rest fun len => ?_)
  have hlen : len.toNat < 2 ^ 32 := len.toNat_lt
  intro d v d' hrun
  have := readStringOf_yields (by omega) d v d' hrun
  omega

theorem readBlob_yields : Yields (fun v : Octets => v.length < 2 ^ 32) readBlob := by
  refine read_yields (Yields.of_rest fun len => Yields.of_rest fun buffer => ?_)
  intro d v d' hrun
  have := fetch_yields _ _ d v d' hrun
  have hlen : len.toNat < 2 ^ 32 := len.toNat_lt
  omega

theorem readEncapsulation_yields {α : Type} {Q : α → Prop} {closure : UInt32 → ScanM α}
    (h : ∀ type, Yields Q (closure type)) : Yields Q (readEncapsulation closure) := by
  refine Yields.of_rest fun type => Yields.of_rest fun size => Yields.of_rest fun d => ?_
  refine Yields.of_rest fun flags => Yields.of_rest fun _ => ?_
  refine (h type).bind fun a ha => ?_
  exact Yields.of_rest fun _ => Yields.of_rest fun _ => Yields.pure ha

/-- What the decoder takes from a profile has lengths that can be expressed. -/
def IiopProfile.Fits (p : IiopProfile) : Prop :=
  p.host.length + 1 < 2 ^ 32 ∧ p.objectKey.length < 2 ^ 32

theorem readProfile_yields {profile : Option IiopProfile} (h : ∀ p ∈ profile, p.Fits)
    (type : UInt32) : Yields (fun profile => ∀ p ∈ profile, p.Fits) (readProfile profile type) := by
  rw [readProfile]
  cases ProfileId.ofUlong type with
  | tagInternetIop =>
      refine Yields.of_rest fun _ => Yields.of_rest fun _ => ?_
      refine readString_yields.bind fun host hhost => Yields.of_rest fun port => ?_
      refine readBlob_yields.bind fun objectKey hkey => Yields.pure ?_
      rintro p ⟨⟩
      exact ⟨hhost, hkey⟩
  | other code hcode => exact Yields.pure h

theorem readProfiles_yields (n : ℕ) : ∀ {profile : Option IiopProfile},
    (∀ p ∈ profile, p.Fits) →
      Yields (fun profile => ∀ p ∈ profile, p.Fits) (readProfiles n profile) := by
  induction n with
  | zero => intro profile h; exact Yields.pure h
  | succ n ih =>
      intro profile h
      exact (readEncapsulation_yields (readProfile_yields h)).bind fun profile' h' => ih h'

theorem readReference_yields {n : ℕ} (hn : n < 2 ^ 64) :
    Yields (fun ior : IOR => ior.oid.length + 1 = n ∧ ior.host.length + 1 < 2 ^ 32 ∧
      ior.objectKey.length < 2 ^ 32) (readReference n) := by
  refine (read_yields (readStringOf_yields hn)).bind fun oid hoid => Yields.of_rest fun count => ?_
  refine (readProfiles_yields count.toNat
    (fun p (hp : p ∈ (none : Option IiopProfile)) => by cases hp)).bind fun profile hprofile => ?_
  cases profile with
  | none => exact Yields.throw _
  | some p => exact Yields.pure ⟨hoid, hprofile p rfl⟩

/-- The lengths of a reference, whatever the buffer holds. -/
theorem readObject_yields (orb : Bool) :
    Yields (fun r : Option IOR => ∀ ior ∈ r, ior.oid.length + 1 < 0x7fffff00 ∧
      ior.host.length + 1 < 2 ^ 32 ∧ ior.objectKey.length < 2 ^ 32) (readObject orb) := by
  refine Yields.of_rest fun code => ?_
  have hcode : code.toNat < 2 ^ 32 := code.toNat_lt
  split
  · exact Yields.pure (fun ior hior => by cases hior)
  · dsimp only
    -- each of the guards throws, and only a length that is none of the tags gets past them
    split
    · exact Yields.throw_bind _ _
    · split
      · exact Yields.throw_bind _ _
      · split
        · rename_i hlt
          have hlt' : code.toNat < 0x7fffff00 := hlt
          split
          · exact Yields.throw_bind _ _
          · refine (readReference_yields (by omega)).bind fun ior hior => Yields.pure ?_
            rintro ior' ⟨⟩
            exact ⟨by omega, hior.2⟩
        · exact Yields.throw _

end Bounds

end GIOPDecoder

/-! ### Passing on a stub -/

/-- A stub can be passed on over a connection to the very place its own connection leads to, if its
type, its key and the host can be expressed. -/
def Stub.PassableOver (s : Stub) (c : Connection) : Prop :=
  s.connection.map Connection.remote = some c.remote ∧ s.repositoryId.length + 1 < 0x7fffff00 ∧
    c.remote.host.length + 1 < 2 ^ 32 ∧ s.objectKey.length < 2 ^ 32

/-- What is written for a stub names the far end of the connection of the encoder. -/
theorem readObject_writeObject_stub (e : GIOPEncoder) {c : Connection} (hc : e.connection = some c)
    (s : Stub) :
    ∃ b, GIOPEncoder.writeObject (some (.stub s)) e = .ok () { e with buffer := b } ∧
      e.buffer.Wrote (Giop.reference native e.buffer.offset e.majorVersion e.minorVersion
        s.repositoryId c.remote s.objectKey) b ∧
      ∀ d : GIOPDecoder, b.data.length < 2 ^ 64 → s.repositoryId.length + 1 < 0x7fffff00 →
        c.remote.host.length + 1 < 2 ^ 32 → s.objectKey.length < 2 ^ 32 →
        ∃ d', GIOPDecoder.readObject true (d.on b.data e.buffer.offset native) =
          .ok (some ⟨s.repositoryId, c.remote.host, c.remote.port, s.objectKey⟩) d' := by
  obtain ⟨b, hrun, hb⟩ := GIOPEncoder.writes_reference e hc s.repositoryId s.objectKey true
  refine ⟨b, hrun, hb, ?_⟩
  intro d hD hid hhost hkey
  exact ⟨_, GIOPDecoder.readObject_of_laid hb.laid hid hhost hkey hD⟩

/-- A stub that is passed on keeps pointing at the same object if it can be passed on over the
connection of the encoder.  Where the host at the far end of that connection can be expressed, it
does so only then. -/
theorem writeObject_stub_iff (e : GIOPEncoder) (c own : Connection) (hc : e.connection = some c)
    (repositoryId objectKey : Octets) (d : GIOPDecoder) :
    ∃ e', GIOPEncoder.writeObject (some (.stub ⟨repositoryId, objectKey, some own⟩)) e =
        .ok () e' ∧
      (e'.buffer.data.length < 2 ^ 63 →
        (Stub.PassableOver ⟨repositoryId, objectKey, some own⟩ c →
          ∃ d', GIOPDecoder.readObject true (d.on e'.buffer.data e.buffer.offset native) =
            .ok (some ⟨repositoryId, own.remote.host, own.remote.port, objectKey⟩) d') ∧
        (c.remote.host.length + 1 < 2 ^ 32 →
          ((∃ d', GIOPDecoder.readObject true (d.on e'.buffer.data e.buffer.offset native) =
            .ok (some ⟨repositoryId, own.remote.host, own.remote.port, objectKey⟩) d') ↔
              Stub.PassableOver ⟨repositoryId, objectKey, some own⟩ c))) := by
  obtain ⟨b, hrun, -, hread⟩ :=
    readObject_writeObject_stub e hc ⟨repositoryId, objectKey, some own⟩
  refine ⟨_, hrun, fun hD => ?_⟩
  have hD' : b.data.length < 2 ^ 64 := by
    have : b.data.length < 2 ^ 63 := hD
    omega
  have henough : Stub.PassableOver ⟨repositoryId, objectKey, some own⟩ c →
      ∃ d', GIOPDecoder.readObject true (d.on b.data e.buffer.offset native) =
        .ok (some ⟨repositoryId, own.remote.host, own.remote.port, objectKey⟩) d' := by
    rintro ⟨hremote, hid, hhost, hkey⟩
    have hown : own.remote = c.remote := Option.some.inj hremote
    rw [hown]
    exact hread d hD' hid hhost hkey
  refine ⟨henough, fun hhost => ⟨?_, henough⟩⟩
  rintro ⟨d', hd'⟩
  -- the reference that was read has lengths that can be expressed, so it is the one written
  obtain ⟨hid, -, hkey⟩ := GIOPDecoder.readObject_yields true _ _ _ hd' _ rfl
  obtain ⟨d'', hd''⟩ := hread d hD' hid hhost hkey
  have heq := hd''.symm.trans hd'
  simp only [EStateM.Result.ok.injEq, Option.some.injEq, IOR.mk.injEq, true_and, and_true] at heq
  obtain ⟨⟨hhost', hport'⟩, -⟩ := heq
  have hremote : own.remote = c.remote := by
    cases hc' : c.remote
    cases ho' : own.remote
    simp_all
  exact ⟨congrArg some hremote, hid, hhost, hkey⟩

omit [Platform] in
/-- Over the connection it was obtained over, a stub can be passed on. -/
theorem writeObject_stub_same :
    letI : Platform := ⟨.little⟩
    ∃ e' d', GIOPEncoder.writeObject
        (some (.stub ⟨ascii "IDL:Echo:1.0", ascii "OID:1",
          some ⟨⟨ascii "far", 2809⟩, ⟨ascii "near", 2810⟩, true⟩⟩))
        { connection := some ⟨⟨ascii "far", 2809⟩, ⟨ascii "near", 2810⟩, true⟩ } = .ok () e' ∧
      GIOPDecoder.readObject true
          { buffer := ⟨e'.buffer.data, 0, some .little⟩, connection := none } =
        .ok (some ⟨ascii "IDL:Echo:1.0", ascii "far", 2809, ascii "OID:1"⟩) d' := by
  let : Platform := ⟨.little⟩
  let c : Connection := ⟨⟨ascii "far", 2809⟩, ⟨ascii "near", 2810⟩, true⟩
  obtain ⟨e', hrun, h⟩ := writeObject_stub_iff { connection := some c } c c rfl
    (ascii "IDL:Echo:1.0") (ascii "OID:1") { buffer := ⟨[], 0, none⟩, connection := none }
  have hsize : (State (GIOPEncoder.writeObject
      (some (.stub ⟨ascii "IDL:Echo:1.0", ascii "OID:1", some c⟩))
      { connection := some c })).buffer.data.length < 2 ^ 63 := by
    decide +kernel
  rw [hrun] at hsize
  obtain ⟨d', hread⟩ := (h hsize).1 ⟨rfl, by decide, by decide, by decide⟩
  exact ⟨e', d', hrun, hread⟩

omit [Platform] in
/-- A stub for an object at a third party, passed on to a peer: the reference names the peer. -/
theorem writeObject_stub_third_party :
    letI : Platform := ⟨.little⟩
    ¬ ∀ (e : GIOPEncoder) (c own : Connection) (s : Stub), e.connection = some c →
      s.connection = some own →
      ∃ e', GIOPEncoder.writeObject (some (.stub s)) e = .ok () e' ∧
        ∃ d', GIOPDecoder.readObject true
            { buffer := ⟨e'.buffer.data, e.buffer.offset, some .little⟩, connection := none } =
          .ok (some ⟨s.repositoryId, own.remote.host, own.remote.port, s.objectKey⟩) d' := by
  intro h
  let e : GIOPEncoder := { connection := some ⟨⟨ascii "peer", 2809⟩, ⟨ascii "near", 2810⟩, true⟩ }
  let s : Stub := ⟨ascii "IDL:Echo:1.0", ascii "OID:1",
    some ⟨⟨ascii "third", 2809⟩, ⟨ascii "near", 2810⟩, true⟩⟩
  obtain ⟨e', hrun, d', hd'⟩ := h e _ _ s rfl rfl
  obtain ⟨b, hrun', hb, hread⟩ := @readObject_writeObject_stub ⟨.little⟩ e _ rfl s
  have hsame := hrun.symm.trans hrun'
  cases hsame
  have hlen : b.data.length < 2 ^ 64 := by
    have hle := hb.length_le_offset (Nat.zero_le _)
    have hoff : b.offset < 2 ^ 64 := by
      rw [hb.offset]
      decide
    omega
  obtain ⟨d'', hd''⟩ := hread { buffer := ⟨[], 0, none⟩, connection := none } hlen (by decide)
    (by decide) (by decide)
  have heq := hd''.symm.trans hd'
  simp only [EStateM.Result.ok.injEq, Option.some.injEq, IOR.mk.injEq] at heq
  exact absurd heq.1.2.1 (by decide)

end Corba
