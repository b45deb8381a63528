/-
References in a message.

A reference is read from where it has been written, and the values around it are what they were.
The encoder writes the null reference as one without profiles, which is not what the decoder takes
for the null reference.

Main definitions:

* `Corba.Giop.Referable` — the references that can be expressed;
* `Corba.Giop.nullReference` — the null reference of the encoder;
* `Corba.GIOPEncoder.writeObjects`, `Corba.GIOPDecoder.readObjects` — references in a row.

Main results:

* `Corba.GIOPDecoder.readObject_run` — where the decoder stands behind a reference;
* `Corba.servant_reference_round_trip` — a reference to a servant and the values around it;
* `Corba.nulls_keep_place_iff` — null references keep their place when there are none.
-/

import Corba.GiopReference
import Corba.GiopRequest

set_option relaxedAutoImplicit false
set_option autoImplicit false

namespace Corba

open Layout ByteOrder Placed Exec

namespace Giop

/-! ### References that can be expressed -/

/-- The lengths in a reference can be expressed. -/
def Referable (major minor : ℕ) (repositoryId : Octets) (a : HostAndPort) (objectKey : Octets) :
    Prop :=
  repositoryId.length + 1 < 0x7fffff00 ∧ profileSize major minor a objectKey < 2 ^ 32

instance (major minor : ℕ) (repositoryId : Octets) (a : HostAndPort) (objectKey : Octets) :
    Decidable (Referable major minor repositoryId a objectKey) := inferInstanceAs (Decidable (_ ∧ _))

/-- The host and the key are parts of the profile. -/
theorem lengths_lt_profileSize (major minor : ℕ) (a : HostAndPort) (objectKey : Octets) :
    a.host.length + 1 < profileSize major minor a objectKey ∧
      objectKey.length < profileSize major minor a objectKey := by
  have hfront : a.host.length + 1 < extent 0 (profileFront .big major minor a objectKey) ∧
      objectKey.length < extent 0 (profileFront .big major minor a objectKey) := by
    simp only [profileFront, extent_append, extent_listenPoint, Cdr.extent_octet, Cdr.extent_blob]
    have hstring := le_roundUp 4 (0 + 1 + 1 + 1)
    have hport := le_roundUp 2 (roundUp 4 (0 + 1 + 1 + 1) + 4 + (a.host.length + 1))
    have hkey := le_roundUp 4
      (roundUp 2 (roundUp 4 (0 + 1 + 1 + 1) + 4 + (a.host.length + 1)) + 2)
    omega
  rw [profileSize, profile, extent_append]
  exact ⟨hfront.1.trans_le (le_extent _ _), hfront.2.trans_le (le_extent _ _)⟩

/-- What a profile holds besides the host and the key has a fixed size, up to the alignments. -/
theorem profileSize_le (major minor : ℕ) (a : HostAndPort) (objectKey : Octets) :
    profileSize major minor a objectKey ≤ a.host.length + objectKey.length + 64 := by
  have hup := fun n => roundUp_lt (show 0 < 4 by decide) n
  have hup2 := roundUp_lt (show 0 < 2 by decide)
    (roundUp 4 (0 + 1 + 1 + 1) + 4 + (a.host.length + 1))
  have hhost := hup (0 + 1 + 1 + 1)
  have hfront : extent 0 (profileFront .big major minor a objectKey) ≤
      a.host.length + objectKey.length + 32 := by
    simp only [profileFront, extent_append, extent_listenPoint, Cdr.extent_octet, Cdr.extent_blob]
    have hkey := hup (roundUp 2 (roundUp 4 (0 + 1 + 1 + 1) + 4 + (a.host.length + 1)) + 2)
    omega
  rw [profileSize, profile, extent_append]
  generalize extent 0 (profileFront .big major minor a objectKey) = p at hfront ⊢
  split
  · simp only [components, extent_append, extent_encapsulation, Cdr.extent_ulong]
    have hcount := hup p
    have htype := hup (roundUp 4 p + 4)
    have hvalue := hup (roundUp 4 (roundUp 4 p + 4) + 9)
    omega
  · exact hfront.trans (by omega)

/-- What the encoder writes for the null reference: no type and no profiles. -/
def nullReference (e : Endian) : Cdr.Items :=
  Cdr.ulong e 1 ++ (Cdr.octet 0 ++ Cdr.ulong e 0)

end Giop

/-! ### One reference -/

variable [Platform]

namespace GIOPDecoder

variable {d : GIOPDecoder} {D : Octets} {o : ℕ} {e : Endian}

/-- **Behind a reference that can be expressed, the decoder stands where it ends.** -/
theorem readObject_run {major minor : ℕ} {repositoryId objectKey : Octets} {a : HostAndPort}
    (h : Laid D o (Giop.reference e o major minor repositoryId a objectKey))
    (href : Giop.Referable major minor repositoryId a objectKey) (hD : D.length < 2 ^ 63) :
    readObject true (d.on D o e) = .ok (some ⟨repositoryId, a.host, a.port, objectKey⟩)
      (d.on D (extent o (Giop.reference e o major minor repositoryId a objectKey)) e) := by
  obtain ⟨hid, hsize⟩ := href
  obtain ⟨hhost, hkey⟩ := Giop.lengths_lt_profileSize major minor a objectKey
  have hrun := readObject_of_laid (d := d) h hid (hhost.trans hsize) (hkey.trans hsize) (by omega)
  -- the profile begins in the buffer
  have hstart : Giop.profileStart o repositoryId + 1 ≤ D.length := by
    obtain ⟨p, rest, -, -, -, hp, -, hencapsulation⟩ := laid_reference h
    have hflag := (laid_raw.1 (laid_encapsulation hencapsulation).1).1
    rw [Giop.profileStart, ← hp]
    exact hflag.le_length (by simp)
  rwa [UInt32.toNat_ofNat_of_lt' hsize, sizeT_of_lt (by omega), ← Giop.extent_reference o e] at hrun

/-- What the encoder writes for the null reference is read as a reference without a profile, the port
of which is not set. -/
theorem readObject_nullReference (h : Laid D o (Giop.nullReference e)) (hD : D.length < 2 ^ 64) :
    ∃ d', readObject true (d.on D o e) = .error (.undefined .uninitialized) d' := by
  obtain ⟨hcode, hrest⟩ := laid_append.1 h
  obtain ⟨htype, hcount⟩ := laid_append.1 hrest
  rw [Cdr.extent_ulong] at htype hcount
  rw [Cdr.extent_octet] at hcount
  have hnothing : At D (roundUp 4 o + 4) (([] : Octets) ++ [0]) := (laid_raw.1 htype).1
  have hstring : read (CDRDecoder.readStringOf 1) (d.on D (roundUp 4 o + 4) e) =
      .ok [] (d.on D (roundUp 4 o + 4 + 1) e) :=
    read_on (CDRDecoder.readStringOf_run hnothing (by decide) hD)
  have hcount' := readUlong_on (d := d) hcount hD
  refine ⟨d.on D (roundUp 4 (roundUp 4 o + 4 + 1) + 4) e, ?_⟩
  rw [readObject, bind_ok (readUlong_on hcode hD), if_neg (by decide), if_neg (by decide),
    if_neg (by decide), if_pos (by decide)]
  refine bind_error ?_ _
  show readReference 1 _ = _
  rw [readReference, bind_ok hstring, bind_ok hcount']
  have hnone : readProfiles (0 : UInt32).toNat none
      (d.on D (roundUp 4 (roundUp 4 o + 4 + 1) + 4) e) = .ok none _ := rfl
  rw [bind_ok hnone]
  rfl

end GIOPDecoder

namespace GIOPEncoder

theorem writes_servant (e : GIOPEncoder) {c : Connection} (hc : e.connection = some c)
    (s : Skeleton) :
    Writes (writeObject (some (.skeleton s))) e
      (Giop.reference native e.buffer.offset e.majorVersion e.minorVersion s.repositoryId
        c.protocolLocal s.objectKey) e.connection :=
  writes_reference e hc s.repositoryId s.objectKey false

theorem writes_null (e : GIOPEncoder) :
    Writes (writeObject none) e (Giop.nullReference native) e.connection :=
  Writes.bind (writes_ulong e 1) fun _ _ => Writes.bind (writes_octet _ 0) fun _ _ =>
    writes_ulong _ 0

theorem writes_values (e : GIOPEncoder) (vs : List Value) :
    Writes (writeValues vs) e (Value.itemsAll native vs) e.connection :=
  writes_put e (CDREncoder.writeValues_eq _ vs)

end GIOPEncoder

/-- **A reference to a servant is read from where it has been written, and so are the values in front
of it and behind it.** -/
theorem servant_reference_round_trip (e : GIOPEncoder) (c : Connection) (hc : e.connection = some c)
    (s : Skeleton) (before after : List (Value × Reader))
    (hfits : ∀ p ∈ before ++ after, p.1.Fits ∧ p.2 ∈ p.1.readers)
    (href : Giop.Referable e.majorVersion e.minorVersion s.repositoryId c.protocolLocal
      s.objectKey) :
    ∃ e₁ e₂ e₃ : GIOPEncoder,
      GIOPEncoder.writeValues (before.map Prod.fst) e = .ok () e₁ ∧
      GIOPEncoder.writeObject (some (.skeleton s)) e₁ = .ok () e₂ ∧
      GIOPEncoder.writeValues (after.map Prod.fst) e₂ = .ok () e₃ ∧
      (e₃.buffer.data.length < 2 ^ 63 →
        readTrace (before.map Prod.snd) ⟨e₃.buffer.data, e.buffer.offset, some native⟩ =
          List.zipWith (fun v k => (.ok v, k)) (before.map Prod.fst)
            (writeTrace (before.map Prod.fst) e.buffer) ∧
        (∀ d : GIOPDecoder,
          GIOPDecoder.readObject true (d.on e₃.buffer.data e₁.buffer.offset native) =
            .ok (some ⟨s.repositoryId, c.protocolLocal.host, c.protocolLocal.port, s.objectKey⟩)
              (d.on e₃.buffer.data e₂.buffer.offset native)) ∧
        readTrace (after.map Prod.snd) ⟨e₃.buffer.data, e₂.buffer.offset, some native⟩ =
          List.zipWith (fun v k => (.ok v, k)) (after.map Prod.fst)
            (writeTrace (after.map Prod.fst) e₂.buffer)) := by
  obtain ⟨b₁, hrun₁, hwrote₁⟩ := GIOPEncoder.writes_values e (before.map Prod.fst)
  obtain ⟨b₂, hrun₂, hwrote₂⟩ := GIOPEncoder.writes_servant
    { e with buffer := b₁ } hc s
  obtain ⟨b₃, hrun₃, hwrote₃⟩ := GIOPEncoder.writes_values
    { e with buffer := b₂ } (after.map Prod.fst)
  refine ⟨_, _, _, hrun₁, hrun₂, hrun₃, fun hD => ?_⟩
  have hD : b₃.data.length < 2 ^ 63 := hD
  -- what has been written first is still there at the end
  obtain ⟨hbefore, hrest⟩ := laid_append.1 (hwrote₁.trans (hwrote₂.trans hwrote₃)).laid
  rw [← hwrote₁.offset] at hrest
  obtain ⟨hreference, hafter⟩ := laid_append.1 hrest
  have hend : b₂.offset = extent b₁.offset _ := hwrote₂.offset
  rw [← hend] at hafter
  refine ⟨?_, fun d => ?_, ?_⟩
  · exact readTrace_of_laid hD before _ e.buffer rfl
      (fun p hp => hfits p (List.mem_append_left _ hp)) hbefore
  · have hobject := GIOPDecoder.readObject_run (d := d) hreference href hD
    rwa [← hend] at hobject
  · exact readTrace_of_laid hD after _ b₂ rfl
      (fun p hp => hfits p (List.mem_append_right _ hp)) hafter

omit [Platform] in
/-- Behind an octet and in front of a number. -/
theorem servant_reference_round_trip_between :
    letI : Platform := ⟨.little⟩
    ∃ e₁ e₂ e₃ : GIOPEncoder,
      GIOPEncoder.writeValues [.octet 7]
        { connection := some ⟨⟨ascii "far", 2809⟩, ⟨ascii "near", 2810⟩, true⟩ } = .ok () e₁ ∧
      GIOPEncoder.writeObject (some (.skeleton ⟨ascii "IDL:Echo:1.0", ascii "OID:1"⟩)) e₁ =
        .ok () e₂ ∧
      GIOPEncoder.writeValues [.ulong 258] e₂ = .ok () e₃ ∧
      readTrace [.octet] ⟨e₃.buffer.data, 0, some .little⟩ = [(.ok (.octet 7), 1)] ∧
      (∀ d : GIOPDecoder,
        GIOPDecoder.readObject true (d.on e₃.buffer.data e₁.buffer.offset .little) =
          .ok (some ⟨ascii "IDL:Echo:1.0", ascii "near", 2810, ascii "OID:1"⟩)
            (d.on e₃.buffer.data e₂.buffer.offset .little)) ∧
      readTrace [.ulong] ⟨e₃.buffer.data, e₂.buffer.offset, some .little⟩ =
        [(.ok (.ulong 258), (e₂.buffer.writeUlong 258).offset)] := by
  let : Platform := ⟨.little⟩
  let e : GIOPEncoder :=
    { connection := some ⟨⟨ascii "far", 2809⟩, ⟨ascii "near", 2810⟩, true⟩ }
  let s : Skeleton := ⟨ascii "IDL:Echo:1.0", ascii "OID:1"⟩
  obtain ⟨e₁, e₂, e₃, hbefore, hobject, hafter, hread⟩ := servant_reference_round_trip e _ rfl s
    [(.octet 7, .octet)] [(.ulong 258, .ulong)] (by decide) (by decide)
  have hsize : (State (GIOPEncoder.writeValues [.ulong 258] (State (GIOPEncoder.writeObject
      (some (.skeleton s)) (State (GIOPEncoder.writeValues [.octet 7] e)))))).buffer.data.length <
      2 ^ 63 := by
    decide +kernel
  have hone : State (GIOPEncoder.writeValues [.octet 7] e) = e₁ := congrArg State hbefore
  have htwo : State (GIOPEncoder.writeObject (some (.skeleton s)) e₁) = e₂ :=
    congrArg State hobject
  have hthree : State (GIOPEncoder.writeValues [.ulong 258] e₂) = e₃ := congrArg State hafter
  rw [hone, htwo, hthree] at hsize
  exact ⟨e₁, e₂, e₃, hbefore, hobject, hafter, hread hsize⟩

/-- No key that has been read is as long as this one. -/
theorem long_key_not_read {d d' : GIOPDecoder} {repositoryId host objectKey : Octets} {port : UInt16}
    (hkey : 2 ^ 32 ≤ objectKey.length) :
    GIOPDecoder.readObject true d ≠ .ok (some ⟨repositoryId, host, port, objectKey⟩) d' := by
  intro hrun
  obtain ⟨-, -, hlt⟩ := GIOPDecoder.readObject_yields true _ _ _ hrun _ rfl
  exact absurd hlt (Nat.not_lt.2 hkey)

omit [Platform] in
/-- A key whose length cannot be expressed. -/
theorem huge_key_lost :
    letI : Platform := ⟨.little⟩
    ∃ (c : Connection) (s : Skeleton) (e : GIOPEncoder),
      s.repositoryId.length < 0x7ffffeff ∧ s.objectKey.length = 2 ^ 32 ∧
      GIOPEncoder.writeObject (some (.skeleton s)) { connection := some c } = .ok () e ∧
      e.buffer.data.length < 2 ^ 63 ∧
      ∀ d d' : GIOPDecoder,
        GIOPDecoder.readObject true (d.on e.buffer.data 0 .little) ≠
          .ok (some ⟨s.repositoryId, c.protocolLocal.host, c.protocolLocal.port, s.objectKey⟩)
            d' := by
  let : Platform := ⟨.little⟩
  let c : Connection := ⟨⟨ascii "far", 2809⟩, ⟨ascii "near", 2810⟩, true⟩
  let s : Skeleton := ⟨ascii "IDL:Echo:1.0", List.replicate (2 ^ 32) 0⟩
  have hlength : s.objectKey.length = 2 ^ 32 := List.length_replicate
  obtain ⟨b, hrun, hwrote⟩ := GIOPEncoder.writes_servant { connection := some c } rfl s
  refine ⟨c, s, _, by decide, hlength, hrun, ?_, fun d d' => long_key_not_read hlength.ge⟩
  have hle : b.data.length ≤ b.offset := hwrote.length_le_offset (Nat.zero_le _)
  have hoffset := hwrote.offset
  rw [Giop.extent_reference] at hoffset
  have hstart : Giop.profileStart 0 (ascii "IDL:Echo:1.0") < 2 ^ 32 := by decide
  have hsize := Giop.profileSize_le 1 2 c.protocolLocal s.objectKey
  have hhost : c.protocolLocal.host.length = 4 := rfl
  show b.data.length < 2 ^ 63
  change b.offset = Giop.profileStart 0 (ascii "IDL:Echo:1.0") +
    Giop.profileSize 1 2 c.protocolLocal s.objectKey at hoffset
  omega

/-! ### References in a row -/

/-- References, one after the other. -/
def GIOPEncoder.writeObjects : List (Option Object) → EncodeM Unit
  | [] => return
  | r :: rs => do
      writeObject r
      writeObjects rs

def GIOPDecoder.readObjects (orb : Bool) : ℕ → ScanM (List (Option IOR))
  | 0 => return []
  | n + 1 => do
      let r ← readObject orb
      return r :: (← readObjects orb n)

/-- What is read has null where it has been written. -/
def NullsKept (rs : List (Option Skeleton)) (d : GIOPDecoder) : Prop :=
  ∃ iors d', GIOPDecoder.readObjects true rs.length d = .ok iors d' ∧
    iors.map Option.isNone = rs.map Option.isNone

namespace GIOPEncoder

/-- The layout of null references and references to servants. -/
def rowItems (major minor : ℕ) (near : HostAndPort) : ℕ → List (Option Skeleton) → Cdr.Items
  | _, [] => []
  | o, none :: rs =>
      Giop.nullReference native ++
        rowItems major minor near (extent o (Giop.nullReference native)) rs
  | o, some s :: rs =>
      let reference :=
        Giop.reference native o major minor s.repositoryId near s.objectKey
      reference ++ rowItems major minor near (extent o reference) rs

theorem writes_row (e : GIOPEncoder) {c : Connection} (hc : e.connection = some c)
    (rs : List (Option Skeleton)) :
    Writes (writeObjects (rs.map (Option.map Object.skeleton))) e
      (rowItems e.majorVersion e.minorVersion c.protocolLocal e.buffer.offset rs) e.connection := by
  induction rs generalizing e with
  | nil => exact writes_nil e
  | cons r rs ih =>
      cases r with
      | none =>
          refine Writes.bind (writes_null e) fun b hb => ?_
          rw [← hb.offset]
          exact ih { e with buffer := b } hc
      | some s =>
          refine Writes.bind (writes_servant e hc s) fun b hb => ?_
          rw [← hb.offset]
          exact ih { e with buffer := b } hc

end GIOPEncoder

/-- Null is only read back where there is none. -/
theorem nullsKept_iff {major minor : ℕ} {near : HostAndPort} {D : Octets} {o : ℕ} {d : GIOPDecoder}
    {rs : List (Option Skeleton)}
    (hrs : ∀ s, some s ∈ rs → Giop.Referable major minor s.repositoryId near s.objectKey)
    (h : Laid D o (GIOPEncoder.rowItems major minor near o rs)) (hD : D.length < 2 ^ 63) :
    NullsKept rs (d.on D o native) ↔ none ∉ rs := by
  induction rs generalizing o with
  | nil => exact iff_of_true ⟨[], _, rfl, rfl⟩ List.not_mem_nil
  | cons r rs ih =>
      cases r with
      | none =>
          -- the port of a reference without a profile is not set
          obtain ⟨d', hrun⟩ := GIOPDecoder.readObject_nullReference (d := d) (laid_append.1 h).1
            (by omega)
          refine iff_of_false ?_ fun hnone => hnone (List.mem_cons_self ..)
          rintro ⟨iors, d'', hread, -⟩
          rw [List.length_cons, GIOPDecoder.readObjects, bind_error hrun] at hread
          cases hread
      | some s =>
          have hs := hrs s (List.mem_cons_self ..)
          obtain ⟨hfirst, hrest⟩ := laid_append.1 h
          have hrun := GIOPDecoder.readObject_run (d := d) hfirst hs hD
          have hih := ih (fun s' hs' => hrs s' (List.mem_cons_of_mem _ hs')) hrest
          rw [List.mem_cons, not_or, ← hih]
          constructor
          · rintro ⟨iors, d', hread, hnulls⟩
            refine ⟨nofun, ?_⟩
            rw [List.length_cons, GIOPDecoder.readObjects, bind_ok hrun] at hread
            obtain ⟨iors', d'', hread', hpure⟩ := bind_eq_ok.1 hread
            cases hpure
            exact ⟨iors', d', hread', (List.cons.inj hnulls).2⟩
          · rintro ⟨-, iors, d', hread, hnulls⟩
            refine ⟨some ⟨s.repositoryId, near.host, near.port, s.objectKey⟩ :: iors, d', ?_,
              congrArg (List.cons false) hnulls⟩
            rw [List.length_cons, GIOPDecoder.readObjects, bind_ok hrun, bind_ok hread, pure_run]

/-- **Null references keep their place exactly when there are none.** -/
theorem nulls_keep_place_iff (e : GIOPEncoder) (c : Connection) (hc : e.connection = some c)
    (rs : List (Option Skeleton))
    (hrs : ∀ s, some s ∈ rs → Giop.Referable e.majorVersion e.minorVersion s.repositoryId
      c.protocolLocal s.objectKey) :
    ∃ e', GIOPEncoder.writeObjects (rs.map (Option.map Object.skeleton)) e = .ok () e' ∧
      (e'.buffer.data.length < 2 ^ 63 → ∀ d : GIOPDecoder,
        NullsKept rs (d.on e'.buffer.data e.buffer.offset native) ↔ none ∉ rs) := by
  obtain ⟨b, hrun, hwrote⟩ := GIOPEncoder.writes_row e hc rs
  exact ⟨_, hrun, fun hD d => nullsKept_iff hrs hwrote.laid hD⟩

omit [Platform] in
/-- Between two servants, the null reference does not come back. -/
theorem nulls_keep_place_iff_between :
    letI : Platform := ⟨.little⟩
    let rs := [some ⟨ascii "IDL:Echo:1.0", ascii "OID:1"⟩, none,
      some ⟨ascii "IDL:Echo:1.0", ascii "OID:2"⟩]
    ∃ e', GIOPEncoder.writeObjects (rs.map (Option.map Object.skeleton))
        { connection := some ⟨⟨ascii "far", 2809⟩, ⟨ascii "near", 2810⟩, true⟩ } = .ok () e' ∧
      ∀ d : GIOPDecoder, ¬ NullsKept rs (d.on e'.buffer.data 0 .little) := by
  let : Platform := ⟨.little⟩
  intro rs
  let e : GIOPEncoder :=
    { connection := some ⟨⟨ascii "far", 2809⟩, ⟨ascii "near", 2810⟩, true⟩ }
  have hrs : ∀ s, some s ∈ rs → Giop.Referable 1 2 s.repositoryId ⟨ascii "near", 2810⟩
      s.objectKey := by
    intro s hs
    rcases List.mem_cons.1 hs with hs | hs
    · cases hs
      decide
    · obtain hs | hs := List.mem_cons.1 hs
      · cases hs
      · obtain rfl := Option.some.inj (List.mem_singleton.1 hs)
        decide
  obtain ⟨e', hrun, hkept⟩ := nulls_keep_place_iff e _ rfl rs hrs
  have hsize : (State (GIOPEncoder.writeObjects
      (rs.map (Option.map Object.skeleton)) e)).buffer.data.length < 2 ^ 63 := by
    decide +kernel
  rw [hrun] at hsize
  exact ⟨e', hrun, fun d h => (hkept hsize d).1 h (List.mem_cons_of_mem _ (List.mem_cons_self ..))⟩

omit [Platform] in
/-- Already the only entry is not read as null. -/
theorem null_not_read :
    letI : Platform := ⟨.little⟩
    ∃ (c : Connection) (e : GIOPEncoder),
      GIOPEncoder.writeObjects [none] { connection := some c } = .ok () e ∧
      e.buffer.offset = 12 ∧
      ∀ d : GIOPDecoder, ¬ NullsKept [none] (d.on e.buffer.data 0 .little) := by
  let : Platform := ⟨.little⟩
  let c : Connection := ⟨⟨ascii "far", 2809⟩, ⟨ascii "near", 2810⟩, true⟩
  obtain ⟨b, hrun, hwrote⟩ := GIOPEncoder.writes_row { connection := some c } rfl [none]
  have hoffset : b.offset = 12 := by
    rw [hwrote.offset, GIOPEncoder.rowItems, GIOPEncoder.rowItems, Giop.nullReference]
    simp only [extent_append, Cdr.extent_ulong, Cdr.extent_octet, extent_nil]
    rfl
  have hlen : b.data.length ≤ b.offset := hwrote.length_le_offset (Nat.zero_le _)
  refine ⟨c, _, hrun, hoffset, fun d hkept => ?_⟩
  exact (nullsKept_iff (by simp) hwrote.laid (by omega)).1 hkept (List.mem_singleton_self _)

end Corba
