/-
Requests: what the encoder sends, the decoder reads.

Main definitions:

* `Corba.GIOPEncoder.writeValues` — the arguments of an operation;
* `Corba.Giop.request` — the header of a request in its version.

Main results:

* `Corba.GIOPEncoder.message_of_wrote` — the message that results from what has been written;
* `Corba.request_round_trip` — the round trip of requests.
-/

import Corba.CdrRoundTrip
import Corba.GiopScan

set_option relaxedAutoImplicit false
set_option autoImplicit false

namespace Corba

open Layout ByteOrder Placed Exec

variable [Platform]

/-! ### Messages -/

/-- Values written one after the other. -/
def GIOPEncoder.writeValues (vs : List Value) : EncodeM Unit := write (·.writeValues vs)

/-- A program that has laid out items behind the twelfth octet, and then puts the header in front:
the message holds both, and is as long as the header says. -/
theorem GIOPEncoder.message_of_wrote {e : GIOPEncoder} {b : CDREncoder} {xs : Cdr.Items}
    (type : MessageType) {v : UInt32}
    (hb : CDREncoder.Wrote (Cdr.ulong native v ++ xs) { offset := 10 } b) :
    ∃ D, setGIOPHeader type { e with buffer := b } =
        .ok () { e with buffer := { b with data := D } } ∧
      D.length = b.offset ∧ 16 ≤ D.length ∧
      Laid D 0 (Giop.header native (UInt8.ofNat e.majorVersion) (UInt8.ofNat e.minorVersion) type
        (UInt32.ofNat (D.length - 12))) ∧
      Laid D 12 (Cdr.ulong native v ++ xs) ∧
      extent 12 (Cdr.ulong native v ++ xs) = D.length := by
  have hoff : b.offset = extent 12 (Cdr.ulong native v ++ xs) :=
    hb.offset.trans (Giop.extent_ten _)
  have hfour : roundUp 4 12 = 12 := rfl
  have hle : 16 ≤ b.offset := by
    rw [hoff, extent_append, Cdr.extent_ulong, hfour]
    exact le_extent 16 _
  have hclean : b.data.length ≤ b.offset := hb.length_le_offset (Nat.zero_le _)
  obtain ⟨D, hrun, hlen, hhead, hkeep⟩ := setGIOPHeader_spec { e with buffer := b } type hclean
    (by show 12 ≤ b.offset; omega)
  have hlen' : D.length = b.offset := hlen
  refine ⟨D, hrun, hlen, by omega, ?_, ?_, by omega⟩
  · rw [hlen']
    exact hhead
  · exact (Giop.laid_ten.1 hb.laid).keep hkeep le_rfl hoff.ge

/-! ### Requests -/

namespace Giop

/-- The header of a request, whose layout and flags depend on the version. -/
def request (e : Endian) (legacy : Bool) (c : Option Connection) (objectKey operation : Octets)
    (requestId : UInt32) (responseExpected : Bool) : Cdr.Items :=
  if legacy then
    requestHeaderLegacy e c objectKey operation requestId (if responseExpected then 1 else 0)
  else
    requestHeader e c objectKey operation requestId (if responseExpected then 3 else 0)

omit [Platform] in
/-- Every request begins with a number: that of its service contexts, or its own. -/
theorem request_ulong (e : Endian) (legacy : Bool) (c : Option Connection)
    (objectKey operation : Octets) (requestId : UInt32) (responseExpected : Bool) :
    ∃ v xs, request e legacy c objectKey operation requestId responseExpected =
      Cdr.ulong e v ++ xs := by
  cases legacy with
  | false =>
      exact ⟨requestId, _, by
        simp only [request, requestHeader, requestHeaderFront, requestFront, List.append_assoc,
          Bool.false_eq_true, if_false]
        rfl⟩
  | true =>
      obtain ⟨v, xs, hv⟩ : ∃ v xs, serviceContext e 12 c = Cdr.ulong e v ++ xs := by
        cases c with
        | none => exact ⟨0, [], rfl⟩
        | some c =>
            rw [serviceContext]
            split
            · exact ⟨0, [], rfl⟩
            · exact ⟨1, _, rfl⟩
      exact ⟨v, _, by rw [request, if_pos rfl, requestHeaderLegacy, hv, List.append_assoc]⟩

end Giop

/-- What the decoder makes of the header of a request. -/
theorem GIOPDecoder.scanRequestHeader_request {d : GIOPDecoder} {D : Octets} {e : Endian}
    {legacy : Bool} {c : Option Connection} {objectKey operation : Octets} {requestId : UInt32}
    {responseExpected : Bool}
    (h : Laid D 12 (Giop.request e legacy c objectKey operation requestId responseExpected))
    (hext : extent 12 (Giop.request e legacy c objectKey operation requestId responseExpected) <
      2 ^ 32)
    (hD : D.length < 2 ^ 64) (hl : d.isLegacy = legacy) (hd : c.isSome → d.connection.isSome) :
    ∃ key op,
      scanRequestHeader (d.on D 12 e) =
        .ok ⟨requestId, responseExpected, ⟨key, objectKey.length⟩, ⟨op, operation.length⟩⟩
          ({ d with connection := heard c d.connection }.on D
            (extent 12 (Giop.request e legacy c objectKey operation requestId responseExpected))
            e) ∧
      At D key objectKey ∧ At D op operation := by
  cases legacy with
  | true =>
      have hflag : responseExpectedOf true (if responseExpected then 1 else 0) =
          responseExpected := by cases responseExpected <;> rfl
      obtain ⟨key, op, hrun, hat⟩ := scanRequestHeader_legacy h hext hD hl hd
      rw [hflag] at hrun
      exact ⟨key, op, hrun, hat⟩
  | false =>
      have hflag : responseExpectedOf false (if responseExpected then 3 else 0) =
          responseExpected := by cases responseExpected <;> rfl
      obtain ⟨key, op, hrun, hat⟩ := scanRequestHeader_run h hext hD hl hd
      rw [hflag] at hrun
      exact ⟨key, op, hrun, hat⟩

/-- Whatever the connection and the version, the decoder reads back what the encoder has written:
the version, the length, the id, the response flag, the key, the operation, and from the offset at
which the encoder wrote the first argument on, the arguments. -/
theorem request_round_trip (connection receiver : Option Connection) (minor : ℕ)
    (hminor : minor ≤ 2) (objectKey operation : Octets) (requestId : UInt32)
    (responseExpected : Bool) (ps : List (Value × Reader)) (hp : ∀ p ∈ ps, p.2 ∈ p.1.readers)
    (hreceiver : connection.isSome → receiver.isSome) :
    ∃ e₁ e₂ : GIOPEncoder,
      GIOPEncoder.encodeRequest objectKey operation requestId responseExpected
        { connection, minorVersion := minor } = .ok () e₁ ∧
      (do GIOPEncoder.writeValues (ps.map Prod.fst)
          GIOPEncoder.setGIOPHeader .request) e₁ = .ok () e₂ ∧
      (e₂.buffer.data.length < 2 ^ 32 →
        ∃ (d₁ d₂ : GIOPDecoder) (header : RequestHeader),
          GIOPDecoder.scanGIOPHeader
            { buffer := ⟨e₂.buffer.data, 0, none⟩, connection := receiver } = .ok .request d₁ ∧
          d₁.majorVersion = 1 ∧ d₁.minorVersion = minor ∧
          d₁.m_length + 12 = e₂.buffer.data.length ∧
          GIOPDecoder.scanRequestHeader d₁ = .ok header d₂ ∧
          header.requestId = requestId ∧ header.responseExpected = responseExpected ∧
          GIOPDecoder.octets header.objectKey d₂ = .ok objectKey d₂ ∧
          GIOPDecoder.octets header.operation d₂ = .ok operation d₂ ∧
          d₂.buffer.m_offset = e₁.buffer.offset ∧
          readTrace (ps.map Prod.snd) d₂.buffer =
            List.zipWith (fun v k => (.ok v, k)) (ps.map Prod.fst)
              (writeTrace (ps.map Prod.fst) e₁.buffer)) := by
  let e : GIOPEncoder := { connection, minorVersion := minor }
  let args := Value.itemsAll native (ps.map Prod.fst)
  let request := Giop.request native e.isLegacy connection objectKey operation requestId
    responseExpected
  -- the header, the arguments behind it, and the twelve octets in front of both
  obtain ⟨b₁, hrun₁, hwrote₁⟩ :=
    GIOPEncoder.encodeRequest_run e objectKey operation requestId responseExpected
  obtain ⟨v, xs, hbegin⟩ : ∃ v xs, request = Cdr.ulong native v ++ xs :=
    Giop.request_ulong _ _ _ _ _ _ _
  have hwrote : CDREncoder.Wrote (Cdr.ulong native v ++ (xs ++ args)) { offset := 10 }
      (b₁.put args) := by
    rw [← List.append_assoc, ← hbegin]
    exact CDREncoder.Wrote.trans hwrote₁ (CDREncoder.Wrote.put args b₁)
  have hargs : GIOPEncoder.writeValues (ps.map Prod.fst)
      { e with buffer := b₁, connection := Giop.announced connection } =
      .ok () { e with buffer := b₁.put args, connection := Giop.announced connection } := by
    rw [GIOPEncoder.writeValues, GIOPEncoder.write_run, CDREncoder.writeValues_eq]
  obtain ⟨D, hrun₂, hlen, hmin, hhead, hbody, hend⟩ := GIOPEncoder.message_of_wrote
    (e := { e with connection := Giop.announced connection }) .request hwrote
  refine ⟨_, _, hrun₁, (bind_ok hargs _).trans hrun₂, fun hsize => ?_⟩
  have hsize' : D.length < 2 ^ 32 := hsize
  rw [← List.append_assoc, ← hbegin] at hbody hend
  obtain ⟨hrequest, hvalues⟩ := laid_append.1 hbody
  have hoff : b₁.offset = extent 12 request := by
    have h10 : b₁.offset = extent 10 request := hwrote₁.offset
    rw [h10, hbegin]
    exact Giop.extent_ten _
  have hfits : extent 12 request < 2 ^ 32 := by
    rw [extent_append] at hend
    have := le_extent (extent 12 request) args
    omega
  -- the decoder finds the version of the encoder in the first twelve octets
  have hversion : (UInt8.ofNat minor).toNat = minor :=
    UInt8.toNat_ofNat_of_lt' (by show minor < 256; omega)
  have hlength : (UInt32.ofNat (D.length - 12)).toNat = D.length - 12 :=
    UInt32.toNat_ofNat_of_lt' (by show D.length - 12 < 2 ^ 32; omega)
  have hscan := GIOPDecoder.scanGIOPHeader_run
    (d := { buffer := ⟨D, 0, none⟩, connection := receiver }) hhead hmin rfl
  obtain ⟨key, op, hrun, hkey, hop⟩ := GIOPDecoder.scanRequestHeader_request
    (d := { buffer := ⟨D, 12, some native⟩, connection := receiver, minorVersion := minor,
            m_length := D.length - 12 }) hrequest hfits (by omega) rfl hreceiver
  rw [hversion, hlength] at hscan
  refine ⟨_, _, _, hscan, rfl, rfl, ?_, hrun, rfl, rfl, GIOPDecoder.octets_on hkey,
    GIOPDecoder.octets_on hop, hoff.symm, ?_⟩
  · show D.length - 12 + 12 = D.length
    omega
  · refine readTrace_of_laid (show D.length < 2 ^ 63 by omega) ps _ b₁ hoff ?_ hvalues
    intro p hps
    refine ⟨?_, hp p hps⟩
    have hargs' : extent (extent 12 request) args < 2 ^ 32 := by
      rw [← extent_append, hend]
      exact hsize'
    exact Value.fits_of_extent_all_lt hargs' p.1 (List.mem_map_of_mem hps)

omit [Platform] in
/-- A request of GIOP 1.2 over a connection that has not announced its near end yet. -/
theorem request_round_trip_announcing :
    letI : Platform := ⟨.little⟩
    ∃ (e₁ e₂ : GIOPEncoder) (d₁ d₂ : GIOPDecoder) (header : RequestHeader),
      GIOPEncoder.encodeRequest (ascii "1") (ascii "add") 4 true
        { connection := some ⟨⟨ascii "far", 2809⟩, ⟨ascii "near", 2810⟩, false⟩ } = .ok () e₁ ∧
      (do GIOPEncoder.writeValues [.octet 1, .double 2]
          GIOPEncoder.setGIOPHeader .request) e₁ = .ok () e₂ ∧
      GIOPDecoder.scanGIOPHeader
        { buffer := ⟨e₂.buffer.data, 0, none⟩
          connection := some ⟨⟨ascii "near", 5⟩, ⟨ascii "far", 2809⟩, false⟩ } =
        .ok .request d₁ ∧
      GIOPDecoder.scanRequestHeader d₁ = .ok header d₂ ∧ header.requestId = 4 ∧
      GIOPDecoder.octets header.operation d₂ = .ok (ascii "add") d₂ := by
  let : Platform := ⟨.little⟩
  obtain ⟨e₁, e₂, h₁, h₂, h⟩ := request_round_trip
    (some ⟨⟨ascii "far", 2809⟩, ⟨ascii "near", 2810⟩, false⟩)
    (some ⟨⟨ascii "near", 5⟩, ⟨ascii "far", 2809⟩, false⟩) 2 (by decide) (ascii "1") (ascii "add")
    4 true [(.octet 1, .octet), (.double 2, .double)] (by decide) (by decide)
  simp only [List.map_cons, List.map_nil] at h₂
  let m : EncodeM Unit := do
    GIOPEncoder.encodeRequest (ascii "1") (ascii "add") 4 true
    GIOPEncoder.writeValues [.octet 1, .double 2]
    GIOPEncoder.setGIOPHeader .request
  have hrun : m { connection := some ⟨⟨ascii "far", 2809⟩, ⟨ascii "near", 2810⟩, false⟩ } =
      .ok () e₂ :=
    (bind_ok h₁ _).trans h₂
  have hsize : (State (m { connection := some ⟨⟨ascii "far", 2809⟩, ⟨ascii "near", 2810⟩,
      false⟩ })).buffer.data.length < 2 ^ 32 := by
    decide +kernel
  rw [hrun] at hsize
  obtain ⟨d₁, d₂, header, hscan, -, -, -, hrequest, hid, -, -, hop, -⟩ := h hsize
  exact ⟨e₁, e₂, d₁, d₂, header, h₁, h₂, hscan, hrequest, hid, hop⟩

end Corba
