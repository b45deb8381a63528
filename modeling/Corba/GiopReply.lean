/-
Replies: what the encoder sends, the decoder reads.

A reply is written behind the room of its header, which is filled in at the end.  The room has
twenty-four octets: twelve for what every message begins with, and twelve for the number of service
contexts, which is zero, the id of the request and the status.

Main definitions:

* `Corba.GIOPEncoder.finishReply` — putting both headers in front.

Main results:

* `Corba.GIOPEncoder.finishReply_spec` — both headers are in place, and what stood behind the room
  is as it was;
* `Corba.GIOPDecoder.scanReply_run` — what the decoder makes of them;
* `Corba.reply_round_trip` — the round trip of replies.
-/

import Corba.GiopRequest

set_option relaxedAutoImplicit false
set_option autoImplicit false

namespace Corba

open Layout ByteOrder Placed Exec

namespace Giop

theorem replyHeader_ulong (e : Endian) (major minor : ℕ) (requestId : UInt32)
    (status : ReplyStatus) :
    ∃ v xs, replyHeader e major minor requestId status = Cdr.ulong e v ++ xs := by
  rw [replyHeader]
  split
  · exact ⟨0, _, rfl⟩
  · exact ⟨requestId, _, rfl⟩

theorem extent_replyHeader_le (e : Endian) (major minor : ℕ) (requestId : UInt32)
    (status : ReplyStatus) : extent 12 (replyHeader e major minor requestId status) ≤ 24 := by
  have h12 : roundUp 4 12 = 12 := rfl
  have h16 : roundUp 4 16 = 16 := rfl
  have h20 : roundUp 4 20 = 20 := rfl
  simp only [replyHeader, extent_append]
  split <;> split <;> simp [h12, h16, h20]
  omega

/-- In the versions the protocol has, the header fills its room. -/
theorem extent_replyHeader (e : Endian) (minor : ℕ) (requestId : UInt32) (status : ReplyStatus) :
    extent 12 (replyHeader e 1 minor requestId status) = 24 := by
  have h12 : roundUp 4 12 = 12 := rfl
  have h16 : roundUp 4 16 = 16 := rfl
  have h20 : roundUp 4 20 = 20 := rfl
  simp only [replyHeader, extent_append]
  rcases Nat.lt_or_ge minor 2 with hlt | hge
  · simp [hlt, Nat.not_le.2 hlt, h12, h16, h20]
  · simp [hge, Nat.not_lt.2 hge, h12, h16, h20]

end Giop

variable [Platform]

/-- Put both headers of a reply in front of its body. -/
def GIOPEncoder.finishReply (requestId : UInt32) (status : ReplyStatus) : EncodeM Unit := do
  setGIOPHeader .reply
  setReplyHeader requestId status

/-- Nothing behind the room of the headers changes, and the message ends where the body ended. -/
theorem GIOPEncoder.finishReply_spec (e : GIOPEncoder) (requestId : UInt32) (status : ReplyStatus)
    (hlen : e.buffer.data.length ≤ e.buffer.offset) (hoff : 24 ≤ e.buffer.offset) :
    ∃ b : CDREncoder, finishReply requestId status e = .ok () { e with buffer := b } ∧
      b.data.length = e.buffer.offset ∧
      Laid b.data 0 (Giop.header native (UInt8.ofNat e.majorVersion) (UInt8.ofNat e.minorVersion)
        .reply (UInt32.ofNat (b.data.length - 12))) ∧
      Laid b.data 12 (Giop.replyHeader native e.majorVersion e.minorVersion requestId status) ∧
      Keep 24 e.buffer.offset e.buffer.data b.data := by
  obtain ⟨D, hrun, hD, hhead, hkeep⟩ := setGIOPHeader_spec e .reply hlen (by omega)
  let b : CDREncoder := { e.buffer with data := D, offset := 12 }
  obtain ⟨v, xs, hbegin⟩ :=
    Giop.replyHeader_ulong native e.majorVersion e.minorVersion requestId status
  have hrun' := setReplyHeader_run { e with buffer := { e.buffer with data := D } } requestId status
  have hten : CDREncoder.put (Giop.replyHeader native e.majorVersion e.minorVersion requestId
      status) { b with offset := 10 } =
      b.put (Giop.replyHeader native e.majorVersion e.minorVersion requestId status) := by
    rw [hbegin]
    exact Giop.put_ten b _
  have hroom := Giop.extent_replyHeader_le native e.majorVersion e.minorVersion requestId status
  have hlength : (b.put (Giop.replyHeader native e.majorVersion e.minorVersion requestId
      status)).data.length = e.buffer.offset := by
    have hle := Layout.length_write_le 0 D 12
      (Giop.replyHeader native e.majorVersion e.minorVersion requestId status)
    have hge := Layout.length_le_write 0 D 12
      (Giop.replyHeader native e.majorVersion e.minorVersion requestId status)
    show (Layout.write 0 D 12 _).length = _
    omega
  refine ⟨b.put (Giop.replyHeader native e.majorVersion e.minorVersion requestId status), ?_,
    hlength, ?_, CDREncoder.laid_put _ b, ?_⟩
  · rw [finishReply, bind_ok hrun, hrun']
    exact congrArg (fun b => EStateM.Result.ok () { e with buffer := b }) hten
  · rw [hlength]
    exact hhead.keep (CDREncoder.keep_put _ b 0) le_rfl (extent_header ..).le
  · refine (hkeep.mono (by decide) le_rfl).trans ?_
    exact (keep_write_above 0 D 12 e.buffer.offset _).mono hroom le_rfl

/-- What the decoder makes of both headers of a reply, in any version octets can express. -/
theorem GIOPDecoder.scanReply_run {D : Octets} {major minor : ℕ} {requestId : UInt32}
    {status : ReplyStatus} (receiver : Option Connection)
    (hhead : Laid D 0 (Giop.header native (UInt8.ofNat major) (UInt8.ofNat minor) .reply
      (UInt32.ofNat (D.length - 12))))
    (hreply : Laid D 12 (Giop.replyHeader native major minor requestId status))
    (hmajor : major < 256) (hminor : minor < 256) (hmin : 16 ≤ D.length)
    (hsize : D.length < 2 ^ 64) :
    ∃ d₁ d₂ : GIOPDecoder,
      scanGIOPHeader { buffer := ⟨D, 0, none⟩, connection := receiver } = .ok .reply d₁ ∧
      scanReplyHeader d₁ = .ok ⟨requestId, status⟩ d₂ ∧
      d₁.majorVersion = major ∧ d₁.minorVersion = minor ∧
      d₁.m_length = (UInt32.ofNat (D.length - 12)).toNat ∧
      d₂.buffer =
        ⟨D, extent 12 (Giop.replyHeader native major minor requestId status), some native⟩ ∧
      d₂.replyStatus = status := by
  have hM : (UInt8.ofNat major).toNat = major := UInt8.toNat_ofNat_of_lt' hmajor
  have hm : (UInt8.ofNat minor).toNat = minor := UInt8.toNat_ofNat_of_lt' hminor
  have hscan := scanGIOPHeader_run
    (d := { buffer := ⟨D, 0, none⟩, connection := receiver }) hhead hmin rfl
  rw [hM, hm] at hscan
  exact ⟨_, _, hscan, scanReplyHeader_run
    (d := ⟨⟨D, 12, some native⟩, receiver, major, minor, _, _, _, _⟩) hreply hsize, rfl, rfl, rfl,
    rfl, rfl⟩

/-! ### The round trip -/

/-- The results are written behind the room of the headers, and the headers into it.  The decoder
reads back the version, the length, the id, the status, and from the end of the room on, the
results, of which the headers have not changed an octet. -/
theorem reply_round_trip (connection receiver : Option Connection) (minor : ℕ)
    (hminor : minor ≤ 2) (requestId : UInt32) (status : ReplyStatus)
    (ps : List (Value × Reader)) (hp : ∀ p ∈ ps, p.2 ∈ p.1.readers) :
    ∃ e₁ e₂ : GIOPEncoder,
      (do GIOPEncoder.skipReplyHeader
          GIOPEncoder.writeValues (ps.map Prod.fst))
        { connection, minorVersion := minor } = .ok () e₁ ∧
      (do GIOPEncoder.setGIOPHeader .reply
          GIOPEncoder.setReplyHeader requestId status) e₁ = .ok () e₂ ∧
      (∀ i, 24 ≤ i → i < e₁.buffer.data.length →
        e₂.buffer.data[i]? = e₁.buffer.data[i]?) ∧
      (e₂.buffer.data.length < 2 ^ 32 →
        ∃ d₁ d₂ : GIOPDecoder,
          GIOPDecoder.scanGIOPHeader
            { buffer := ⟨e₂.buffer.data, 0, none⟩, connection := receiver } = .ok .reply d₁ ∧
          d₁.majorVersion = 1 ∧ d₁.minorVersion = minor ∧
          d₁.m_length + 12 = e₂.buffer.data.length ∧
          GIOPDecoder.scanReplyHeader d₁ = .ok ⟨requestId, status⟩ d₂ ∧
          d₂.buffer.m_offset = 24 ∧
          readTrace (ps.map Prod.snd) d₂.buffer =
            List.zipWith (fun v k => (.ok v, k)) (ps.map Prod.fst)
              (writeTrace (ps.map Prod.fst) { offset := 24 })) := by
  let args := Value.itemsAll native (ps.map Prod.fst)
  let room : CDREncoder := { offset := 24 }
  let e₁ : GIOPEncoder := { connection, minorVersion := minor, buffer := room.put args }
  have hrun₁ : (do
      GIOPEncoder.skipReplyHeader
      GIOPEncoder.writeValues (ps.map Prod.fst)) { connection, minorVersion := minor } =
      .ok () e₁ := by
    rw [GIOPEncoder.skipReplyHeader, bind_ok (GIOPEncoder.setOffset_run _ _),
      GIOPEncoder.writeValues, GIOPEncoder.write_run, CDREncoder.writeValues_eq]
  have hwrote := CDREncoder.Wrote.put args room
  have hlen : e₁.buffer.data.length ≤ e₁.buffer.offset :=
    hwrote.length_le_offset (Nat.zero_le _)
  obtain ⟨b, hrun₂, hlength, hhead, hreply, hkeep⟩ :=
    GIOPEncoder.finishReply_spec e₁ requestId status hlen hwrote.le_offset
  refine ⟨e₁, { e₁ with buffer := b }, hrun₁, hrun₂, ?_, fun hsize => ?_⟩
  · intro i hge hlt
    rw [List.getElem?_eq_getElem hlt]
    exact hkeep i hge (hlt.trans_le hlen) _ (List.getElem?_eq_getElem hlt)
  · have hsize' : b.data.length < 2 ^ 32 := hsize
    have hge : 24 ≤ e₁.buffer.offset := hwrote.le_offset
    obtain ⟨d₁, d₂, hscan, hscan', hM, hm, hl, hd₂, -⟩ := GIOPDecoder.scanReply_run receiver
      hhead hreply (show 1 < 256 by decide) (show minor < 256 by omega) (by omega) (by omega)
    rw [Giop.extent_replyHeader] at hd₂
    have hl' : d₁.m_length + 12 = b.data.length := by
      rw [hl, UInt32.toNat_ofNat_of_lt' (by show b.data.length - 12 < 2 ^ 32; omega)]
      omega
    refine ⟨d₁, d₂, hscan, hM, hm, hl', hscan', by rw [hd₂], ?_⟩
    rw [hd₂]
    have hend : extent 24 args < 2 ^ 32 := by
      have hoff : e₁.buffer.offset = extent 24 args := rfl
      omega
    have hlaid : Laid b.data 24 args := hwrote.laid.keep hkeep le_rfl le_rfl
    refine readTrace_of_laid (show b.data.length < 2 ^ 63 by omega) ps 24 room rfl ?_ hlaid
    intro p hps
    exact ⟨Value.fits_of_extent_all_lt hend p.1 (List.mem_map_of_mem hps), hp p hps⟩

omit [Platform] in
/-- A reply of GIOP 1.0 whose body begins with a number that is aligned at eight. -/
theorem reply_round_trip_double :
    letI : Platform := ⟨.little⟩
    ∃ (e₁ e₂ : GIOPEncoder) (d₁ d₂ : GIOPDecoder),
      (do GIOPEncoder.skipReplyHeader
          GIOPEncoder.writeValues [.double 2, .string (ascii "two")])
        { connection := none, minorVersion := 0 } = .ok () e₁ ∧
      (do GIOPEncoder.setGIOPHeader .reply
          GIOPEncoder.setReplyHeader 9 .noException) e₁ = .ok () e₂ ∧
      GIOPDecoder.scanGIOPHeader
        { buffer := ⟨e₂.buffer.data, 0, none⟩, connection := none } = .ok .reply d₁ ∧
      GIOPDecoder.scanReplyHeader d₁ = .ok ⟨9, .noException⟩ d₂ ∧
      readTrace [.double, .string] d₂.buffer =
        [(.ok (.double 2), 32), (.ok (.string (ascii "two")), 40)] := by
  let : Platform := ⟨.little⟩
  obtain ⟨e₁, e₂, h₁, h₂, -, h⟩ := reply_round_trip none none 0 (by decide) 9 .noException
    [(.double 2, .double), (.string (ascii "two"), .string)] (by decide)
  simp only [List.map_cons, List.map_nil] at h₁
  let body : EncodeM Unit := do
    GIOPEncoder.skipReplyHeader
    GIOPEncoder.writeValues [.double 2, .string (ascii "two")]
  let headers : EncodeM Unit := do
    GIOPEncoder.setGIOPHeader .reply
    GIOPEncoder.setReplyHeader 9 .noException
  have hrun : (body >>= fun _ => headers) { connection := none, minorVersion := 0 } = .ok () e₂ :=
    (bind_ok h₁ _).trans h₂
  have hsize : (State ((body >>= fun _ => headers)
      { connection := none, minorVersion := 0 })).buffer.data.length < 2 ^ 32 := by
    decide +kernel
  rw [hrun] at hsize
  obtain ⟨d₁, d₂, hscan, -, -, -, hreply, -, htrace⟩ := h hsize
  exact ⟨e₁, e₂, d₁, d₂, h₁, h₂, hscan, hreply, htrace.trans (by decide +kernel)⟩

end Corba
