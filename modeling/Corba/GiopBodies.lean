/-
Where the bodies of messages begin.

The arguments of a request stand behind its header, and so do the results in a reply.  Whoever reads
them goes on from where the decoder stands when the header has been scanned.  Up to GIOP 1.1 the last
field of a request header is a principal, of which the decoder reads the length but does not skip the
octets.  Since GIOP 1.2 bodies are aligned to eight, which the decoder does for requests, but not for
replies.

Main definitions:

* `Corba.Giop.ArgumentsAt` — a decoder stands where the arguments begin, and they are read from there;
* `Corba.Giop.AlignedReply` — a reply with a body that is aligned.

Main results:

* `Corba.readAll_run` — values that stand one after the other are read one after the other;
* `Corba.arguments_found_iff` — the arguments of a request are found exactly when there is no
  principal;
* `Corba.reply_body_found_iff` — the body of a reply is found exactly when the header ends aligned.
-/

import Corba.CdrRoundTrip
import Corba.MessageScan

set_option relaxedAutoImplicit false
set_option autoImplicit false

namespace Corba

open Layout ByteOrder Placed Exec

variable [Platform]

/-! ### Reading arguments -/

/-- Read values one after the other. -/
def readAll : List Reader → DecodeM (List Value)
  | [] => return []
  | r :: rs => return (← r.read) :: (← readAll rs)

/-- Values of these types with readers that match them.  Floating point numbers are read in the
native byte order. -/
def Matching (e : Endian) (ps : List (Value × Reader)) : Prop :=
  ∀ p ∈ ps, p.1.Fits ∧ p.2 ∈ p.1.readers ∧ (e = native ∨ p.1.Plain)

/-- **Values that stand one after the other are read one after the other.** -/
theorem readAll_run {D : Octets} {e : Endian} (hD : D.length < 2 ^ 63) {ps : List (Value × Reader)}
    (hp : Matching e ps) {o : ℕ} (h : Laid D o (Value.itemsAll e (ps.map Prod.fst))) :
    readAll (ps.map Prod.snd) ⟨D, o, some e⟩ = .ok (ps.map Prod.fst)
      ⟨D, extent o (Value.itemsAll e (ps.map Prod.fst)), some e⟩ := by
  induction ps generalizing o with
  | nil => rfl
  | cons p ps ih =>
      obtain ⟨⟨hfits, hreader, horder⟩, hrest⟩ := List.forall_mem_cons.1 hp
      obtain ⟨hhead, htail⟩ := laid_append.1 h
      have hfirst : p.2.read ⟨D, o, some e⟩ = .ok p.1 ⟨D, extent o (p.1.items e), some e⟩ := by
        rcases horder with rfl | hplain
        · exact Reader.read_run hreader hfits hhead hD
        · exact Reader.read_plain hplain hreader hfits hhead hD
      rw [List.map_cons, List.map_cons, readAll, bind_ok hfirst, bind_ok (ih hrest htail), pure_run,
        Value.itemsAll_cons, extent_append]

/-- The decoder stands at `o`, where the arguments begin, and whatever arguments stand there are read
from it. -/
def Giop.ArgumentsAt (D : Octets) (e : Endian) (o : ℕ) (d : CDRDecoder) : Prop :=
  d.m_offset = o ∧ ∀ args : List (Value × Reader), Matching e args →
    Laid D o (Value.itemsAll e (args.map Prod.fst)) →
      ∃ d', readAll (args.map Prod.snd) d = .ok (args.map Prod.fst) d'

theorem Giop.argumentsAt_self {D : Octets} (hD : D.length < 2 ^ 63) (e : Endian) (o : ℕ) :
    Giop.ArgumentsAt D e o ⟨D, o, some e⟩ :=
  ⟨rfl, fun _ hargs hlaid => ⟨_, readAll_run hD hargs hlaid⟩⟩

omit [Platform] in
/-- A message with a body behind the header. -/
theorem Giop.message_body {e : Endian} {major minor : UInt8} {length : UInt32} {content : Content}
    {behind : Octets}
    (hinside : extent 12 (content.items e major.toNat minor.toNat) ≤
      (Giop.encoded e major minor length content).length)
    (hsize : (Giop.encoded e major minor length content ++ behind).length = 12 + length.toNat) :
    Giop.Message e major minor length content
      (Giop.encoded e major minor length content ++ behind) := by
  obtain ⟨hheader, hlaid⟩ := laid_append.1 ((laid_write 0 [] 0
    (Giop.header e major minor content.type length ++
      content.items e major.toNat minor.toNat)).mono (List.prefix_append _ behind))
  rw [GIOPEncoder.extent_header] at hlaid
  obtain ⟨hmagic, hoctets, hcount⟩ := GIOPDecoder.laid_header hheader
  refine ⟨hmagic, ⟨_, hoctets, by cases e <;> rfl⟩, hcount, hlaid, ?_, hsize⟩
  rw [List.length_append]
  exact hinside.trans (Nat.le_add_right _ _)

/-! ### Requests with a principal -/

section Requests

variable {e : Endian} {minor : UInt8} {length : UInt32} {r : RequestContent} {D : Octets}
  {connection : Option Connection}

omit [Platform] in
/-- Where a header ends: behind the principal. -/
theorem RequestContent.extent_items_legacy (e : Endian) (r : RequestContent) :
    extent 12 (r.items e true) = r.stop true + r.principal.length := by
  rw [items, if_pos rfl, extent_append, Giop.extent_contextList, extent_back, stop, if_pos rfl]

/-- **After the header of a request of GIOP 1.0 or 1.1, the arguments are found exactly when there is
no principal.** -/
theorem arguments_found_iff (hminor : minor ≤ 1) (h : Giop.Message e 1 minor length (.request r) D)
    (hc : r.contexts.flatMap ServiceContext.points ≠ [] → connection.isSome) :
    (∃ header d, (Content.request r).scan { buffer := ⟨D, 0, none⟩, connection } = .ok header d ∧
      Giop.ArgumentsAt D e (extent 12 (r.items e true)) d.buffer) ↔ r.principal = [] := by
  obtain ⟨hrun, -⟩ := Content.scan_run h hc
  have hlegacy : Giop.isLegacy (1 : UInt8).toNat minor.toNat = true := by
    have hle : minor.toNat ≤ 1 := UInt8.le_iff_toNat_le.1 hminor
    simp [Giop.isLegacy, hle]
  have hstop : (Content.request r).stop (1 : UInt8).toNat minor.toNat = r.stop true := by
    rw [Content.stop, hlegacy]
  rw [RequestContent.extent_items_legacy]
  constructor
  · rintro ⟨header, d, hscan, hoffset, -⟩
    rw [hrun] at hscan
    cases hscan
    have hoffset : (Content.request r).stop (1 : UInt8).toNat minor.toNat =
      r.stop true + r.principal.length := hoffset
    rw [hstop] at hoffset
    exact List.eq_nil_of_length_eq_zero (by omega)
  · intro hnone
    have hlt := length.toNat_lt
    have hsize := h.size
    refine ⟨_, _, hrun, ?_⟩
    have hat := Giop.argumentsAt_self (D := D) (by omega) e (r.stop true)
    rw [hnone, List.length_nil, Nat.add_zero]
    rw [← hstop] at hat ⊢
    exact hat

omit [Platform] in
/-- The code sets, as opposed to listen points. -/
theorem codeSets_ne : ServiceId.ofUlong 1 ≠ .biDirIIOP := by decide

/-- A request that says nothing of who sends it. -/
def anonymous : RequestContent where
  contexts := [.other 1 codeSets_ne .big [0, 0, 0, 0, 1, 0, 1]]
  requestId := 6
  responseFlags := 1
  objectKey := ascii "A"
  operation := ascii "add"
  principal := []

omit [Platform] in
theorem arguments_found_anonymous :
    letI : Platform := ⟨.little⟩
    let D := Giop.encoded .big 1 0 52 (.request anonymous) ++ [0, 0, 0, 7]
    ∃ header d, (Content.request anonymous).scan { buffer := ⟨D, 0, none⟩, connection := none } =
        .ok header d ∧
      Giop.ArgumentsAt D .big (extent 12 (anonymous.items .big true)) d.buffer := by
  let : Platform := ⟨.little⟩
  intro D
  exact (arguments_found_iff (by decide) (Giop.message_body (by decide +kernel) (by decide +kernel))
    fun h => absurd rfl h).2 rfl

/-- A request that says who sends it. -/
def signed : RequestContent := { anonymous with contexts := [], principal := [42, 0, 0, 0] }

omit [Platform] in
/-- The principal is read as the first argument. -/
theorem principal_is_argument :
    letI : Platform := ⟨.little⟩
    let D := Giop.encoded .little 1 0 40 (.request signed) ++ [7, 0, 0, 0]
    Giop.Message .little 1 0 40 (.request signed) D ∧
      Laid D (extent 12 (signed.items .little true)) (Cdr.ulong .little 7) ∧
      ∃ header d, (Content.request signed).scan { buffer := ⟨D, 0, none⟩, connection := none } =
          .ok header d ∧
        d.buffer.m_offset = 44 ∧ extent 12 (signed.items .little true) = 48 ∧
        CDRDecoder.readUlong d.buffer = .ok 42 ⟨D, 48, some .little⟩ := by
  let : Platform := ⟨.little⟩
  intro D
  have hmessage : Giop.Message .little 1 0 40 (.request signed) D :=
    Giop.message_body (by decide +kernel) (by decide +kernel)
  have hconnection : Content.points 1 (.request signed) ≠ [] → (none : Option Connection).isSome :=
    fun h => absurd rfl h
  obtain ⟨hrun, -⟩ := Content.scan_run hmessage hconnection
  refine ⟨hmessage, ?_, _, _, hrun, by decide +kernel, by decide +kernel, ?_⟩
  · refine laid_align.2 (laid_raw.2 ⟨?_, trivial⟩)
    exact at_of_take_drop (by decide +kernel)
  · exact (by decide +kernel : CDRDecoder.readUlong ⟨D, 44, some .little⟩ =
      .ok 42 ⟨D, 48, some .little⟩)

end Requests

/-! ### Bodies of replies -/

/-- A reply since GIOP 1.2 with a body, which begins at the next multiple of eight behind the service
contexts. -/
structure Giop.AlignedReply (e : Endian) (minor : UInt8) (length : UInt32) (r : ReplyContent)
    (body D : Octets) : Prop where
  version : 2 ≤ minor
  message : Giop.Message e 1 minor length (.reply r) D
  placed : At D (roundUp 8 (Giop.contextListEnd 20 r.contexts)) body
  nonempty : body ≠ []

/-- **After the header of a reply, the decoder stands at the first octet of the body exactly when the
service contexts end at a multiple of eight.** -/
theorem reply_body_found_iff {e : Endian} {minor : UInt8} {length : UInt32} {r : ReplyContent}
    {body D : Octets} {connection : Option Connection}
    (h : Giop.AlignedReply e minor length r body D)
    (hc : r.contexts.flatMap ServiceContext.points ≠ [] → connection.isSome) :
    (∃ header d, (Content.reply r).scan { buffer := ⟨D, 0, none⟩, connection } = .ok header d ∧
      d.buffer.m_offset = roundUp 8 (Giop.contextListEnd 20 r.contexts)) ↔
      Giop.contextListEnd 20 r.contexts % 8 = 0 := by
  have hpoints : (Content.reply r).points (1 : UInt8).toNat =
    r.contexts.flatMap ServiceContext.points := rfl
  obtain ⟨hrun, -⟩ := Content.scan_run h.message (by rwa [hpoints])
  have hstop : (Content.reply r).stop (1 : UInt8).toNat minor.toNat =
      Giop.contextListEnd 20 r.contexts := by
    have hle : 2 ≤ minor.toNat := UInt8.le_iff_toNat_le.1 h.version
    rw [Content.stop, ReplyContent.stop, if_neg (by omega), if_pos ⟨rfl, hle⟩]
  constructor
  · rintro ⟨header, d, hscan, hoffset⟩
    rw [hrun] at hscan
    cases hscan
    have hoffset : (Content.reply r).stop (1 : UInt8).toNat minor.toNat =
      roundUp 8 (Giop.contextListEnd 20 r.contexts) := hoffset
    rw [hstop] at hoffset
    rw [hoffset]
    exact roundUp_mod (by decide) _
  · intro haligned
    refine ⟨_, _, hrun, ?_⟩
    show (Content.reply r).stop (1 : UInt8).toNat minor.toNat = _
    rw [hstop, roundUp_eq_self haligned]

/-- A reply with one service context. -/
def accompanied (rest : Octets) : ReplyContent where
  contexts := [.other 1 codeSets_ne .big rest]
  requestId := 6
  replyStatus := .noException

omit [Platform] in
theorem reply_body_found_seven :
    letI : Platform := ⟨.little⟩
    let r := accompanied [0, 0, 0, 0, 1, 0, 1]
    let D := Giop.encoded .big 1 2 32 (.reply r) ++ [0, 0, 0, 7]
    ∃ header d, (Content.reply r).scan { buffer := ⟨D, 0, none⟩, connection := none } =
        .ok header d ∧ d.buffer.m_offset = roundUp 8 (Giop.contextListEnd 20 r.contexts) := by
  let : Platform := ⟨.little⟩
  intro r D
  have hmessage : Giop.Message .big 1 2 32 (.reply r) D :=
    Giop.message_body (by decide +kernel) (by decide +kernel)
  have hbody : At D (roundUp 8 (Giop.contextListEnd 20 r.contexts)) [0, 0, 0, 7] :=
    at_of_take_drop (by decide +kernel)
  exact (reply_body_found_iff ⟨by decide, hmessage, hbody, List.cons_ne_nil _ _⟩
    fun h => absurd rfl h).2 (by decide +kernel)

omit [Platform] in
/-- The service context ends in the middle, and the decoder stands in the gap in front of the body. -/
theorem gap_is_body :
    letI : Platform := ⟨.little⟩
    let r := accompanied [0, 0, 0]
    let D := Giop.encoded .little 1 2 32 (.reply r) ++ [0, 0, 0, 0, 7, 0, 0, 0]
    Giop.AlignedReply .little 2 32 r [7, 0, 0, 0] D ∧
      ∃ header d, (Content.reply r).scan { buffer := ⟨D, 0, none⟩, connection := none } =
          .ok header d ∧
        d.buffer.m_offset = 36 ∧ roundUp 8 (Giop.contextListEnd 20 r.contexts) = 40 ∧
        CDRDecoder.readUlong d.buffer = .ok 0 ⟨D, 40, some .little⟩ := by
  let : Platform := ⟨.little⟩
  intro r D
  have hmessage : Giop.Message .little 1 2 32 (.reply r) D :=
    Giop.message_body (by decide +kernel) (by decide +kernel)
  have hconnection : Content.points 1 (.reply r) ≠ [] → (none : Option Connection).isSome :=
    fun h => absurd rfl h
  obtain ⟨hrun, -⟩ := Content.scan_run hmessage hconnection
  have hbody : At D (roundUp 8 (Giop.contextListEnd 20 r.contexts)) [7, 0, 0, 0] :=
    at_of_take_drop (by decide +kernel)
  refine ⟨⟨by decide, hmessage, hbody, List.cons_ne_nil _ _⟩, _, _, hrun, by decide +kernel,
    by decide +kernel, ?_⟩
  exact (by decide +kernel : CDRDecoder.readUlong ⟨D, 36, some .little⟩ =
    .ok 0 ⟨D, 40, some .little⟩)

end Corba
