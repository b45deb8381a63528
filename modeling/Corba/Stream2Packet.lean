/-
Cutting the stream of a connection into messages.

`IIOPStream2Packet` of `src/corba/net/stream2packet.cc` collects what is received from a socket and
hands out one message after the other.  It learns the size of a message from its header, which it
looks at as soon as sixteen octets are there.

Main definitions:

* `Corba.IIOPStream2Packet`, `Corba.StreamM` — the collector, and programs that use it;
* `Corba.IIOPStream2Packet.buffer`, `received`, `message` — its methods;
* `Corba.IIOPStream2Packet.feed` — what `TcpConnection::canRead` does with what it has received;
* `Corba.WellFormed` — a message as the format defines it.

Main results:

* `Corba.scanGIOPHeader_wellFormed` — what the header says about the length;
* `Corba.IIOPStream2Packet.drain_succ` — the loop over the messages ends by itself;
* `Corba.IIOPStream2Packet.drain_run`, `feed_run` — what can be handed out is handed out, and what the
  buffer is like then;
* `Corba.IIOPStream2Packet.receiver` — one chunk;
* `Corba.framing_complete_iff` — exactly when all messages are handed out and accepted.
-/

import Corba.Framing
import Corba.CdrSound
import Corba.GiopScan

set_option relaxedAutoImplicit false
set_option autoImplicit false

namespace Corba

open Layout ByteOrder Placed Exec Framing

/-! ### The collector -/

/-- `IIOPStream2Packet`.  The octets in front of `size` are `data`. -/
structure IIOPStream2Packet where
  receiveBufferSize : ℕ := 0x20000
  data : Octets := []
  reserved : ℕ := 0
  offset : ℕ := 0
  messageSize : ℕ := 0
  deriving DecidableEq, Repr

abbrev StreamM := EStateM Fault IIOPStream2Packet

namespace IIOPStream2Packet

def size (s : IIOPStream2Packet) : ℕ := s.data.length

/-- Room is made for the next read operation. -/
def buffer (s : IIOPStream2Packet) : IIOPStream2Packet :=
  if s.reserved - s.size < s.receiveBufferSize then
    { s with reserved := s.reserved + s.receiveBufferSize }
  else s

/-- How much room there is. -/
def length (s : IIOPStream2Packet) : ℕ := s.reserved - s.size

/-- Octets have been read into the room. -/
def received (chunk : Octets) (s : IIOPStream2Packet) : IIOPStream2Packet :=
  { s with data := s.data ++ chunk }

section Message

variable [Platform]

/-- The size of the message that begins with these octets. -/
def scanSize (bytes : Octets) : StreamM ℕ := fun s =>
  match GIOPDecoder.scanGIOPHeader { buffer := ⟨bytes, 0, none⟩, connection := none } with
  | .ok _ giop => .ok (giop.m_length + 12) s
  | .error f _ => .error f s

/-- The next message.  When there is none, an incomplete one is moved to the front. -/
def message : StreamM Octets := do
  let s ← get
  if s.messageSize = 0 ∧ s.size - s.offset ≥ 16 then
    let messageSize ← scanSize (s.data.drop s.offset)
    modify ({ · with messageSize := messageSize })
  let s ← get
  if s.messageSize = 0 then
    return []
  if s.size - s.offset < s.messageSize then
    set { s with data := s.data.drop s.offset, offset := 0 }
    return []
  let offset := s.offset + s.messageSize
  if offset = s.size then
    set { s with data := [], offset := 0, messageSize := 0 }
  else
    set { s with offset := offset, messageSize := 0 }
  return (s.data.drop s.offset).take s.messageSize

/-- The loop that calls `message` until it returns nothing, for at most `n` rounds. -/
def drain : ℕ → StreamM (List Octets)
  | 0 => return []
  | n + 1 => do
      let m ← message
      if m.isEmpty then
        return []
      return m :: (← drain n)

/-- What is done with octets that have been received.  There are no more messages than octets. -/
def feed (chunk : Octets) : StreamM (List Octets) := do
  modify fun s => s.buffer.received chunk
  let s ← get
  drain (s.size + 1)

/-- The chunk fits into the room that is made for it. -/
def Fits (chunk : Octets) (s : IIOPStream2Packet) : Prop := chunk.length ≤ s.buffer.length

instance (chunk : Octets) (s : IIOPStream2Packet) : Decidable (Fits chunk s) :=
  inferInstanceAs (Decidable (chunk.length ≤ s.buffer.length))

end Message

end IIOPStream2Packet

/-! ### Well formed messages -/

/-- The byte order the flags of a message announce. -/
def flagsOrder (flags : UInt8) : Endian := if flags &&& 1 == 1 then .little else .big

/-- The length field of a message, in the byte order of its flags. -/
def lengthField (D : Octets) : ℕ := (flagsOrder (D.getD 6 0)).value ((D.drop 8).take 4)

/-- A header of twelve octets, and as many octets behind it as its length field says. -/
structure WellFormed (m : Octets) : Prop where
  magic : m.take 4 = ascii "GIOP"
  length_eq : m.length = 12 + lengthField m

theorem WellFormed.twelve_le {m : Octets} (h : WellFormed m) : 12 ≤ m.length :=
  h.length_eq ▸ Nat.le_add_right ..

/-- The length field is one of the first twelve octets. -/
theorem lengthField_congr {D E : Octets} (h : D.take 12 = E.take 12) :
    lengthField D = lengthField E := by
  have hget : D.getD 6 0 = E.getD 6 0 := by
    have := congrArg (fun l => l.getD 6 0) h
    simpa [List.getD_eq_getElem?_getD, List.getElem?_take] using this
  have hdrop : (D.drop 8).take 4 = (E.drop 8).take 4 := by
    have := congrArg (List.drop 8) h
    rwa [List.drop_take, List.drop_take] at this
  rw [lengthField, lengthField, hget, hdrop]

section Scanning

variable [Platform]

/-- **The header of a message says how long the message is.**  It is only looked at when there are
sixteen octets. -/
theorem scanGIOPHeader_wellFormed {m D : Octets} (hm : WellFormed m) (h : D.take 12 = m.take 12)
    (hlen : 16 ≤ D.length) (connection : Option Connection) :
    ∃ type d, GIOPDecoder.scanGIOPHeader
        { buffer := ⟨D, 0, none⟩, connection := connection } = .ok type d ∧
      d.m_length + 12 = m.length := by
  have hmagic : D.take 4 = ascii "GIOP" := by
    have := congrArg (List.take 4) h
    rw [List.take_take, List.take_take] at this
    exact this.trans hm.magic
  have hoctets : At D 4 [D[4], D[5], D[6], D[7]] := by
    simp [at_cons]
  have hflags : D.getD 6 0 = D[6] := List.getD_eq_getElem D 0 (by omega)
  obtain ⟨v, hv⟩ := CDRDecoder.exists_ulong (D := D) (o := 8) (flagsOrder D[6])
    (by show 8 + 4 ≤ _; omega)
  have hvalue : v.toNat = lengthField D := by
    have hat : At D 8 ((flagsOrder D[6]).bytes 4 v.toNat) := (laid_raw.1 (laid_align.1 hv)).1
    have htake := hat.take_drop
    rw [Endian.length_bytes] at htake
    rw [lengthField, hflags, htake, Endian.value_bytes _ v.toNat_lt]
  have hscan := GIOPDecoder.scanGIOPHeader_octets
    (d := { buffer := ⟨D, 0, none⟩, connection := connection }) hmagic hoctets rfl hv hlen rfl
  refine ⟨_, _, hscan, ?_⟩
  have hfield := lengthField_congr h
  rw [hm.length_eq, ← hfield, ← hvalue, Nat.add_comm]

/-- The message is accepted by `socketRcvd`, whichever connection it comes from. -/
def Accepted (m : Octets) : Prop :=
  ∀ connection, ∃ type d, GIOPDecoder.scanGIOPHeader
    { buffer := ⟨m, 0, none⟩, connection := connection } = .ok type d

/-- **A message is accepted exactly when it has sixteen octets.** -/
theorem accepted_iff {m : Octets} (hm : WellFormed m) : Accepted m ↔ 16 ≤ m.length := by
  constructor
  · intro h
    by_contra hshort
    obtain ⟨type, d, hscan⟩ := h none
    rw [GIOPDecoder.scanGIOPHeader, get_bind, if_pos (by show m.length < 16; omega)] at hscan
    cases hscan
  · intro hlen connection
    obtain ⟨type, d, hscan, -⟩ := scanGIOPHeader_wellFormed hm rfl hlen connection
    exact ⟨type, d, hscan⟩

end Scanning

namespace IIOPStream2Packet

/-! ### One message -/

/-- What has been received and not been handed out. -/
def pending (s : IIOPStream2Packet) : Octets := s.data.drop s.offset

theorem length_pending (s : IIOPStream2Packet) : s.pending.length = s.size - s.offset :=
  List.length_drop

theorem buffer_same (s : IIOPStream2Packet) :
    s.buffer.data = s.data ∧ s.buffer.offset = s.offset ∧ s.buffer.messageSize = s.messageSize := by
  rw [buffer]
  split <;> exact ⟨rfl, rfl, rfl⟩

/-- The state after a message has been handed out. -/
def advance (s : IIOPStream2Packet) : IIOPStream2Packet :=
  if s.offset + s.messageSize = s.size then { s with data := [], offset := 0, messageSize := 0 }
  else { s with offset := s.offset + s.messageSize, messageSize := 0 }

theorem advance_messageSize (s : IIOPStream2Packet) : s.advance.messageSize = 0 := by
  rw [advance]
  split <;> rfl

theorem advance_pending (s : IIOPStream2Packet) :
    s.advance.pending = s.pending.drop s.messageSize := by
  rw [advance]
  split
  · rename_i hend
    rw [pending, pending, List.drop_drop, hend]
    exact (List.drop_length).symm
  · rw [pending, pending, List.drop_drop]

theorem advance_offset_le {s : IIOPStream2Packet} (h : s.messageSize ≤ s.pending.length)
    (ho : s.offset ≤ s.size) : s.advance.offset ≤ s.advance.data.length := by
  rw [length_pending] at h
  rw [advance]
  split
  · exact Nat.zero_le _
  · show s.offset + s.messageSize ≤ s.data.length
    rw [size] at h ho
    omega

variable [Platform]

/-- When the size of the message is known, it is handed out as soon as it is complete. -/
theorem message_known {s : IIOPStream2Packet} (h : s.messageSize ≠ 0) :
    message s =
      if s.pending.length < s.messageSize then .ok [] { s with data := s.pending, offset := 0 }
      else .ok (s.pending.take s.messageSize) s.advance := by
  have hcond : ¬ (s.messageSize = 0 ∧ s.size - s.offset ≥ 16) := fun hc => h hc.1
  rw [message, get_bind, if_neg hcond]
  dsimp only
  rw [get_bind, if_neg h, length_pending, advance]
  by_cases hlt : s.size - s.offset < s.messageSize
  · rw [if_pos hlt, if_pos hlt]
    rfl
  · rw [if_neg hlt, if_neg hlt]
    by_cases hend : s.offset + s.messageSize = s.size
    · rw [if_pos hend, if_pos hend]
      rfl
    · rw [if_neg hend, if_neg hend]
      rfl

/-- With less than sixteen octets, nothing is done. -/
theorem message_short {s : IIOPStream2Packet} (h : s.messageSize = 0)
    (hlt : s.pending.length < 16) : message s = .ok [] s := by
  rw [length_pending] at hlt
  rw [message, get_bind, if_neg (by omega)]
  dsimp only
  rw [get_bind, if_pos h, pure_run]

/-- With sixteen octets, the size of the message is known from its header. -/
theorem message_scanned {s : IIOPStream2Packet} {n : ℕ} (h : s.messageSize = 0)
    (hlen : 16 ≤ s.pending.length) (hsize : scanSize s.pending s = .ok n s) (hn : n ≠ 0) :
    message s = message { s with messageSize := n } := by
  have hsize' : scanSize (s.data.drop s.offset) s = .ok n s := hsize
  rw [length_pending] at hlen
  rw [message, get_bind, if_pos ⟨h, hlen⟩]
  rw [bind_ok hsize', modify_bind, get_bind, if_neg (show ¬ (_ ∧ _) from fun hc => hn hc.1)]

theorem scanSize_run {s : IIOPStream2Packet} {m D : Octets} (hm : WellFormed m)
    (h : D.take 12 = m.take 12) (hlen : 16 ≤ D.length) : scanSize D s = .ok m.length s := by
  obtain ⟨type, d, hscan, hlength⟩ := scanGIOPHeader_wellFormed hm h hlen none
  rw [scanSize, hscan]
  dsimp only
  rw [hlength]

/-! ### The loop -/

theorem scanSize_ok {s t : IIOPStream2Packet} {D : Octets} {n : ℕ} (h : scanSize D s = .ok n t) :
    t = s ∧ n ≠ 0 := by
  rw [scanSize] at h
  split at h
  · cases h
    exact ⟨rfl, Nat.succ_ne_zero _⟩
  · cases h

/-- A message that is handed out is taken from what is pending. -/
theorem message_shrinks {s s' : IIOPStream2Packet} {m : Octets} (h : message s = .ok m s')
    (hm : m ≠ []) : s'.pending.length < s.pending.length := by
  have hknown : ∀ n : ℕ, n ≠ 0 → message { s with messageSize := n } = .ok m s' →
      s'.pending.length < s.pending.length := by
    intro n hn hrun
    rw [message_known (s := { s with messageSize := n }) hn] at hrun
    split at hrun
    · cases hrun
      exact absurd rfl hm
    · rename_i hlt
      cases hrun
      have hlt' : ¬ s.pending.length < n := hlt
      rw [advance_pending, List.length_drop]
      show s.pending.length - n < s.pending.length
      omega
  by_cases hsize : s.messageSize = 0
  · rcases Nat.lt_or_ge s.pending.length 16 with hlt | hge
    · rw [message_short hsize hlt] at h
      cases h
      exact absurd rfl hm
    · cases hscan : scanSize s.pending s with
      | ok n t =>
          obtain ⟨rfl, hn⟩ := scanSize_ok hscan
          rw [message_scanned hsize hge hscan hn] at h
          exact hknown n hn h
      | error f t =>
          have hscan' : scanSize (s.data.drop s.offset) s = .error f t := hscan
          rw [length_pending] at hge
          rw [message, get_bind, if_pos ⟨hsize, hge⟩, bind_error hscan'] at h
          cases h
  · exact hknown s.messageSize hsize h

/-- **The loop ends by itself**: more rounds than there are octets make no difference. -/
theorem drain_succ {s : IIOPStream2Packet} {n : ℕ} (h : s.pending.length < n) :
    drain (n + 1) s = drain n s := by
  induction n generalizing s with
  | zero => omega
  | succ n ih =>
      show (message >>= fun m => if m.isEmpty then pure [] else
          drain (n + 1) >>= fun ms => pure (m :: ms)) s =
        (message >>= fun m => if m.isEmpty then pure [] else
          drain n >>= fun ms => pure (m :: ms)) s
      cases hrun : message s with
      | error f s' => rw [bind_error hrun, bind_error hrun]
      | ok m s' =>
          rw [bind_ok hrun, bind_ok hrun]
          by_cases hm : m = []
          · rw [if_pos (by rw [hm]; rfl), if_pos (by rw [hm]; rfl)]
          · have hlt := message_shrinks hrun hm
            rw [if_neg (by simpa using hm), if_neg (by simpa using hm)]
            have hstep := ih (s := s') (by omega)
            cases hrest : drain n s' with
            | error f s'' =>
                rw [bind_error hrest, bind_error (hstep.trans hrest)]
            | ok ms s'' => rw [bind_ok hrest, bind_ok (hstep.trans hrest)]

/-! ### Messages and what is pending -/

/-- The first `n` octets of these messages are pending, and the size of the first message may be
known. -/
structure Holding (s : IIOPStream2Packet) (ms : List Octets) (n : ℕ) : Prop where
  offset_le : s.offset ≤ s.data.length
  pending_eq : s.pending = ms.flatten.take n
  le : n ≤ ms.flatten.length
  messageSize : s.messageSize = 0 ∨ ∃ m ∈ ms.head?, s.messageSize = m.length
  wellFormed : ∀ m ∈ ms, WellFormed m

omit [Platform] in
theorem Holding.length_eq {s : IIOPStream2Packet} {ms : List Octets} {n : ℕ}
    (h : s.Holding ms n) : s.pending.length = n := by
  rw [h.pending_eq, List.length_take, Nat.min_eq_left h.le]

/-- The size is only known when the header has been looked at, and a buffer of which everything has
been handed out begins at its front. -/
structure Held (s : IIOPStream2Packet) (ms : List Octets) (n : ℕ) : Prop
    extends s.Holding ms n where
  looked : s.messageSize ≠ 0 → 16 ≤ n
  reset : s.offset ≠ 0 → n ≠ 0

omit [Platform] in
theorem advance_offset (s : IIOPStream2Packet) :
    s.advance.offset =
      if s.offset + s.messageSize = s.size then 0 else s.offset + s.messageSize := by
  rw [advance]
  split <;> rfl

omit [Platform] in
theorem advance_reserved (s : IIOPStream2Packet) :
    s.advance.reserved = s.reserved ∧ s.advance.receiveBufferSize = s.receiveBufferSize := by
  rw [advance]
  split <;> exact ⟨rfl, rfl⟩

/-- A message that is complete is handed out. -/
theorem message_complete {s : IIOPStream2Packet} {m : Octets} {ms : List Octets} {n : ℕ}
    (h : s.Holding (m :: ms) n) (hn : m.length ≤ n) (hlen : 16 ≤ n) :
    message s = .ok m (advance { s with messageSize := m.length }) ∧
      (advance { s with messageSize := m.length }).Held ms (n - m.length) := by
  have hlength := h.length_eq
  have htwelve := (h.wellFormed m (List.mem_cons_self ..)).twelve_le
  have hpending : s.pending = m ++ ms.flatten.take (n - m.length) := by
    rw [h.pending_eq, List.flatten_cons, List.take_append, List.take_of_length_le hn]
  have hle : n - m.length ≤ ms.flatten.length := by
    have := h.le
    rw [List.flatten_cons, List.length_append] at this
    omega
  -- whether the size is known already makes no difference
  have hknown : message s = message { s with messageSize := m.length } := by
    rcases h.messageSize with hzero | ⟨m', hm', hsize⟩
    · refine message_scanned hzero (by omega) ?_ (by omega)
      refine scanSize_run (h.wellFormed m (List.mem_cons_self ..)) ?_ (by omega)
      rw [hpending, List.take_append_of_le_length (by omega)]
    · obtain rfl : m = m' := by simpa using hm'
      rw [← hsize]
  have hrun := message_known (s := { s with messageSize := m.length })
    (show m.length ≠ 0 by omega)
  have hpending' : ({ s with messageSize := m.length } : IIOPStream2Packet).pending = s.pending :=
    rfl
  rw [if_neg (by rw [hpending', hlength]; exact not_lt.2 hn)] at hrun
  have hresult : s.pending.take m.length = m := by
    rw [hpending, List.take_left]
  refine ⟨?_, ⟨?_, ?_, hle, Or.inl (advance_messageSize _), ?_⟩, ?_, ?_⟩
  · rw [hknown, hrun, hpending', hresult]
  · exact advance_offset_le (by rw [hpending', hlength]; exact hn) h.offset_le
  · rw [advance_pending, hpending', hpending, List.drop_left]
  · exact fun m' hm' => h.wellFormed m' (List.mem_cons_of_mem _ hm')
  · exact fun hsize => absurd (advance_messageSize _) hsize
  · intro hoffset hzero
    rw [length_pending] at hlength
    rw [advance_offset] at hoffset
    refine hoffset (if_pos ?_)
    show s.offset + m.length = s.size
    omega

/-- What has become of a buffer when `message` has nothing more to hand out.  The messages that have
been handed out are still in it if less than sixteen octets follow them. -/
structure Drained (s : IIOPStream2Packet) (ms : List Octets) (n : ℕ) (s' : IIOPStream2Packet) :
    Prop where
  held : s'.Held (remaining 16 ms n) (kept 16 ms n)
  quiet : message s' = .ok [] s'
  offset_eq : s'.offset =
    if kept 16 ms n = 0 ∨ 16 ≤ kept 16 ms n then 0 else s.offset + (n - kept 16 ms n)
  reserved : s'.reserved = s.reserved
  receiveBufferSize : s'.receiveBufferSize = s.receiveBufferSize

/-- With too little to look at, nothing is done. -/
theorem message_left {s : IIOPStream2Packet} {ms : List Octets} {n : ℕ} (h : s.Held ms n)
    (hn : handed 16 ms n = []) (hzero : s.messageSize = 0) (hlt : n < 16) :
    message s = .ok [] s ∧ s.Drained ms n s := by
  have hlen := h.length_eq
  have hkept := kept_of_handed_eq_nil hn
  have hrun := message_short hzero (by omega)
  refine ⟨hrun, ?_, hrun, ?_, rfl, rfl⟩
  · rwa [remaining_of_handed_eq_nil hn, hkept]
  · rw [hkept, Nat.sub_self, Nat.add_zero]
    split
    next hor =>
      by_contra hoffset
      exact (h.reset hoffset) (hor.resolve_right (by omega))
    next => rfl

/-- An incomplete message of which the size is known is moved to the front of the buffer. -/
theorem message_moved {s : IIOPStream2Packet} {ms : List Octets} {n k : ℕ} (h : s.Held ms n)
    (hn : handed 16 ms n = []) (hk : n < k) (hlook : 16 ≤ n) (hm : ∃ m ∈ ms.head?, k = m.length)
    (hknown : message s = message { s with messageSize := k }) :
    ∃ s', message s = .ok [] s' ∧ s.Drained ms n s' := by
  have hlen := h.length_eq
  have hkept := kept_of_handed_eq_nil hn
  have hmove : ∀ t : IIOPStream2Packet, t.messageSize = k → t.pending = s.pending →
      message t = .ok [] { t with data := s.pending, offset := 0 } := by
    intro t hsize hpending
    rw [message_known (by omega), hpending, if_pos (by omega)]
  refine ⟨{ s with data := s.pending, offset := 0, messageSize := k }, ?_, ?_, ?_, ?_, rfl, rfl⟩
  · exact hknown.trans (hmove { s with messageSize := k } rfl rfl)
  · rw [remaining_of_handed_eq_nil hn, hkept]
    exact ⟨⟨Nat.zero_le _, h.pending_eq, h.le, Or.inr hm, h.wellFormed⟩, fun _ => hlook,
      fun hzero => absurd rfl hzero⟩
  · exact hmove _ rfl rfl
  · rw [if_pos (.inr (by omega))]

/-- A message that is not complete stays pending. -/
theorem message_incomplete {s : IIOPStream2Packet} {ms : List Octets} {n : ℕ}
    (h : s.Held ms n) (hn : handed 16 ms n = []) :
    ∃ s', message s = .ok [] s' ∧ s.Drained ms n s' := by
  have hlen := h.length_eq
  cases ms with
  | nil =>
      have hle := h.le
      rw [List.flatten_nil, List.length_nil] at hle
      rcases h.messageSize with hzero | ⟨m, hm, -⟩
      · exact ⟨s, message_left h hn hzero (by omega)⟩
      · cases hm
  | cons m ms =>
      have hlt := lt_of_handed_eq_nil hn
      have htwelve := (h.wellFormed m (List.mem_cons_self ..)).twelve_le
      rcases h.messageSize with hzero | ⟨m', hm', hsize⟩
      · rcases Nat.lt_or_ge n 16 with hfew | hge
        · exact ⟨s, message_left h hn hzero hfew⟩
        · have hhead : s.pending.take 12 = m.take 12 := by
            rw [h.pending_eq, List.flatten_cons, List.take_append_of_le_length (by omega),
              List.take_take]
            congr 1
            omega
          have hscan := scanSize_run (s := s) (h.wellFormed m (List.mem_cons_self ..)) hhead
            (by omega)
          exact message_moved h hn (by omega) hge ⟨m, rfl, rfl⟩
            (message_scanned hzero (by omega) hscan (by omega))
      · obtain rfl : m = m' := by simpa using hm'
        have hlook := h.looked (by omega)
        exact message_moved h hn (show n < s.messageSize by omega) hlook ⟨m, rfl, hsize⟩ rfl

/-- What is left after a message has been handed out is what is left of all. -/
theorem Drained.of_advance {s s' : IIOPStream2Packet} {m : Octets} {ms : List Octets} {n : ℕ}
    (h : s.Held (m :: ms) n) (hn : m.length ≤ n) (hlen : 16 ≤ n)
    (hs' : (advance { s with messageSize := m.length }).Drained ms (n - m.length) s') :
    s.Drained (m :: ms) n s' := by
  have hkept : kept 16 (m :: ms) n = kept 16 ms (n - m.length) := kept_cons_of_le ms hn hlen
  obtain ⟨hreserved, hbufferSize⟩ := advance_reserved { s with messageSize := m.length }
  refine ⟨?_, hs'.quiet, ?_, hs'.reserved.trans hreserved,
    hs'.receiveBufferSize.trans hbufferSize⟩
  · rw [hkept, remaining_cons_of_le ms hn hlen]
    exact hs'.held
  · rw [hs'.offset_eq, hkept]
    split
    next => rfl
    next hnot =>
      -- something is left, so the buffer has not been reset in between
      have hle := kept_le 16 ms (n - m.length)
      have hsize := h.length_eq
      have hbound : s.offset ≤ s.size := h.offset_le
      rw [length_pending] at hsize
      have hoffset : (advance { s with messageSize := m.length }).offset =
          s.offset + m.length := by
        rw [advance_offset]
        exact if_neg (show ¬ s.offset + m.length = s.size by omega)
      omega

/-- **All messages that can be handed out are handed out.** -/
theorem drain_run {s : IIOPStream2Packet} {ms : List Octets} {n rounds : ℕ} (h : s.Held ms n)
    (hrounds : n < rounds) :
    ∃ s', drain rounds s = .ok (handed 16 ms n) s' ∧ s.Drained ms n s' := by
  induction rounds generalizing s ms n with
  | zero => omega
  | succ rounds ih =>
      have hnone : handed 16 ms n = [] →
          ∃ s', drain (rounds + 1) s = .ok (handed 16 ms n) s' ∧ s.Drained ms n s' := by
        intro hnext
        obtain ⟨s', hrun, hs'⟩ := message_incomplete h hnext
        refine ⟨s', ?_, hs'⟩
        rw [drain, bind_ok hrun, hnext]
        rfl
      cases ms with
      | nil => exact hnone rfl
      | cons m ms =>
          by_cases hcomplete : m.length ≤ n ∧ 16 ≤ n
          · obtain ⟨hle, hlen⟩ := hcomplete
            have htwelve := (h.wellFormed m (List.mem_cons_self ..)).twelve_le
            obtain ⟨hrun, hnext⟩ := message_complete h.toHolding hle hlen
            obtain ⟨s', hrest, hs'⟩ := ih hnext (by omega)
            refine ⟨s', ?_, .of_advance h hle hlen hs'⟩
            have hne : ¬ (m.isEmpty = true) := by
              rw [List.isEmpty_iff]
              rintro rfl
              cases htwelve
            rw [handed_cons_of_le ms hle hlen, drain, bind_ok hrun, if_neg hne, bind_ok hrest,
              pure_run]
          · exact hnone (handed_cons_of_not ms hcomplete)

/-! ### Chunks -/

omit [Platform] in
/-- The next octets of the stream are received. -/
theorem Held.received {s : IIOPStream2Packet} {ms : List Octets} {n : ℕ} {chunk : Octets}
    (h : s.Held ms n) (hchunk : chunk <+: ms.flatten.drop n) :
    (s.buffer.received chunk).Held ms (n + chunk.length) := by
  obtain ⟨hdata, hoffset, hsize⟩ := s.buffer_same
  have hpending : (s.buffer.received chunk).pending = s.pending ++ chunk := by
    show (s.buffer.data ++ chunk).drop s.buffer.offset = _
    rw [hdata, hoffset, List.drop_append_of_le_length h.offset_le]
    rfl
  refine ⟨⟨?_, ?_, ?_, ?_, h.wellFormed⟩, ?_, ?_⟩
  · show s.buffer.offset ≤ (s.buffer.data ++ chunk).length
    rw [hoffset, hdata, List.length_append]
    exact h.offset_le.trans (Nat.le_add_right ..)
  · rw [hpending, h.pending_eq, List.take_add, ← List.prefix_iff_eq_take.1 hchunk]
  · have := hchunk.length_le
    have hle := h.le
    rw [List.length_drop] at this
    omega
  · show s.buffer.messageSize = 0 ∨ ∃ m ∈ ms.head?, s.buffer.messageSize = m.length
    rw [hsize]
    exact h.messageSize
  · show s.buffer.messageSize ≠ 0 → 16 ≤ n + chunk.length
    rw [hsize]
    exact fun hknown => (h.looked hknown).trans (Nat.le_add_right ..)
  · show s.buffer.offset ≠ 0 → n + chunk.length ≠ 0
    rw [hoffset]
    intro hmoved
    have := h.reset hmoved
    omega

/-- **What a chunk adds is handed out as far as it can be.** -/
theorem feed_run {s : IIOPStream2Packet} {ms : List Octets} {n : ℕ} {chunk : Octets}
    (h : s.Held ms n) (hchunk : chunk <+: ms.flatten.drop n) :
    ∃ s', feed chunk s = .ok (handed 16 ms (n + chunk.length)) s' ∧
      s.buffer.Drained ms (n + chunk.length) s' := by
  have hreceived := h.received hchunk
  have hsize : n + chunk.length < (s.buffer.received chunk).size + 1 := by
    have hlen := hreceived.length_eq
    rw [length_pending] at hlen
    omega
  obtain ⟨s', hrun, hs'⟩ := drain_run hreceived hsize
  refine ⟨s', ?_, hs'.held, hs'.quiet, hs'.offset_eq, hs'.reserved, hs'.receiveBufferSize⟩
  rw [feed, modify_bind, get_bind, hrun]

/-- **The collector is right about each chunk**, as long as no message of less than sixteen octets
is completed. -/
theorem receiver : Receiver feed Fits (fun m => 16 ≤ m.length)
    fun s ms n => s.Held ms n ∧ arrived ms n = [] where
  quiet h := h.2
  step := by
    rintro s ms n chunk ⟨h, -⟩ - hchunk hms
    have harrived := handed_eq_arrived hms
    obtain ⟨s', hrun, hs'⟩ := feed_run h hchunk
    have hheld := hs'.held
    rw [remaining, kept, harrived] at hheld
    rw [harrived] at hrun
    exact ⟨s', hrun, hheld, arrived_rest _ _⟩

end IIOPStream2Packet

/-! ### Complete framing -/

section Complete

open IIOPStream2Packet

/-- What is handed out after all chunks. -/
theorem flatten_of_delivers {msgs chunks : List Octets} {out : List (List Octets)}
    (h : Delivers msgs 0 chunks out) : out.flatten = arrived msgs chunks.flatten.length := by
  have hall := h.2 chunks.length
  rwa [List.take_length, Nat.zero_add, List.take_of_length_le h.1.le] at hall

/-- A collector that has not received anything. -/
theorem holding_start (receiveBufferSize : ℕ) {msgs : List Octets} (h : ∀ m ∈ msgs, WellFormed m) :
    Held { receiveBufferSize } msgs 0 ∧ arrived msgs 0 = [] := by
  refine ⟨⟨⟨le_rfl, rfl, Nat.zero_le _, Or.inl rfl, h⟩, fun hsize => absurd rfl hsize,
    fun hoffset => absurd rfl hoffset⟩, ?_⟩
  cases msgs with
  | nil => rfl
  | cons m msgs =>
      have := (h m (List.mem_cons_self ..)).twelve_le
      exact arrived_cons_of_lt msgs (by omega)

variable [Platform]

/-- **After each chunk exactly the messages that are complete have been handed out, and all of them
are accepted, exactly when all messages that are completed have at least sixteen octets.** -/
theorem framing_complete_iff (receiveBufferSize : ℕ) {msgs chunks : List Octets}
    (hmsgs : ∀ m ∈ msgs, WellFormed m) (hstream : chunks.flatten <+: msgs.flatten)
    (hfits : Admissible feed Fits chunks { receiveBufferSize }) :
    (∃ out s, feedAll feed chunks { receiveBufferSize } = .ok out s ∧ Delivers msgs 0 chunks out ∧
        ∀ m ∈ out.flatten, Accepted m) ↔
      ∀ m ∈ arrived msgs chunks.flatten.length, 16 ≤ m.length := by
  constructor
  · rintro ⟨out, s, -, hout, haccepted⟩ m hm
    rw [flatten_of_delivers hout] at haccepted
    exact (accepted_iff (hmsgs m (mem_of_mem_arrived hm))).1 (haccepted m hm)
  · intro h
    obtain ⟨out, s, hrun, hout⟩ := receiver.delivers (holding_start receiveBufferSize hmsgs) hfits
      (by rwa [List.drop_zero]) (by rwa [Nat.zero_add])
    refine ⟨out, s, hrun, hout, fun m hm => ?_⟩
    rw [flatten_of_delivers hout] at hm
    exact (accepted_iff (hmsgs m (mem_of_mem_arrived hm))).2 (h m hm)

end Complete

/-- A message of sixteen octets, most significant octet first. -/
def fragmentMessage : Octets := ascii "GIOP" ++ [1, 2, 0, 7, 0, 0, 0, 4, 0, 0, 0, 9]

/-- It arrives in two chunks, the first of which ends in the header. -/
theorem framing_complete_fragment :
    letI : Platform := ⟨.little⟩
    ∃ out s, feedAll IIOPStream2Packet.feed [fragmentMessage.take 5, fragmentMessage.drop 5]
        { receiveBufferSize := 512 } = .ok out s ∧
      Delivers [fragmentMessage] 0 [fragmentMessage.take 5, fragmentMessage.drop 5] out ∧
      ∀ m ∈ out.flatten, Accepted m := by
  have hmsgs : ∀ m ∈ [fragmentMessage], WellFormed m := by
    intro m hm
    obtain rfl := List.mem_singleton.1 hm
    exact ⟨by decide, by decide⟩
  exact (@framing_complete_iff ⟨.little⟩ 512 [fragmentMessage]
    [fragmentMessage.take 5, fragmentMessage.drop 5] hmsgs (by decide)
    ⟨by decide, by decide +kernel, trivial⟩).mpr (by decide)

/-- `CloseConnection` has no body. -/
def closeConnectionMessage : Octets := ascii "GIOP" ++ [1, 2, 1, 5, 0, 0, 0, 0]

/-- It is not accepted, and not even handed out. -/
theorem closeConnection_not_framed :
    letI : Platform := ⟨.little⟩
    ¬ ∀ (receiveBufferSize : ℕ) (msgs chunks : List Octets), (∀ m ∈ msgs, WellFormed m) →
      chunks.flatten <+: msgs.flatten →
      Admissible IIOPStream2Packet.feed IIOPStream2Packet.Fits chunks { receiveBufferSize } →
      ∃ out s, feedAll IIOPStream2Packet.feed chunks { receiveBufferSize } = .ok out s ∧
        Delivers msgs 0 chunks out ∧ ∀ m ∈ out.flatten, Accepted m := by
  intro h
  obtain ⟨out, s, hrun, hout, -⟩ := h 512 [closeConnectionMessage] [closeConnectionMessage]
    (fun m hm => by
      obtain rfl := List.mem_singleton.1 hm
      exact ⟨by decide, by decide⟩)
    (List.prefix_refl _) ⟨by decide, trivial⟩
  have hnothing : @feedAll Fault IIOPStream2Packet UInt8 (@IIOPStream2Packet.feed ⟨.little⟩)
      [closeConnectionMessage] { receiveBufferSize := 512 } =
      .ok [[]] { receiveBufferSize := 512, data := closeConnectionMessage, reserved := 512 } := by
    decide +kernel
  rw [hnothing] at hrun
  cases hrun
  have hall := hout.2 1
  revert hall
  decide

end Corba
