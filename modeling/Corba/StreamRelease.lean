/-
What a buffer keeps of the messages it has handed out.

`IIOPStream2Packet::message` of `src/corba/net/stream2packet.cc` takes what has been handed out off
the buffer when it moves an incomplete message to the front, and when nothing is left.  When it
returns because there are less than sixteen octets, it leaves the buffer as it is.

Main definitions:

* `Corba.IIOPStream2Packet.Released` — nothing is kept of what has been handed out;
* `Corba.CutsClean` — a read does not hand out messages and end a few octets behind them;
* `Corba.IIOPStream2Packet.Reached` — a buffer after some reads.

Main results:

* `Corba.IIOPStream2Packet.Reached.next` — one read;
* `Corba.delivered_released_iff` — exactly when everything that is handed out is released, which
  bounds the buffer;
* `Corba.reserved_unbounded` — otherwise it can grow without bound.
-/

import Corba.Stream2Packet
import Corba.Runs

set_option relaxedAutoImplicit false
set_option autoImplicit false

namespace Corba

open Exec Framing

/-- The read of the next `k` octets after the first `n` hands out nothing, or ends at the end of a
message, or ends so far behind it that the next header is looked at. -/
def CutsClean (msgs : List Octets) (n k : ℕ) : Prop :=
  handed 16 msgs (n + k) = handed 16 msgs n ∨
    kept 16 msgs (n + k) = 0 ∨ 16 ≤ kept 16 msgs (n + k)

instance (msgs : List Octets) (n k : ℕ) : Decidable (CutsClean msgs n k) :=
  inferInstanceAs (Decidable (_ ∨ _ ∨ _))

namespace IIOPStream2Packet

/-- Of so many octets that have been received, as many as have been delivered are gone. -/
structure Released (s : IIOPStream2Packet) (received delivered : ℕ) : Prop where
  offset_eq : s.offset = 0
  size_eq : s.size + delivered = received

/-! ### The room -/

theorem buffer_receiveBufferSize (s : IIOPStream2Packet) :
    s.buffer.receiveBufferSize = s.receiveBufferSize := by
  rw [buffer]
  split <;> rfl

/-- Room is only made when it is needed. -/
theorem buffer_reserved_le {s : IIOPStream2Packet} {b : ℕ}
    (h : s.reserved ≤ b + 2 * s.receiveBufferSize) (hsize : s.size ≤ b) :
    s.buffer.reserved ≤ b + 2 * s.receiveBufferSize := by
  rw [buffer]
  split
  next hlt =>
    show s.reserved + s.receiveBufferSize ≤ _
    omega
  next => omega

/-- There is always enough room for what is asked for. -/
theorem fits_of_le {s : IIOPStream2Packet} {chunk : Octets} (h : s.size ≤ s.reserved)
    (hchunk : chunk.length ≤ s.receiveBufferSize) :
    Fits chunk s ∧ s.size + chunk.length ≤ s.buffer.reserved := by
  have hsame : s.buffer.size = s.size := congrArg List.length s.buffer_same.1
  have hroom : s.size + chunk.length ≤ s.buffer.reserved := by
    rw [buffer]
    split
    next hlt =>
      show _ ≤ s.reserved + s.receiveBufferSize
      omega
    next hge => omega
  refine ⟨?_, hroom⟩
  rw [Fits, length, hsame]
  omega

variable [Platform]

/-! ### The reads of a stream -/

/-- The collector after some reads of a stream of messages. -/
structure Reached (receiveBufferSize : ℕ) (msgs read : List Octets) (out : List (List Octets))
    (s : IIOPStream2Packet) : Prop where
  run : feedAll feed read { receiveBufferSize } = .ok out s
  held : s.Held (remaining 16 msgs read.flatten.length) (kept 16 msgs read.flatten.length)
  delivered : out.flatten = handed 16 msgs read.flatten.length
  quiet : message s = .ok [] s
  buffered : s.receiveBufferSize = receiveBufferSize

variable {receiveBufferSize : ℕ} {msgs read : List Octets} {out : List (List Octets)}
  {s : IIOPStream2Packet}

theorem reached_start (receiveBufferSize : ℕ) (hmsgs : ∀ m ∈ msgs, WellFormed m) :
    Reached receiveBufferSize msgs [] [] { receiveBufferSize } := by
  have hnil : handed 16 msgs 0 = [] := by
    cases msgs with
    | nil => rfl
    | cons m msgs => exact handed_cons_of_not msgs fun h => by omega
  refine ⟨rfl, ?_, hnil.symm, message_short rfl (Nat.zero_lt_succ 15), rfl⟩
  show Held _ (remaining 16 msgs 0) (kept 16 msgs 0)
  rw [remaining_of_handed_eq_nil hnil, kept_of_handed_eq_nil hnil]
  exact (holding_start receiveBufferSize hmsgs).1

/-- **One more read.** -/
theorem Reached.next (h : Reached receiveBufferSize msgs read out s) {chunk : Octets}
    (hchunk : chunk <+: msgs.flatten.drop read.flatten.length) :
    ∃ ms s', Reached receiveBufferSize msgs (read ++ [chunk]) (out ++ [ms]) s' ∧
      s'.reserved = s.buffer.reserved ∧
      (s.offset = 0 → (s'.offset = 0 ↔ CutsClean msgs read.flatten.length chunk.length)) := by
  have hlength : (read ++ [chunk]).flatten.length = read.flatten.length + chunk.length := by
    rw [List.flatten_append, List.length_append, List.flatten_singleton]
  rw [drop_flatten_handed 16] at hchunk
  obtain ⟨s', hrun, hs'⟩ := feed_run h.held hchunk
  have hheld := hs'.held
  have hoffset := hs'.offset_eq
  rw [← remaining_add, ← kept_add] at hheld
  rw [← kept_add] at hoffset
  refine ⟨_, s', ⟨feedAll_concat h.run hrun, ?_, ?_, hs'.quiet, ?_⟩, hs'.reserved, ?_⟩
  · rwa [hlength]
  · rw [List.flatten_append, List.flatten_singleton, h.delivered, hlength, ← handed_add]
  · rw [hs'.receiveBufferSize, buffer_receiveBufferSize, h.buffered]
  · intro hzero
    have hsame : s.buffer.offset = s.offset := s.buffer_same.2.1
    have hnone : handed 16 msgs (read.flatten.length + chunk.length) =
          handed 16 msgs read.flatten.length ↔
        kept 16 msgs (read.flatten.length + chunk.length) =
          kept 16 msgs read.flatten.length + chunk.length := by
      rw [handed_add, List.append_right_eq_self, kept_add]
      refine handed_eq_nil_iff fun m hm hnil => ?_
      have := (h.held.wellFormed m hm).twelve_le
      rw [hnil] at this
      cases this
    have hle := kept_le 16 (remaining 16 msgs read.flatten.length)
      (kept 16 msgs read.flatten.length + chunk.length)
    rw [← kept_add] at hle
    rw [hoffset, hsame, hzero, CutsClean, hnone]
    split
    next hclean => exact iff_of_true rfl (.inr hclean)
    next hnot =>
      constructor
      · intro hsub
        exact .inl (by omega)
      · rintro (hall | hclean)
        · omega
        · exact absurd hclean hnot

/-- What is not moved begins with what has not been handed out. -/
theorem Reached.size_eq (h : Reached receiveBufferSize msgs read out s) (hzero : s.offset = 0) :
    s.size = kept 16 msgs read.flatten.length := by
  have hlength := h.held.length_eq
  rwa [length_pending, hzero, Nat.sub_zero] at hlength

theorem Reached.released (h : Reached receiveBufferSize msgs read out s) (hzero : s.offset = 0) :
    s.Released read.flatten.length out.flatten.flatten.length := by
  have hle := length_flatten_handed_le 16 msgs read.flatten.length
  refine ⟨hzero, ?_⟩
  rw [h.size_eq hzero, h.delivered, kept, Nat.sub_add_cancel hle]

/-- What is kept is an incomplete message, or too little to be looked at. -/
theorem Reached.size_le (h : Reached receiveBufferSize msgs read out s) (hzero : s.offset = 0)
    {M : ℕ} (hM : ∀ m ∈ msgs, m.length ≤ M) : s.size ≤ M + 16 := by
  rw [h.size_eq hzero]
  have hnone := handed_remaining 16 msgs read.flatten.length
  have hle := h.held.le
  have hsub : remaining 16 msgs read.flatten.length <:+ msgs := List.drop_suffix _ _
  cases hremaining : remaining 16 msgs read.flatten.length with
  | nil =>
      rw [hremaining, List.flatten_nil, List.length_nil] at hle
      omega
  | cons m ms =>
      rw [hremaining] at hnone hsub
      have hm := hM m (hsub.subset (List.mem_cons_self ..))
      have hlt := lt_of_handed_eq_nil hnone
      omega

omit [Platform] in
/-- The next chunk of a stream. -/
theorem next_chunk {chunks : List Octets} {chunk : Octets} (hstream : chunks.flatten <+: msgs.flatten)
    (hread : read ++ [chunk] <+: chunks) : chunk <+: msgs.flatten.drop read.flatten.length := by
  obtain ⟨later, rfl⟩ := hread
  obtain ⟨tail, htail⟩ := hstream
  rw [← htail, List.flatten_append, List.flatten_append, List.flatten_singleton, List.append_assoc,
    List.append_assoc, List.drop_left]
  exact List.prefix_append _ _

/-- Every read is made. -/
theorem exists_reached (receiveBufferSize : ℕ) {chunks : List Octets} (hmsgs : ∀ m ∈ msgs, WellFormed m)
    (hstream : chunks.flatten <+: msgs.flatten) (hread : read <+: chunks) :
    ∃ out s, Reached receiveBufferSize msgs read out s := by
  induction read using List.reverseRecOn with
  | nil => exact ⟨_, _, reached_start receiveBufferSize hmsgs⟩
  | append_singleton read chunk ih =>
      obtain ⟨out, s, hs⟩ := ih ((List.prefix_append _ _).trans hread)
      obtain ⟨ms, s', hs', -⟩ := hs.next (next_chunk hstream hread)
      exact ⟨_, _, hs'⟩

/-- A buffer does not grow beyond this as long as everything is released. -/
theorem exists_reached_released (receiveBufferSize : ℕ) {chunks : List Octets} (hmsgs : ∀ m ∈ msgs, WellFormed m)
    (hstream : chunks.flatten <+: msgs.flatten)
    (hclean : ∀ read chunk, read ++ [chunk] <+: chunks →
      CutsClean msgs read.flatten.length chunk.length) (hread : read <+: chunks) :
    ∃ out s, Reached receiveBufferSize msgs read out s ∧ s.offset = 0 ∧
      ∀ M, (∀ m ∈ msgs, m.length ≤ M) → s.reserved ≤ M + 16 + 2 * receiveBufferSize := by
  induction read using List.reverseRecOn with
  | nil =>
      refine ⟨_, _, reached_start receiveBufferSize hmsgs, rfl, fun M _ => ?_⟩
      exact Nat.zero_le _
  | append_singleton read chunk ih =>
      obtain ⟨out, s, hs, hzero, hbound⟩ := ih ((List.prefix_append _ _).trans hread)
      obtain ⟨ms, s', hs', hreserved, hoffset⟩ := hs.next (next_chunk hstream hread)
      refine ⟨_, _, hs', (hoffset hzero).2 (hclean read chunk hread), fun M hM => ?_⟩
      have hroom := buffer_reserved_le (s := s) (b := M + 16)
        (by rw [hs.buffered]; exact hbound M hM) (hs.size_le hzero hM)
      rwa [hreserved, ← hs.buffered]

/-! ### Reads that end in a header -/

section Cuts

variable {m : Octets} {r : ℕ}

omit [Platform] in
/-- The first octets of a message are not looked at. -/
theorem handed_four (ms : List Octets) (hm : m.length = 16) : handed 16 (m :: ms) 4 = [] :=
  handed_cons_of_not ms fun h => by omega

/-- A read that ends four octets behind a message leaves the message in the buffer. -/
theorem feed_cut (hm : m.length = 16) (h : s.Held (.replicate (r + 2) m) 4) :
    ∃ s', feed (m.drop 4 ++ m.take 4) s = .ok [m] s' ∧ s'.Held (.replicate (r + 1) m) 4 ∧
      s'.offset = s.offset + 16 ∧ s'.reserved = s.buffer.reserved ∧
      s'.receiveBufferSize = s.receiveBufferSize := by
  have hchunk : (m.drop 4 ++ m.take 4).length = 16 := by
    rw [List.length_append, List.length_drop, List.length_take]
    omega
  have hprefix : m.drop 4 ++ m.take 4 <+: (List.replicate (r + 2) m).flatten.drop 4 := by
    rw [List.replicate_succ, List.replicate_succ, List.flatten_cons, List.flatten_cons,
      List.drop_append_of_le_length (by omega), List.prefix_append_right_inj]
    exact (List.take_prefix _ _).trans (List.prefix_append _ _)
  obtain ⟨s', hrun, hs'⟩ := feed_run h hprefix
  have hle : m.length ≤ 4 + 16 := by omega
  have hsub : 4 + 16 - m.length = 4 := by omega
  have hnone : handed 16 (.replicate (r + 1) m) 4 = [] := handed_four _ hm
  have hheld := hs'.held
  have hoffset := hs'.offset_eq
  rw [hchunk, List.replicate_succ, remaining_cons_of_le _ hle (by omega),
    kept_cons_of_le _ hle (by omega), hsub, remaining_of_handed_eq_nil hnone,
    kept_of_handed_eq_nil hnone] at hheld
  rw [hchunk, List.replicate_succ, kept_cons_of_le _ hle (by omega), hsub,
    kept_of_handed_eq_nil hnone, if_neg (by decide), s.buffer_same.2.1] at hoffset
  rw [hchunk, List.replicate_succ, handed_cons_of_le _ hle (by omega), hsub, hnone] at hrun
  exact ⟨s', hrun, hheld, hoffset, hs'.reserved,
    hs'.receiveBufferSize.trans s.buffer_receiveBufferSize⟩

omit [Platform] in
/-- What is in the buffer when four octets have not been handed out. -/
theorem Held.size_eq {ms : List Octets} {n : ℕ} (h : s.Held ms n) : s.size = s.offset + n := by
  have hlength := h.length_eq
  have hle : s.offset ≤ s.size := h.offset_le
  rw [length_pending] at hlength
  omega

/-- The first read ends in the header of the first message. -/
theorem feed_header (r : ℕ) {receiveBufferSize : ℕ} (hm : m.length = 16) (hwf : WellFormed m)
    (hread : 16 ≤ receiveBufferSize) :
    Fits (m.take 4) { receiveBufferSize } ∧
      ∃ s', feed (m.take 4) { receiveBufferSize } = .ok [] s' ∧
        s'.Held (.replicate (r + 1) m) 4 ∧ s'.size ≤ s'.reserved ∧
        s'.receiveBufferSize = receiveBufferSize := by
  have hmsgs : ∀ m' ∈ List.replicate (r + 1) m, WellFormed m' := fun m' hm' =>
    List.eq_of_mem_replicate hm' ▸ hwf
  have hstart := (holding_start receiveBufferSize hmsgs).1
  have hfirst : m.take 4 <+: (List.replicate (r + 1) m).flatten.drop 0 := by
    rw [List.drop_zero, List.replicate_succ, List.flatten_cons]
    exact (List.take_prefix _ _).trans (List.prefix_append _ _)
  have hfour : (m.take 4).length = 4 := by
    rw [List.length_take, hm]
    rfl
  have hnone : handed 16 (List.replicate (r + 1) m) 4 = [] := handed_four _ hm
  obtain ⟨s', hrun, hs'⟩ := feed_run hstart hfirst
  have hheld := hs'.held
  have hoffset := hs'.offset_eq
  rw [hfour, Nat.zero_add, hnone] at hrun
  rw [hfour, Nat.zero_add, remaining_of_handed_eq_nil hnone, kept_of_handed_eq_nil hnone] at hheld
  rw [hfour, Nat.zero_add, kept_of_handed_eq_nil hnone, if_neg (by decide), Nat.sub_self,
    Nat.add_zero, (buffer_same _).2.1] at hoffset
  obtain ⟨hfits, hroom⟩ : Fits (m.take 4) { receiveBufferSize } ∧
      size { receiveBufferSize } + 4 ≤ (buffer { receiveBufferSize }).reserved := by
    have hsmall : (m.take 4).length ≤ receiveBufferSize := by omega
    have hboth := fits_of_le (s := { receiveBufferSize }) le_rfl hsmall
    rwa [hfour] at hboth
  refine ⟨hfits, s', hrun, hheld, ?_, ?_⟩
  · rw [hheld.size_eq, hoffset, hs'.reserved]
    exact hroom
  · rw [hs'.receiveBufferSize, buffer_receiveBufferSize]

/-- **Nothing is ever released when all reads end like this.** -/
theorem feedAll_cuts (hm : m.length = 16) (h : s.Held (.replicate (r + 1) m) 4)
    (hroom : s.size ≤ s.reserved) (hread : 16 ≤ s.receiveBufferSize) :
    Admissible feed Fits (.replicate r (m.drop 4 ++ m.take 4)) s ∧
      ∃ out s', feedAll feed (.replicate r (m.drop 4 ++ m.take 4)) s = .ok out s' ∧
        s.offset + 16 * r ≤ s'.reserved := by
  induction r generalizing s with
  | zero =>
      refine ⟨trivial, [], s, rfl, ?_⟩
      rw [h.size_eq] at hroom
      omega
  | succ r ih =>
      obtain ⟨s', hrun, hheld, hoffset, hreserved, hsame⟩ := feed_cut hm h
      have hchunk : (m.drop 4 ++ m.take 4).length = 16 := by
        rw [List.length_append, List.length_drop, List.length_take]
        omega
      obtain ⟨hfits, hafter⟩ := fits_of_le hroom (hchunk.trans_le hread)
      have hsize : s'.size = s.size + 16 := by
        rw [hheld.size_eq, h.size_eq, hoffset, Nat.add_right_comm]
      obtain ⟨hadmissible, out, s'', hrest, hbound⟩ := ih hheld
        (by rw [hsize, hreserved, ← hchunk]; exact hafter) (by rw [hsame]; exact hread)
      refine ⟨⟨hfits, ?_⟩, [m] :: out, s'', ?_, ?_⟩
      · rw [hrun]
        exact hadmissible
      · rw [List.replicate_succ, feedAll, bind_ok hrun, bind_ok hrest]
        rfl
      · omega

end Cuts

end IIOPStream2Packet

open IIOPStream2Packet

/-- **Everything that has been handed out is released whenever `message` returns nothing, and the
buffer is bounded by the longest message and twice the size of a read, exactly when no read hands out
messages and ends one to fifteen octets behind them.** -/
theorem delivered_released_iff [Platform] (receiveBufferSize : ℕ) {msgs chunks : List Octets}
    (hmsgs : ∀ m ∈ msgs, WellFormed m) (hstream : chunks.flatten <+: msgs.flatten) :
    (∀ read, read <+: chunks →
      ∃ out s, feedAll feed read { receiveBufferSize } = .ok out s ∧ message s = .ok [] s ∧
        s.Released read.flatten.length out.flatten.flatten.length ∧
        ∀ M, (∀ m ∈ msgs, m.length ≤ M) → s.reserved ≤ M + 2 * receiveBufferSize + 16) ↔
      ∀ read chunk, read ++ [chunk] <+: chunks →
        CutsClean msgs read.flatten.length chunk.length := by
  constructor
  · intro h read chunk hread
    -- the states the collector is in before and after the read
    obtain ⟨out, s, hs⟩ := exists_reached receiveBufferSize hmsgs hstream
      ((List.prefix_append _ _).trans hread)
    obtain ⟨ms, s', hs', -, hoffset⟩ := hs.next (next_chunk hstream hread)
    obtain ⟨_, _, hrun, -, hreleased, -⟩ := h read ((List.prefix_append _ _).trans hread)
    obtain ⟨_, _, hrun', -, hreleased', -⟩ := h (read ++ [chunk]) hread
    cases hs.run.symm.trans hrun
    cases hs'.run.symm.trans hrun'
    exact (hoffset hreleased.offset_eq).1 hreleased'.offset_eq
  · intro hclean read hread
    obtain ⟨out, s, hs, hzero, hbound⟩ := exists_reached_released receiveBufferSize
      hmsgs hstream hclean hread
    refine ⟨out, s, hs.run, hs.quiet, hs.released hzero, fun M hM => ?_⟩
    rw [Nat.add_right_comm]
    exact hbound M hM

/-- What has arrived when all reads end four octets behind a message. -/
theorem flatten_cuts (m : Octets) (r : ℕ) :
    m.take 4 ++ (List.replicate r (m.drop 4 ++ m.take 4)).flatten =
      (List.replicate r m).flatten ++ m.take 4 := by
  induction r with
  | zero => rw [List.replicate_zero, List.flatten_nil, List.append_nil]; rfl
  | succ r ih =>
      rw [List.replicate_succ, List.replicate_succ, List.flatten_cons, List.flatten_cons,
        List.append_assoc (m.drop 4), ih, ← List.append_assoc (m.take 4), List.take_append_drop,
        List.append_assoc]

/-- **However short the messages are, the buffer can grow without bound.** -/
theorem reserved_unbounded [Platform] {receiveBufferSize : ℕ} (hread : 16 ≤ receiveBufferSize)
    (bound : ℕ) :
    ∃ msgs chunks : List Octets, (∀ m ∈ msgs, WellFormed m ∧ m.length = 16) ∧
      chunks.flatten <+: msgs.flatten ∧ Admissible feed Fits chunks { receiveBufferSize } ∧
      ∃ out s, feedAll feed chunks { receiveBufferSize } = .ok out s ∧ bound ≤ s.reserved := by
  let m := fragmentMessage
  have hm : m.length = 16 := by decide
  have hwf : WellFormed m := ⟨by decide, by decide⟩
  have hmsgs : ∀ m' ∈ List.replicate (bound + 1) m, WellFormed m' ∧ m'.length = 16 := by
    intro m' hm'
    obtain rfl := List.eq_of_mem_replicate hm'
    exact ⟨hwf, hm⟩
  obtain ⟨hfits, s, hrun, hheld, hroom, hsame⟩ := feed_header bound hm hwf hread
  obtain ⟨hadmissible, out, s', hrest, hbound⟩ := feedAll_cuts hm hheld hroom
    (by rw [hsame]; exact hread)
  refine ⟨.replicate (bound + 1) m, m.take 4 :: .replicate bound (m.drop 4 ++ m.take 4), hmsgs, ?_,
    ⟨hfits, ?_⟩, [] :: out, s', ?_, ?_⟩
  · rw [List.flatten_cons, flatten_cuts, List.replicate_succ', List.flatten_concat,
      List.prefix_append_right_inj]
    exact List.take_prefix _ _
  · rw [hrun]
    exact hadmissible
  · rw [feedAll, bind_ok hrun, bind_ok hrest]
    rfl
  · omega

/-- A message arrives in two chunks, the first of which ends in its header. -/
theorem delivered_released_fragment :
    letI : Platform := ⟨.little⟩
    ∃ out s, feedAll feed [fragmentMessage.take 5, fragmentMessage.drop 5]
        { receiveBufferSize := 512 } = .ok out s ∧ message s = .ok [] s ∧
      s.Released 16 out.flatten.flatten.length ∧ s.reserved ≤ 16 + 2 * 512 + 16 := by
  have hmsgs : ∀ m ∈ [fragmentMessage], WellFormed m := by
    intro m hm
    obtain rfl := List.mem_singleton.1 hm
    exact ⟨by decide, by decide⟩
  have hclean : ∀ read chunk, read ++ [chunk] <+: [fragmentMessage.take 5, fragmentMessage.drop 5] →
      CutsClean [fragmentMessage] read.flatten.length chunk.length := by
    intro read chunk hread
    cases read with
    | nil =>
        obtain ⟨rfl, -⟩ := List.cons_prefix_cons.1 hread
        decide
    | cons first read =>
        obtain ⟨rfl, hrest⟩ := List.cons_prefix_cons.1 hread
        cases read with
        | nil =>
            obtain ⟨rfl, -⟩ := List.cons_prefix_cons.1 hrest
            decide
        | cons second read =>
            obtain ⟨-, hnone⟩ := List.cons_prefix_cons.1 hrest
            simpa using List.prefix_nil.1 hnone
  obtain ⟨out, s, hrun, hquiet, hreleased, hbound⟩ := (@delivered_released_iff ⟨.little⟩ 512
    [fragmentMessage] [fragmentMessage.take 5, fragmentMessage.drop 5] hmsgs (by decide)).2 hclean _
    List.prefix_rfl
  refine ⟨out, s, hrun, hquiet, hreleased, hbound 16 fun m hm => ?_⟩
  obtain rfl := List.mem_singleton.1 hm
  decide

/-- A message and the first four octets of the next one arrive together.  All of them are kept. -/
theorem delivered_kept :
    letI : Platform := ⟨.little⟩
    ¬ ∀ (receiveBufferSize : ℕ) (msgs chunks : List Octets), (∀ m ∈ msgs, WellFormed m) →
      chunks.flatten <+: msgs.flatten →
      Admissible feed Fits chunks { receiveBufferSize } →
      ∃ out s, feedAll feed chunks { receiveBufferSize } = .ok out s ∧
        s.Released chunks.flatten.length out.flatten.flatten.length := by
  intro h
  obtain ⟨out, s, hrun, hreleased⟩ := h 512 [fragmentMessage, fragmentMessage]
    [fragmentMessage ++ fragmentMessage.take 4]
    (fun m hm => by
      obtain rfl : m = fragmentMessage := by simpa using hm
      exact ⟨by decide, by decide⟩)
    (by decide) ⟨by decide, trivial⟩
  have hkept : @feedAll Fault IIOPStream2Packet UInt8 (@feed ⟨.little⟩)
      [fragmentMessage ++ fragmentMessage.take 4] { receiveBufferSize := 512 } =
      .ok [[fragmentMessage]]
        ⟨512, fragmentMessage ++ fragmentMessage.take 4, 512, 16, 0⟩ := by
    decide +kernel
  rw [hkept] at hrun
  cases hrun
  exact absurd hreleased.offset_eq (by decide)

end Corba
