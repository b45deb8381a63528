/-
What the headers point at.

The object key and the operation of a request are views of the message.  Whatever the message is,
scanning it leaves its octets alone, and the views it yields lie inside of it; with one exception:
an operation without the octet that ends it, the length of which is counted down from zero.

Main definitions:

* `Corba.GIOPDecoder.Over` — the decoder is on these octets, and not far behind their end;
* `Corba.View.OfString` — what is known of the view of a string;
* `Corba.CDRDecoder.Past`, `Corba.CDRDecoder.Reached` — how far the decoder has got;
* `Corba.GIOPDecoder.Kept` — what neither reading nor the encapsulations change;
* `Corba.GIOPDecoder.Speaks` — the version the decoder is at.

Main results:

* `Corba.GIOPDecoder.triple_scanRequestHeader`, `triple_scanLocateRequest` — what
  is known of the views of a header;
* `Corba.GIOPDecoder.speaks_scanRequestHeader` — the version stays as it is;
* `Corba.GIOPDecoder.octets_within`, `Corba.GIOPDecoder.octets_endless` — what reading them does.
-/

import Corba.CdrBounds
import Corba.GiopDecoder

set_option relaxedAutoImplicit false
set_option autoImplicit false

namespace Corba

open Layout ByteOrder Placed Exec

/-! ### Views -/

/-- The size of a string whose length has been counted down from zero. -/
def View.Endless (v : View) : Prop := v.size = 2 ^ 64 - 1

/-- The octets of a view. -/
def View.of (D : Octets) (v : View) : Octets := (D.drop v.start).take v.size

/-- What `readStringView` yields. -/
def View.OfString (D : Octets) (v : View) : Prop := v.Within D ∨ v.Endless

variable {D : Octets}

theorem View.Within.not_endless {v : View} (h : v.Within D) (hD : D.length < 2 ^ 63) :
    ¬ v.Endless := by
  rintro hv
  rw [Endless] at hv
  rcases h with hzero | hle
  · omega
  · omega

/-! ### Readers of numbers, strings and blobs -/

namespace CDRDecoder

/-- The decoder is on these octets, and not behind their end. -/
def Inside (D : Octets) (d : CDRDecoder) : Prop := d.data = D ∧ d.m_offset ≤ D.length

/-- The decoder is on these octets.  A size that has not been checked yet may have moved it behind
their end, though not so far that the offset would begin again at zero. -/
def Over (D : Octets) (d : CDRDecoder) : Prop :=
  d.data = D ∧ d.m_offset ≤ D.length / 8 * 8 + 2 ^ 33

theorem Inside.over {d : CDRDecoder} (h : d.Inside D) : d.Over D := by
  obtain ⟨rfl, ho⟩ := h
  exact ⟨rfl, by omega⟩

/-- The decoder is on these octets, not far behind their end, and not in front of `o`. -/
def Past (D : Octets) (o : ℕ) (d : CDRDecoder) : Prop := d.Over D ∧ o ≤ d.m_offset

/-- The decoder is on these octets, not behind their end, and not in front of `o`. -/
def Reached (D : Octets) (o : ℕ) (d : CDRDecoder) : Prop := d.Inside D ∧ o ≤ d.m_offset

theorem Reached.past {o : ℕ} {d : CDRDecoder} (h : d.Reached D o) : d.Past D o := ⟨h.1.over, h.2⟩

theorem triple_fetch (pos n : ℕ) (P : CDRDecoder → Prop) :
    Triple P (fetch pos n) (fun _ d => P d ∧ (n = 0 ∨ pos + n ≤ d.data.length)) := by
  intro d bs d' hd hrun
  rw [fetch] at hrun
  split at hrun
  · rename_i hle
    cases hrun
    exact ⟨hd, hle⟩
  · cases hrun

/-- The pointer that is returned has `n` octets behind it. -/
theorem triple_ptr {n : ℕ} (hn : n < 2 ^ 32) (what : ℕ → ℕ → String) (hD : D.length < 2 ^ 63) :
    Triple (Over D) (ptr n what) (fun pos d => d.Inside D ∧ pos + n ≤ D.length) := by
  intro d pos d' hd hrun
  obtain ⟨data, o, order⟩ := d
  obtain ⟨hdata, ho⟩ := hd
  obtain rfl : data = D := hdata
  have ho' : o ≤ data.length / 8 * 8 + 2 ^ 33 := ho
  have hskip : skip n ⟨data, o, order⟩ = ⟨data, o + n, order⟩ := by
    rw [skip, sizeT_of_lt (by show o + n < _; omega)]
  rw [ptr, hskip] at hrun
  dsimp only at hrun
  split at hrun
  · cases hrun
  · rename_i hle
    have hle' : o + n ≤ data.length := Nat.le_of_not_lt hle
    cases hrun
    exact ⟨⟨rfl, hle'⟩, hle'⟩

/-- Aligning does not pass the bound, which is aligned itself. -/
theorem over_align {w : ℕ} (hw : w = 2 ∨ w = 4 ∨ w = 8) (hD : D.length < 2 ^ 63) {d : CDRDecoder}
    (hd : d.Over D) : Over D { d with m_offset := sizeT (roundUp w d.m_offset) } := by
  obtain ⟨rfl, ho⟩ := hd
  have hlt : roundUp w d.m_offset < d.m_offset + w := roundUp_lt (by omega) _
  have hmod : roundUp w d.m_offset % w = 0 := roundUp_mod (by omega) _
  refine ⟨rfl, ?_⟩
  show sizeT (roundUp w d.m_offset) ≤ _
  rcases hw with rfl | rfl | rfl
  all_goals
    rw [sizeT_of_lt (by omega)]
    omega

theorem reached_ptr {n : ℕ} (hn : n < 2 ^ 32) (what : ℕ → ℕ → String) (hD : D.length < 2 ^ 63)
    (o : ℕ) : Triple (Past D o) (ptr n what) (fun _ => Reached D (o + n)) := by
  intro d pos d' hd hrun
  refine ⟨(triple_ptr hn what hD d pos d' hd.1 hrun).1, ?_⟩
  obtain ⟨⟨-, hover⟩, ho⟩ := hd
  have hskip : (d.skip n).m_offset = d.m_offset + n := sizeT_of_lt (by omega)
  rw [ptr] at hrun
  split at hrun
  · cases hrun
  · cases hrun
    omega

/-- Aligning does not go back. -/
theorem past_align {w o : ℕ} (hw : w = 2 ∨ w = 4 ∨ w = 8) (hD : D.length < 2 ^ 63) {d : CDRDecoder}
    (hd : d.Past D o) : Past D o { d with m_offset := sizeT (roundUp w d.m_offset) } := by
  refine ⟨over_align hw hD hd.1, ?_⟩
  obtain ⟨⟨-, hover⟩, ho⟩ := hd
  have hlt : roundUp w d.m_offset < d.m_offset + w := roundUp_lt (by omega) _
  have hle : d.m_offset ≤ roundUp w d.m_offset := le_roundUp w _
  show o ≤ sizeT (roundUp w d.m_offset)
  rw [sizeT_of_lt (by omega)]
  omega

theorem reached_ptr2 (hD : D.length < 2 ^ 63) (o : ℕ) :
    Triple (Past D o) ptr2 (fun _ => Reached D (o + 2)) := by
  refine (Triple.modify (Q := fun _ => Past D o) fun d hd => ?_).bind fun _ =>
    reached_ptr (by decide) _ hD o
  rw [align2_eq]
  exact past_align (Or.inl rfl) hD hd

theorem reached_ptr4 (hD : D.length < 2 ^ 63) (o : ℕ) :
    Triple (Past D o) ptr4 (fun _ => Reached D (o + 4)) := by
  refine (Triple.modify (Q := fun _ => Past D o) fun d hd => ?_).bind fun _ =>
    reached_ptr (by decide) _ hD o
  rw [align4_eq]
  exact past_align (Or.inr (Or.inl rfl)) hD hd

theorem triple_next (hD : D.length < 2 ^ 63) : Triple (Over D) next (fun _ => Inside D) := by
  refine Triple.get_bind fun d hd => ?_
  refine (triple_fetch d.m_offset 1 (Over D)).bind fun bs => ?_
  -- what is set is the state that was seen, which lies in the buffer
  intro d₁ b d₂ hd₁ hrun
  obtain ⟨⟨hdata, -⟩, hle⟩ := hd₁
  rw [set_bind, pure_run] at hrun
  cases hrun
  rw [hdata] at hle
  refine ⟨hd.1, ?_⟩
  show sizeT (d.m_offset + 1) ≤ _
  rw [sizeT_of_lt (by omega)]
  omega

section Readers

variable [Platform]

theorem reached_word {o : ℕ} {p : DecodeM ℕ} {P : CDRDecoder → Prop}
    (hp : Triple P p fun _ => Reached D o) (w : ℕ) : Triple P (word p w) (fun _ => Reached D o) := by
  refine hp.bind fun pos => (triple_fetch pos w (Reached D o)).bind fun bs => ?_
  exact Triple.get_bind fun d _ => Triple.pure fun _ hd => hd.1

theorem reached_readUshort (hD : D.length < 2 ^ 63) (o : ℕ) :
    Triple (Past D o) readUshort (fun _ => Reached D (o + 2)) :=
  (reached_word (reached_ptr2 hD o) 2).bind fun _ => Triple.pure fun _ hd => hd

theorem reached_readUlong (hD : D.length < 2 ^ 63) (o : ℕ) :
    Triple (Past D o) readUlong (fun _ => Reached D (o + 4)) :=
  (reached_word (reached_ptr4 hD o) 4).bind fun _ => Triple.pure fun _ hd => hd

theorem reached_readStringView (hD : D.length < 2 ^ 63) (o : ℕ) :
    Triple (Past D o) readStringView (fun _ => Reached D (o + 4)) := by
  refine (reached_readUlong hD o).bind fun len => ?_
  refine ((reached_ptr len.toNat_lt outOfRange hD (o + 4)).mono (fun _ hd => hd.past)
    fun _ _ h => h).bind fun pos => ?_
  exact Triple.pure fun d hd => ⟨hd.1, le_trans (Nat.le_add_right _ _) hd.2⟩

theorem triple_readUshort (hD : D.length < 2 ^ 63) :
    Triple (Over D) readUshort (fun _ => Inside D) :=
  (reached_readUshort hD 0).mono (fun _ hd => ⟨hd, Nat.zero_le _⟩) fun _ _ hd => hd.1

theorem triple_readUlong (hD : D.length < 2 ^ 63) :
    Triple (Over D) readUlong (fun _ => Inside D) :=
  (reached_readUlong hD 0).mono (fun _ hd => ⟨hd, Nat.zero_le _⟩) fun _ _ hd => hd.1

theorem triple_readBlobView (hD : D.length < 2 ^ 63) :
    Triple (Over D) readBlobView (fun v d => d.Inside D ∧ v.Within D) := by
  refine (triple_readUlong hD).bind fun len => ?_
  refine ((triple_ptr len.toNat_lt outOfRange hD).mono (fun _ hd => hd.over) fun _ _ h => h).bind
    fun pos => ?_
  exact Triple.pure fun d hd => ⟨hd.1, Or.inr hd.2⟩

theorem triple_readStringView (hD : D.length < 2 ^ 63) :
    Triple (Over D) readStringView (fun v d => d.Inside D ∧ v.OfString D) := by
  refine (triple_readUlong hD).bind fun len => ?_
  refine ((triple_ptr len.toNat_lt outOfRange hD).mono (fun _ hd => hd.over) fun _ _ h => h).bind
    fun pos => ?_
  refine Triple.pure fun d hd => ⟨hd.1, ?_⟩
  have hlen := len.toNat_lt
  rcases Nat.eq_zero_or_pos len.toNat with hzero | hpositive
  · right
    show sizeT (len.toNat + (2 ^ 64 - 1)) = _
    rw [hzero]
    rfl
  · left
    right
    show pos + (len.toNat + (2 ^ 64 - 1)) % 2 ^ 64 ≤ _
    omega

end Readers

end CDRDecoder

/-! ### Headers -/

namespace GIOPDecoder

/-- The decoder is on these octets, and not behind their end. -/
def Inside (D : Octets) (d : GIOPDecoder) : Prop := d.buffer.Inside D

/-- The decoder is on these octets, and not far behind their end. -/
def Over (D : Octets) (d : GIOPDecoder) : Prop := d.buffer.Over D

theorem Inside.over {d : GIOPDecoder} (h : d.Inside D) : d.Over D := CDRDecoder.Inside.over h

theorem triple_read {α : Type} {P : CDRDecoder → Prop} {m : DecodeM α} {Q : α → CDRDecoder → Prop}
    (h : Triple P m Q) : Triple (fun d : GIOPDecoder => P d.buffer) (read m)
      (fun a d => Q a d.buffer) := by
  intro d a d' hd hrun
  rw [read] at hrun
  split at hrun
  · rename_i hread
    cases hrun
    exact h _ _ _ hd hread
  · cases hrun

theorem triple_readOctet (hD : D.length < 2 ^ 63) :
    Triple (Over D) readOctet (fun _ => Inside D) := triple_read (CDRDecoder.triple_next hD)

theorem triple_octets (v : View) {P : CDRDecoder → Prop} :
    Triple (fun d : GIOPDecoder => P d.buffer) (octets v) (fun _ d => P d.buffer) :=
  triple_read ((CDRDecoder.triple_fetch _ _ P).mono (fun _ hd => hd) fun _ _ hd => hd.1)

/-- A comparison leaves the buffer alone. -/
theorem triple_equals (v : View) (s : Octets) {P : CDRDecoder → Prop} :
    Triple (fun d : GIOPDecoder => P d.buffer) (equals v s) (fun _ d => P d.buffer) := by
  rw [equals]
  split
  · exact Triple.pure fun _ hd => hd
  · exact (triple_octets v).bind fun _ => Triple.pure fun _ hd => hd

variable [Platform]

theorem triple_readUshort (hD : D.length < 2 ^ 63) :
    Triple (Over D) readUshort (fun _ => Inside D) := triple_read (CDRDecoder.triple_readUshort hD)

theorem triple_readUlong (hD : D.length < 2 ^ 63) :
    Triple (Over D) readUlong (fun _ => Inside D) := triple_read (CDRDecoder.triple_readUlong hD)

theorem triple_readBlobView (hD : D.length < 2 ^ 63) :
    Triple (Over D) readBlobView (fun v d => d.Inside D ∧ v.Within D) :=
  triple_read (CDRDecoder.triple_readBlobView hD)

theorem triple_readStringView (hD : D.length < 2 ^ 63) :
    Triple (Over D) readStringView (fun v d => d.Inside D ∧ v.OfString D) :=
  triple_read (CDRDecoder.triple_readStringView hD)

/-- Behind an encapsulation, the offset has passed the end by at most the size that was read. -/
theorem triple_readEncapsulation {closure : UInt32 → ScanM Unit} (hD : D.length < 2 ^ 63)
    (h : ∀ type, Triple (Over D) (closure type) fun _ => Over D) :
    Triple (Over D) (readEncapsulation closure) (fun _ => Over D) := by
  refine (triple_readUlong hD).bind fun type => ?_
  refine ((triple_readUlong hD).mono (fun _ hd => hd.over) fun _ _ h => h).bind fun size => ?_
  refine Triple.get_bind fun d hd => ?_
  have hnext : sizeT (d.buffer.m_offset + size.toNat) ≤ D.length / 8 * 8 + 2 ^ 33 := by
    have hsize := size.toNat_lt
    have ho : d.buffer.m_offset ≤ D.length := hd.2
    rw [sizeT_of_lt (by omega)]
    omega
  refine ((triple_readOctet hD).mono (fun _ hd => hd.over) fun _ _ h => h).bind fun flags => ?_
  refine (triple_read (Triple.modify (Q := fun _ => CDRDecoder.Over D) fun b hb => ?_)).bind
    fun _ => ?_
  · exact ⟨hb.1, hb.over.2⟩
  refine (h type).bind fun a => ?_
  refine (triple_read (Triple.modify (f := fun b => { b with endian := d.buffer.endian })
    (Q := fun _ => CDRDecoder.Over D) fun b hb => hb)).bind fun _ => ?_
  refine (triple_read (Triple.modify (Q := fun _ => CDRDecoder.Over D) fun b hb => ?_)).bind
    fun _ => Triple.pure fun _ hd => hd
  exact ⟨hb.1, hnext⟩

/-- An end takes six octets at least: the length of its host and its port. -/
theorem reached_readListenPoint (hD : D.length < 2 ^ 63) (o : ℕ) :
    Triple (fun d => d.buffer.Past D o) readListenPoint
      (fun _ d => d.buffer.Reached D (o + 6)) := by
  refine (triple_read (CDRDecoder.reached_readStringView hD o)).bind fun host => ?_
  refine ((triple_read (CDRDecoder.reached_readUshort hD (o + 4))).mono (fun _ hd => hd.past)
    fun _ _ h => h).bind fun port => ?_
  refine Triple.get_bind fun d _ => ?_
  cases d.connection with
  | none => exact Triple.throw _
  | some connection =>
      refine (triple_equals host _).bind fun same => ?_
      dsimp only
      split
      · split
        · exact Triple.throw_bind _ _
        · exact (triple_octets host).bind fun host => Triple.modify fun _ hd => hd
      · exact Triple.pure fun _ hd => hd

theorem triple_readListenPoint (hD : D.length < 2 ^ 63) :
    Triple (Over D) readListenPoint (fun _ => Over D) :=
  (reached_readListenPoint hD 0).mono (fun _ hd => ⟨hd, Nat.zero_le _⟩) fun _ _ hd => hd.1.over

theorem triple_readServiceContextBody (hD : D.length < 2 ^ 63) (type : UInt32) :
    Triple (Over D) (readServiceContextBody type) (fun _ => Over D) := by
  rw [readServiceContextBody]
  split
  · exact Triple.pure fun _ hd => hd
  · refine (triple_readUlong hD).bind fun count => ?_
    exact (Triple.times (triple_readListenPoint hD) _).mono (fun _ hd => hd.over) fun _ _ h => h
  · exact Triple.pure fun _ hd => hd
  · exact Triple.pure fun _ hd => hd

theorem triple_readServiceContext (hD : D.length < 2 ^ 63) :
    Triple (Over D) readServiceContext (fun _ => Over D) := by
  refine (triple_readUlong hD).bind fun length => ?_
  refine (Triple.times ?_ _).mono (fun _ hd => hd.over) fun _ _ h => h
  exact triple_readEncapsulation hD (triple_readServiceContextBody hD)

theorem triple_readTarget (hD : D.length < 2 ^ 63) :
    Triple (Over D) readTarget (fun v d => d.Inside D ∧ v.Within D) := by
  refine (triple_readUshort hD).bind fun disposition => ?_
  split
  · exact (triple_readBlobView hD).mono (fun _ hd => hd.over) fun _ _ h => h
  · exact Triple.throw _
  · exact Triple.throw _
  · exact Triple.throw _

/-- A message with a header has sixteen octets at least. -/
theorem triple_scanGIOPHeader (hD : D.length < 2 ^ 63) :
    Triple (Over D) scanGIOPHeader (fun _ d => d.Inside D ∧ 16 ≤ D.length) := by
  have hover : ∀ {α : Type} {m : ScanM α} {Q : α → GIOPDecoder → Prop},
      Triple (Over D) m Q → Triple (Inside D) m Q :=
    fun h => h.mono (fun _ hd => hd.over) fun _ _ h => h
  -- what is stored of the header does not touch the buffer
  have hstore : ∀ {f : GIOPDecoder → GIOPDecoder} {g : PUnit → ScanM MessageType}
      {Q : MessageType → GIOPDecoder → Prop}, (∀ d, (f d).buffer = d.buffer) →
      Triple (Inside D) (g ⟨⟩) Q → Triple (Inside D) (modify f >>= g) Q :=
    fun hf hg => (Triple.modify (Q := fun _ => Inside D) fun d hd => by
      rw [Inside, hf]
      exact hd).bind fun _ => hg
  refine Triple.get_bind fun d hd => ?_
  dsimp only
  split
  · exact Triple.throw_bind _ _
  · rename_i hlen
    split
    · exact Triple.throw_bind _ _
    · have hlen' : 16 ≤ D.length := by
        rw [hd.1] at hlen
        omega
      refine (triple_read (Triple.modify (Q := fun _ => CDRDecoder.Over D) fun b hb => ?_)).bind
        fun _ => ?_
      · exact ⟨hb.1, by show 4 ≤ _; omega⟩
      refine (triple_readOctet hD).bind fun major => hstore (fun _ => rfl) ?_
      refine (hover (triple_readOctet hD)).bind fun minor => hstore (fun _ => rfl) ?_
      refine (hover (triple_readOctet hD)).bind fun flags => ?_
      refine (triple_read (Triple.modify (Q := fun _ => CDRDecoder.Inside D) fun b hb => ?_)).bind
        fun _ => ?_
      · exact hb
      refine (hover (triple_readOctet hD)).bind fun type => hstore (fun _ => rfl) ?_
      refine (hover (triple_readUlong hD)).bind fun length => ?_
      exact hstore (fun _ => rfl) <| Triple.pure fun _ hd => ⟨hd, hlen'⟩

/-- **The key of a request lies in the message, and so does its operation, unless its length has
been counted down from zero.** -/
theorem triple_scanRequestHeader (hD : D.length < 2 ^ 63) :
    Triple (Over D) scanRequestHeader (fun request d =>
      d.Over D ∧ request.objectKey.Within D ∧ request.operation.OfString D) := by
  have hskip : Triple (Inside D) (read (modify (CDRDecoder.skip 3))) (fun _ => Over D) := by
    refine triple_read (Triple.modify fun b hb => ⟨hb.1, ?_⟩)
    have ho : b.m_offset ≤ D.length := hb.2
    show sizeT (b.m_offset + 3) ≤ _
    rw [sizeT_of_lt (by omega)]
    omega
  have hover : ∀ {α : Type} {m : ScanM α} {Q : α → GIOPDecoder → Prop},
      Triple (Over D) m Q → Triple (Inside D) m Q :=
    fun h => h.mono (fun _ hd => hd.over) fun _ _ h => h
  refine Triple.get_bind fun d _ => ?_
  cases hl : d.isLegacy with
  | true =>
      refine (triple_readServiceContext hD).bind fun _ => ?_
      refine (triple_readUlong hD).bind fun requestId => ?_
      refine (hover (triple_readOctet hD)).bind fun flags => hskip.bind fun _ => ?_
      refine (triple_readBlobView hD).bind fun key => Triple.of_fact fun hkey => ?_
      refine (hover (triple_readStringView hD)).bind fun op => Triple.of_fact fun hop => ?_
      refine (hover (triple_readUlong hD)).bind fun principal => ?_
      exact Triple.pure fun _ hd => ⟨hd.over, hkey, hop⟩
  | false =>
      refine (triple_readUlong hD).bind fun requestId => ?_
      refine (hover (triple_readOctet hD)).bind fun flags => hskip.bind fun _ => ?_
      refine (triple_readTarget hD).bind fun key => Triple.of_fact fun hkey => ?_
      refine (hover (triple_readStringView hD)).bind fun op => Triple.of_fact fun hop => ?_
      refine (hover (triple_readServiceContext hD)).bind fun _ => ?_
      refine (triple_read (Triple.modify (Q := fun _ => CDRDecoder.Over D) fun b hb => ?_)).bind
        fun _ => Triple.pure fun _ hd => ⟨hd, hkey, hop⟩
      rw [CDRDecoder.align8_eq]
      exact CDRDecoder.over_align (Or.inr (Or.inr rfl)) hD hb

theorem triple_scanLocateRequest (hD : D.length < 2 ^ 63) :
    Triple (Over D) scanLocateRequest (fun request d =>
      d.Over D ∧ request.objectKey.Within D) := by
  refine (triple_readUlong hD).bind fun requestId => ?_
  refine (Triple.modify (Q := fun _ => Over D) fun _ hd => hd.over).bind fun _ => ?_
  refine Triple.get_bind fun d _ => ?_
  cases hl : d.isLegacy with
  | true =>
      exact (triple_readBlobView hD).bind fun key => Triple.pure fun _ hd => ⟨hd.1.over, hd.2⟩
  | false =>
      exact (triple_readTarget hD).bind fun key => Triple.pure fun _ hd => ⟨hd.1.over, hd.2⟩

/-! ### What scanning keeps -/

/-- A property that neither the buffer nor the far end of the connection matters for. -/
structure Kept (P : GIOPDecoder → Prop) : Prop where
  buffer : ∀ {d : GIOPDecoder} (b : CDRDecoder), P d → P { d with buffer := b }
  remote : ∀ {d₀ d : GIOPDecoder} {c : Connection} (a : HostAndPort), P d₀ →
    d₀.connection = some c → P d → P { d with connection := some { c with remote := a } }

namespace Kept

variable {P : GIOPDecoder → Prop}

omit [Platform] in
theorem read {α : Type} (hP : Kept P) (m : DecodeM α) : Preserves P (GIOPDecoder.read m) := by
  intro d hd
  rw [GIOPDecoder.read]
  split <;> exact hP.buffer _ hd

omit [Platform] in
theorem equals (hP : Kept P) (v : View) (s : Octets) : Preserves P (GIOPDecoder.equals v s) := by
  rw [GIOPDecoder.equals]
  split
  · exact Preserves.pure _
  · exact (hP.read _).bind fun _ => Preserves.pure _

theorem readListenPoint (hP : Kept P) : Preserves P GIOPDecoder.readListenPoint := by
  refine (hP.read _).bind fun host => (hP.read _).bind fun port => ?_
  refine Preserves.get_bind fun d hd => ?_
  cases hconnection : d.connection with
  | none => exact Preserves.throw _
  | some connection =>
      refine (hP.equals _ _).bind fun same => ?_
      dsimp only
      split
      · split
        · exact Preserves.throw_bind _ _
        · exact (hP.read _).bind fun host =>
            Preserves.modify fun _ hd' => hP.remote _ hd hconnection hd'
      · exact Preserves.pure _

theorem readEncapsulation {α : Type} (hP : Kept P) {closure : UInt32 → ScanM α}
    (h : ∀ type, Preserves P (closure type)) :
    Preserves P (GIOPDecoder.readEncapsulation closure) := by
  refine (hP.read _).bind fun type => (hP.read _).bind fun size => ?_
  refine Preserves.get_bind fun d _ => (hP.read _).bind fun flags => ?_
  refine (hP.read _).bind fun _ => (h type).bind fun a => ?_
  exact (hP.read _).bind fun _ => (hP.read _).bind fun _ => Preserves.pure a

theorem readServiceContext (hP : Kept P) : Preserves P GIOPDecoder.readServiceContext := by
  refine (hP.read _).bind fun length => Preserves.times ?_ _
  refine hP.readEncapsulation fun type => ?_
  rw [readServiceContextBody]
  split
  · exact Preserves.pure _
  · exact (hP.read _).bind fun count => Preserves.times hP.readListenPoint _
  · exact Preserves.pure _
  · exact Preserves.pure _

end Kept

/-- The version the header has announced. -/
def Speaks (major minor : ℕ) (d : GIOPDecoder) : Prop :=
  d.majorVersion = major ∧ d.minorVersion = minor

section Version

variable {major minor : ℕ}

omit [Platform] in
theorem kept_speaks : Kept (Speaks major minor) := ⟨fun _ hd => hd, fun _ _ _ hd => hd⟩

omit [Platform] in
theorem speaks_read {α : Type} (m : DecodeM α) : Preserves (Speaks major minor) (read m) :=
  kept_speaks.read m

theorem speaks_readServiceContext : Preserves (Speaks major minor) readServiceContext :=
  kept_speaks.readServiceContext

theorem speaks_readTarget : Preserves (Speaks major minor) readTarget := by
  refine (speaks_read _).bind fun disposition => ?_
  split
  · exact speaks_read _
  · exact Preserves.throw _
  · exact Preserves.throw _
  · exact Preserves.throw _

/-- Scanning the header of a request does not change the version. -/
theorem speaks_scanRequestHeader : Preserves (Speaks major minor) scanRequestHeader := by
  refine Preserves.get_bind fun d _ => ?_
  cases hl : d.isLegacy with
  | true =>
      refine speaks_readServiceContext.bind fun _ => (speaks_read _).bind fun requestId => ?_
      refine (speaks_read _).bind fun flags => (speaks_read _).bind fun _ => ?_
      refine (speaks_read _).bind fun key => (speaks_read _).bind fun op => ?_
      exact (speaks_read _).bind fun _ => Preserves.pure _
  | false =>
      refine (speaks_read _).bind fun requestId => (speaks_read _).bind fun flags => ?_
      refine (speaks_read _).bind fun _ => speaks_readTarget.bind fun key => ?_
      refine (speaks_read _).bind fun op => speaks_readServiceContext.bind fun _ => ?_
      exact (speaks_read _).bind fun _ => Preserves.pure _

end Version

/-! ### What reading a view does -/

omit [Platform] in
/-- The octets of a view that lies in the message can be read. -/
theorem octets_within {v : View} {d : GIOPDecoder} (hv : v.Within d.buffer.data) :
    octets v d = .ok (v.of d.buffer.data) d :=
  read_ok (if_pos hv)

omit [Platform] in
/-- No message is large enough for the others. -/
theorem octets_endless {v : View} {d : GIOPDecoder} (hv : v.Endless)
    (hD : d.buffer.data.length < 2 ^ 63) :
    octets v d = .error (.undefined (.overread v.start v.size)) d := by
  refine read_error (if_neg ?_)
  rw [hv]
  omega

end GIOPDecoder

end Corba
