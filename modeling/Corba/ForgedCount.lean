/-
A forged count.

A message says how many service contexts, listen points or profiles follow, with any 32 bit number, and
each encapsulation says where the next one begins.  The decoder loops as often as it is told to.  What
keeps it from spinning is that a round that does not throw has read two numbers, each of which has been
checked to lie in the buffer, and ends behind them, whatever the sizes say: an offset a size has led
behind the end is found out by the next round.

Main definitions:

* `Corba.GIOPDecoder.Advances` — a round that does not throw gets on;
* `Corba.GIOPDecoder.EndsSoon` — a loop that ends or throws after few rounds.

Main results:

* `Corba.GIOPDecoder.advances_readEncapsulation` — an encapsulation takes eight octets at least, whatever
  is done with its contents;
* `Corba.GIOPDecoder.advances_readListenPoint` — an end takes six octets at least;
* `Corba.forged_count_cannot_spin` — the loops end soon, whatever the count.
-/

import Corba.GiopBounds

set_option relaxedAutoImplicit false
set_option autoImplicit false

namespace Corba

open Layout ByteOrder Placed Exec

variable {D : Octets}

/-! ### How far a read gets -/

namespace CDRDecoder

section Readers

variable [Platform]

omit [Platform] in
/-- A pointer that has been checked lies in the buffer, from wherever it has been moved. -/
theorem inside_ptr (n : ℕ) (what : ℕ → ℕ → String) :
    Triple (fun d => d.data = D) (ptr n what) (fun _ => Inside D) := by
  rintro d pos d' rfl hrun
  rw [ptr] at hrun
  split at hrun
  · cases hrun
  · rename_i hle
    cases hrun
    exact ⟨rfl, Nat.le_of_not_lt hle⟩

/-- Where a number has been read, the decoder is in the buffer, wherever it was before. -/
theorem inside_readUlong : Triple (fun d => d.data = D) readUlong (fun _ => Inside D) := by
  have hptr4 : Triple (fun d : CDRDecoder => d.data = D) ptr4 (fun _ => Inside D) :=
    (Triple.modify (f := align4) (Q := fun _ d => d.data = D) fun d hd => hd).bind fun _ =>
      inside_ptr 4 _
  refine (hptr4.bind fun pos => (triple_fetch pos 4 (Inside D)).bind fun bs => ?_).bind fun n =>
    Triple.pure fun _ hd => hd
  exact Triple.get_bind fun d _ => Triple.pure fun _ hd => hd.1

end Readers

end CDRDecoder

/-! ### What a round gets on by -/

namespace GIOPDecoder

/-- A round that does not throw gets on by `k` octets, all of which are in the buffer. -/
def Advances {α : Type} (D : Octets) (k : ℕ) (body : α → ScanM α) : Prop :=
  Climbs (Over D) (fun d => d.buffer.m_offset) k D.length body

/-- The buffer stays the same. -/
def Keeps {α : Type} (D : Octets) (m : ScanM α) : Prop := Preserves (fun d => d.buffer.On D) m

theorem keeps_read {α : Type} {m : DecodeM α} (h : Preserves (CDRDecoder.On D) m) :
    Keeps D (read m) := by
  intro d hd
  have hstate := h d.buffer hd
  rw [read]
  cases hrun : m d.buffer with
  | ok a b => rw [hrun] at hstate; exact hstate
  | error f b => rw [hrun] at hstate; exact hstate

theorem preserves_readUshort [Platform] : Preserves (CDRDecoder.On D) CDRDecoder.readUshort :=
  (preserves_word preserves_ptr2 2).bind fun _ => Preserves.pure _

theorem on_of_over (hD : D.length < 2 ^ 63) {d : CDRDecoder} (hd : d.Over D) : d.On D := by
  obtain ⟨hdata, hover⟩ := hd
  exact ⟨hdata, by omega⟩

variable [Platform]

omit [Platform] in
theorem keeps_equals (v : View) (s : Octets) : Keeps D (equals v s) := by
  rw [equals]
  split
  · exact Preserves.pure _
  · exact (keeps_read (preserves_fetch _ _)).bind fun _ => Preserves.pure _

theorem reached_readUlong (hD : D.length < 2 ^ 63) {o : ℕ} {d d' : GIOPDecoder} {n : UInt32}
    (hd : d.buffer.Past D o) (hrun : readUlong d = .ok n d') : d'.buffer.Reached D (o + 4) :=
  triple_read (CDRDecoder.reached_readUlong hD o) d n d' hd hrun

/-- **An encapsulation takes eight octets at least**, whatever is done with its contents and whatever
it says its size is. -/
theorem advances_readEncapsulation {α : Type} {closure : α → UInt32 → ScanM α} (hD : D.length < 2 ^ 63)
    (h : ∀ a type, Keeps D (closure a type)) :
    Advances D 8 fun a => readEncapsulation (closure a) := by
  intro a d a' d' hd hrun
  obtain ⟨type, d₁, htype, hrun⟩ := bind_eq_ok.1 hrun
  obtain ⟨size, d₂, hsize, hrun⟩ := bind_eq_ok.1 hrun
  have hd₁ := reached_readUlong hD ⟨hd, le_rfl⟩ htype
  obtain ⟨hinside, hup⟩ := reached_readUlong hD hd₁.past hsize
  rw [get_bind] at hrun
  obtain ⟨flags, d₃, hflags, hrun⟩ := bind_eq_ok.1 hrun
  rw [read_modify_bind] at hrun
  obtain ⟨a₁, d₄, hclosure, hrun⟩ := bind_eq_ok.1 hrun
  rw [read_modify_bind, read_modify_bind, pure_run] at hrun
  cases hrun
  -- the closure may leave the offset anywhere, as it is set afterwards
  have hd₃ : d₃.buffer.On D := on_of_over hD (triple_readOctet hD d₂ flags d₃ hinside.over hflags).over
  have hflagged : CDRDecoder.On D (d₃.buffer.setLittleEndian (flags &&& 1 == 1)) := hd₃
  have hd₄ := h a type { d₃ with buffer := d₃.buffer.setLittleEndian (flags &&& 1 == 1) } hflagged
  rw [hclosure] at hd₄
  have hle : d₂.buffer.m_offset ≤ D.length := hinside.2
  have hsizelt := size.toNat_lt
  have hnext : sizeT (d₂.buffer.m_offset + size.toNat) = d₂.buffer.m_offset + size.toNat :=
    sizeT_of_lt (by omega)
  refine ⟨⟨hd₄.1, ?_⟩, ?_, ?_⟩
  · show sizeT (d₂.buffer.m_offset + size.toNat) ≤ _
    omega
  · show d.buffer.m_offset + 8 ≤ sizeT (d₂.buffer.m_offset + size.toNat)
    omega
  · show d.buffer.m_offset + 8 ≤ D.length
    omega

/-- **An end takes six octets at least.** -/
theorem advances_readListenPoint (hD : D.length < 2 ^ 63) :
    Advances D 6 fun _ : Unit => readListenPoint := by
  intro u d u' d' hd hrun
  obtain ⟨hinside, hup⟩ := reached_readListenPoint hD d.buffer.m_offset d u' d' ⟨hd, le_rfl⟩ hrun
  exact ⟨hinside.over, hup, hup.trans hinside.2⟩

/-! ### What is done with the contents -/

theorem keeps_readListenPoint : Keeps D readListenPoint := by
  refine (keeps_read (preserves_readUlong.bind fun len => preserves_readStringViewOf _)).bind
    fun host => ?_
  refine (keeps_read preserves_readUshort).bind fun port => Preserves.get_bind fun d _ => ?_
  cases d.connection with
  | none => exact Preserves.throw _
  | some connection =>
      refine Preserves.bind (keeps_equals host connection.remote.host) fun same => ?_
      dsimp only
      split
      · split
        · exact Preserves.throw_bind _ _
        · exact (keeps_read (preserves_fetch _ _)).bind fun host => Preserves.modify fun _ hd => hd
      · exact Preserves.pure _

theorem keeps_readServiceContextBody (type : UInt32) : Keeps D (readServiceContextBody type) := by
  rw [readServiceContextBody]
  split
  · exact Preserves.pure _
  · exact (keeps_read preserves_readUlong).bind fun count => Preserves.times keeps_readListenPoint _
  · exact Preserves.pure _
  · exact Preserves.pure _

theorem keeps_readProfile (profile : Option IiopProfile) (type : UInt32) :
    Keeps D (readProfile profile type) := by
  rw [readProfile]
  split
  · refine (keeps_read preserves_next).bind fun major => ?_
    refine (keeps_read preserves_next).bind fun minor => ?_
    refine (keeps_read (preserves_readUlong.bind fun len => preserves_readStringOf _)).bind
      fun host => ?_
    refine (keeps_read preserves_readUshort).bind fun port => ?_
    refine (keeps_read (preserves_readUlong.bind fun len => ?_)).bind fun key => Preserves.pure _
    exact (preserves_ptr _ _).bind fun pos => preserves_fetch _ _
  · exact Preserves.pure _

/-! ### The loops -/

/-- The loop, asked for `count` rounds, ends or throws after few of them, each of which begins behind
where the one before it has begun. -/
structure EndsSoon {α : Type} (D : Octets) (body : α → ScanM α) (count : ℕ) (a : α)
    (d : GIOPDecoder) : Prop where
  few : (rounds body count a d).length ≤ D.length / 4 + 1
  all : repeated body count a d = repeated body (rounds body count a d).length a d
  climbs : (rounds body count a d).IsChain fun d d' => d.buffer.m_offset < d'.buffer.m_offset

omit [Platform] in
/-- A loop whose rounds get on by four octets or more ends soon. -/
theorem Advances.endsSoon {α : Type} {body : α → ScanM α} {k : ℕ} (h : Advances D k body)
    (hk : 4 ≤ k) (count : ℕ) (a : α) {d : GIOPDecoder} (hd : d.Over D) :
    EndsSoon D body count a d where
  few := by
    have hlength := Climbs.length_rounds_le h (by omega) count a hd
    have hfour : (D.length - d.buffer.m_offset) / k ≤ D.length / 4 :=
      (Nat.div_le_div_right (Nat.sub_le _ _)).trans (Nat.div_le_div_left hk (by decide))
    omega
  all := repeated_rounds count a d
  climbs := Climbs.isChain_rounds h (by omega) count a hd

theorem readServiceContext_rounds {d d₁ : GIOPDecoder} {count : UInt32}
    (h : readUlong d = .ok count d₁) : readServiceContext d =
      repeated (fun _ => readEncapsulation readServiceContextBody) count.toNat () d₁ := by
  rw [readServiceContext, bind_ok h, times_eq_repeated]

theorem readServiceContextBody_rounds {type : UInt32} (htype : ServiceId.ofUlong type = .biDirIIOP)
    {d d₁ : GIOPDecoder} {count : UInt32} (h : readUlong d = .ok count d₁) :
    readServiceContextBody type d = repeated (fun _ => readListenPoint) count.toNat () d₁ := by
  rw [readServiceContextBody, htype]
  dsimp only
  rw [bind_ok h, times_eq_repeated]

theorem readProfiles_eq_repeated (n : ℕ) (profile : Option IiopProfile) :
    readProfiles n profile =
      repeated (fun profile => readEncapsulation (readProfile profile)) n profile := by
  induction n generalizing profile with
  | zero => rfl
  | succ n ih => simp only [readProfiles, repeated, ih]

omit [Platform] in
/-- What is made of the profile the loop has ended with. -/
def referenceOf (oid : Octets) : Option IiopProfile → ScanM IOR
  | none => throw (.undefined .uninitialized)
  | some p => return { oid, host := p.host, port := p.port, objectKey := p.objectKey }

theorem readReference_rounds {length : ℕ} {oid : Octets} {d₀ d d₁ : GIOPDecoder} {count : UInt32}
    (hoid : read (CDRDecoder.readStringOf length) d₀ = .ok oid d)
    (hcount : readUlong d = .ok count d₁) :
    readReference length d₀ =
      (repeated (fun profile => readEncapsulation (readProfile profile)) count.toNat none >>=
        referenceOf oid) d₁ := by
  rw [readReference, bind_ok hoid, bind_ok hcount, readProfiles_eq_repeated]
  rfl

end GIOPDecoder

open GIOPDecoder

variable [Platform]

/-- **A forged count cannot spin the decoder.**  Wherever the decoder stands and whatever count it
reads there, the loops over service contexts, listen points and profiles end or throw after `n / 4 + 1`
rounds at most, where `n` is the length of the buffer, and each round begins behind where the one before
it has begun. -/
theorem forged_count_cannot_spin {d d₁ : GIOPDecoder} {count : UInt32}
    (hlength : d.buffer.data.length < 2 ^ 63) (hcount : readUlong d = .ok count d₁) :
    (readServiceContext d =
        repeated (fun _ => readEncapsulation readServiceContextBody) count.toNat () d₁ ∧
      EndsSoon d.buffer.data (fun _ => readEncapsulation readServiceContextBody) count.toNat () d₁) ∧
    ((∀ type, ServiceId.ofUlong type = .biDirIIOP →
        readServiceContextBody type d = repeated (fun _ => readListenPoint) count.toNat () d₁) ∧
      EndsSoon d.buffer.data (fun _ => readListenPoint) count.toNat () d₁) ∧
    ((∀ length oid d₀, read (CDRDecoder.readStringOf length) d₀ = .ok oid d →
        readReference length d₀ =
          (repeated (fun profile => readEncapsulation (readProfile profile)) count.toNat none >>=
            referenceOf oid) d₁) ∧
      EndsSoon d.buffer.data (fun profile => readEncapsulation (readProfile profile)) count.toNat
        none d₁) := by
  have hd₁ : d₁.Over d.buffer.data :=
    (triple_read CDRDecoder.inside_readUlong d count d₁ rfl hcount).over
  have hcontexts : Advances d.buffer.data 8 fun _ : Unit => readEncapsulation readServiceContextBody :=
    advances_readEncapsulation hlength fun _ type => keeps_readServiceContextBody type
  have hprofiles := advances_readEncapsulation hlength (keeps_readProfile (D := d.buffer.data))
  refine ⟨⟨readServiceContext_rounds hcount, ?_⟩,
    ⟨fun type htype => readServiceContextBody_rounds htype hcount, ?_⟩,
    fun length oid d₀ hoid => readReference_rounds hoid hcount, ?_⟩
  · exact hcontexts.endsSoon (by decide) _ _ hd₁
  · exact (advances_readListenPoint hlength).endsSoon (by decide) _ _ hd₁
  · exact hprofiles.endsSoon (by decide) _ _ hd₁

omit [Platform] in
/-- As many service contexts as a number can say, in a buffer of twelve octets. -/
theorem forged_count_cannot_spin_twelve :
    letI : Platform := ⟨.little⟩
    ∃ d d₁ : GIOPDecoder, d.buffer = ⟨List.replicate 12 255, 0, some .little⟩ ∧
      readServiceContext d = repeated (fun _ => readEncapsulation readServiceContextBody)
        (0xffffffff : UInt32).toNat () d₁ ∧
      EndsSoon d.buffer.data (fun _ => readEncapsulation readServiceContextBody)
        (0xffffffff : UInt32).toNat () d₁ := by
  let : Platform := ⟨.little⟩
  let d : GIOPDecoder := { buffer := ⟨List.replicate 12 255, 0, some .little⟩, connection := none }
  have hcount : readUlong d = .ok 0xffffffff { d with buffer := { d.buffer with m_offset := 4 } } := by
    decide
  exact ⟨d, _, rfl, (forged_count_cannot_spin (by decide) hcount).1⟩

end Corba
