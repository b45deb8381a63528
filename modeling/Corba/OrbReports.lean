/-
Which reports cross.

A report stands behind what the servant has written before it threw, and the caller reads from the
beginning.  It is read, then, if nothing has been written before.  If something has, the caller reads
that, and it can only be taken for the report if the servant has written the same report itself: the
two do not overlap, but for the last octet of a text.

Main definitions:

* `Corba.ORB.written` — what stands in front of a report;
* `Corba.ORB.Report.AlreadyWritten`, `Corba.ORB.Report.AlmostWritten` — what has been written is the
  report itself.

Main results:

* `Corba.ORB.Report.overlap` — where a report can begin inside of another one;
* `Corba.ORB.Report.stands_iff` — when the caller finds a report behind something else;
* `Corba.ORB.report_crosses_iff` — when the caller reads what was reported.
-/

import Corba.OrbException

set_option relaxedAutoImplicit false
set_option autoImplicit false

namespace Corba

open Layout ByteOrder Placed Exec

namespace ORB

/-! ### What all reports have in common -/

/-- An id is longer than a few octets, none of which is zero, and ends with a `0`. -/
def IdLike (id : Octets) : Prop := 6 ≤ id.length ∧ (0 : UInt8) ∉ id ∧ id.getLast? = some 48

instance (id : Octets) : Decidable (IdLike id) := inferInstanceAs (Decidable (_ ∧ _))

theorem idLike_repId (c : SystemExceptionClass) : IdLike c.repId := by
  cases c <;> decide +kernel

theorem idLike_genericId : IdLike genericId := by decide +kernel

theorem genericId_length_eq : genericId.length = 32 := by decide +kernel

namespace Report

/-- What is known of a report, whatever has been thrown. -/
structure Regular (rep : Report) : Prop where
  id : IdLike rep.exceptionId
  short : rep.exceptionId.length < 64
  completed : rep.completed.toNat ≤ 3
  /-- The id of a report with a text has 32 octets, and is not the text. -/
  text : ∀ what, rep.what = some what →
    rep.exceptionId.length = 32 ∧ (0 : UInt8) ∉ what ∧ what ≠ rep.exceptionId

end Report

theorem regular_systemException (ex : SystemException) : (systemExceptionReport ex).Regular where
  id := idLike_repId ex.cls
  short := repId_length ex.cls
  completed := by
    show ex.completed.toUlong.toNat ≤ 3
    cases ex.completed <;> decide
  text := by rintro what ⟨⟩

theorem regular_generic (typeName what : CString) : (genericReport typeName what).Regular where
  id := idLike_genericId
  short := genericId_length
  completed := Nat.zero_le _
  text := by
    rintro _ ⟨⟩
    refine ⟨genericId_length_eq, ?_, ?_⟩
    · have hfirst : (0 : UInt8) ∉ ascii "IDL:" := by decide
      have hversion : (0 : UInt8) ∉ ascii ":1.0: " := by decide
      simp only [genericText, List.mem_append, not_or]
      exact ⟨⟨⟨hfirst, typeName.2⟩, hversion⟩, what.2⟩
    · -- the text has a blank in it
      intro heq
      have hblank : (32 : UInt8) ∉ genericId := by decide
      have hversion : (32 : UInt8) ∈ ascii ":1.0: " := by decide
      have htext : (32 : UInt8) ∈ genericText typeName what := by
        simp only [genericText, List.mem_append]
        exact Or.inl (Or.inr hversion)
      rw [heq] at htext
      exact hblank htext

theorem regular_of_reportOf {t : Thrown} {rep : Report} (h : reportOf t = some rep) :
    rep.Regular := by
  cases t with
  | systemException ex =>
      cases h
      exact regular_systemException ex
  | userException => cases h
  | other => cases h
  | _ =>
      cases h
      exact regular_generic _ _

/-! ### Reports that overlap -/

namespace Report

variable [Platform] {rep : Report} {D : Octets} {o : ℕ}

/-- The length of the id and the id. -/
def front (rep : Report) : Octets :=
  native.bytes 4 (rep.exceptionId.length + 1) ++ rep.exceptionId

/-- The length of the text and the text. -/
def text (rep : Report) : Octets :=
  match rep.what with
  | none => []
  | some what => native.bytes 4 (what.length + 1) ++ what

/-- What stands behind the id. -/
def back (rep : Report) : Octets :=
  native.bytes 4 rep.minor.toNat ++ (native.bytes 4 rep.completed.toNat ++ rep.text)

/-- Where it stands in a report that begins at the beginning of the body. -/
def backOffset (rep : Report) : ℕ := roundUp 4 (rep.exceptionId.length + 29)

omit [Platform] in
/-- The octets of a number. -/
theorem laid_ulong_at {e : Endian} {v : UInt32} :
    Laid D o (Cdr.ulong e v) ↔ At D (roundUp 4 o) (e.bytes 4 v.toNat) := by
  rw [Cdr.ulong, laid_align, laid_raw]
  exact and_iff_left trivial

omit [Platform] in
/-- The octets of a string. -/
theorem laid_stringOpen_at {e : Endian} {s : Octets} (hs : s.length + 1 < 2 ^ 32) :
    Laid D o (Cdr.stringOpen e s) ↔ At D (roundUp 4 o) (e.bytes 4 (s.length + 1) ++ s) := by
  have hlength : (UInt32.ofNat (s.length + 1)).toNat = s.length + 1 := UInt32.toNat_ofNat_of_lt' hs
  rw [Cdr.stringOpen, laid_append, laid_ulong_at, hlength, Cdr.extent_ulong, laid_raw, laid_skip,
    at_append, Endian.length_bytes]
  exact and_congr_right fun _ => and_iff_left trivial

omit [Platform] in
theorem backOffset_mod (rep : Report) : rep.backOffset % 4 = 0 := roundUp_mod (by decide) _

theorem at_back_iff : At D o rep.back ↔ At D o (native.bytes 4 rep.minor.toNat) ∧
    At D (o + 4) (native.bytes 4 rep.completed.toNat) ∧ At D (o + 8) rep.text := by
  rw [back, at_append, at_append, Endian.length_bytes, Endian.length_bytes, Nat.add_assoc]

/-- All that counts of a report. -/
theorem laid_bodyOpen_iff (hrep : rep.Regular) (hfits : rep.Fits) :
    Laid D 24 rep.bodyOpen ↔ At D 24 rep.front ∧ At D rep.backOffset rep.back := by
  have hshort := hrep.short
  have hmod := rep.backOffset_mod
  have hback : roundUp 4 (extent 24 (Cdr.stringOpen native rep.exceptionId)) = rep.backOffset := by
    rw [Cdr.extent_stringOpen, backOffset, show roundUp 4 24 = 24 from rfl]
    congr 1
    omega
  have hnext : ∀ k, k % 4 = 0 → roundUp 4 (rep.backOffset + k) = rep.backOffset + k :=
    fun k hk => roundUp_eq_self (by omega)
  rw [bodyOpen, laid_append, laid_stringOpen_at (by omega), laid_append, laid_ulong_at, laid_append,
    laid_ulong_at, Cdr.extent_ulong, Cdr.extent_ulong, hback, hnext 4 rfl, at_back_iff]
  refine and_congr_right fun _ => and_congr_right fun _ => and_congr_right fun _ => ?_
  rw [text]
  cases hwhat : rep.what with
  | none => exact iff_of_true trivial (at_nil _ _)
  | some what =>
      dsimp only
      rw [laid_stringOpen_at (hfits what hwhat), Nat.add_assoc, hnext 8 rfl]

/-! ### Where one report begins inside of another -/

omit [Platform] in
/-- The octets of a small number, in both byte orders. -/
theorem bytes_small (e : Endian) {n : ℕ} (h : n < 256) :
    (e.bytes 4 n)[0]? = some (match e with | .little => UInt8.ofNat n | .big => 0) ∧
      (e.bytes 4 n)[1]? = some 0 := by
  have h1 : n / 256 = 0 := Nat.div_eq_of_lt h
  cases e with
  | little => simp [Endian.bytes, leBytes, h1]
  | big => simp [Endian.bytes, leBytes, h1]

theorem length_front (rep : Report) : rep.front.length = rep.exceptionId.length + 4 := by
  rw [front, List.length_append, Endian.length_bytes, Nat.add_comm]

/-- The first octets of a report are those of a small number. -/
theorem front_getElem? (hrep : rep.Regular) :
    rep.front[0]? = some (match native with
      | .little => UInt8.ofNat (rep.exceptionId.length + 1)
      | .big => 0) ∧ rep.front[1]? = some 0 := by
  have hshort := hrep.short
  obtain ⟨h0, h1⟩ := bytes_small native (n := rep.exceptionId.length + 1) (by omega)
  rw [front, List.getElem?_append_left (by rw [Endian.length_bytes]; decide),
    List.getElem?_append_left (by rw [Endian.length_bytes]; decide)]
  exact ⟨h0, h1⟩

/-- Behind its length stands the id. -/
theorem front_add (rep : Report) (i : ℕ) : rep.front[4 + i]? = rep.exceptionId[i]? := by
  rw [front, List.getElem?_append_right (by rw [Endian.length_bytes]; omega), Endian.length_bytes,
    Nat.add_sub_cancel_left]

omit [Platform] in
theorem ne_zero_of_getElem? {s : Octets} (h : (0 : UInt8) ∉ s) (i : ℕ) : s[i]? ≠ some 0 :=
  fun hi => h (List.mem_of_getElem? hi)

/-- A report that begins among octets none of which is zero, begins at the last of them: the second
octet of a report is zero. -/
theorem begins_last {n a : ℕ} {s : Octets} (hrep : rep.Regular) (hthere : At D n rep.front)
    (hs : At D a s) (hnul : (0 : UInt8) ∉ s) (ha : a ≤ n) (hn : n < a + s.length) :
    n + 1 = a + s.length ∧ native = .little ∧
      s.getLast? = some (UInt8.ofNat (rep.exceptionId.length + 1)) := by
  obtain ⟨h0, h1⟩ := front_getElem? hrep
  have hlength := rep.length_front
  have hlast : n + 1 = a + s.length := by
    by_contra hne
    have hover := hthere.overlap hs (i := 1) (j := n + 1 - a) (by omega) (by omega) (by omega)
    rw [h1] at hover
    exact ne_zero_of_getElem? hnul _ hover.symm
  have hover := hthere.overlap hs (i := 0) (j := s.length - 1) (by omega) (by omega) (by omega)
  rw [h0] at hover
  cases hnative : native with
  | little =>
      rw [hnative] at hover
      refine ⟨hlast, rfl, ?_⟩
      rw [List.getLast?_eq_getElem?]
      exact hover.symm
  | big =>
      rw [hnative] at hover
      exact absurd hover.symm (ne_zero_of_getElem? hnul _)

/-- The completion status is a small number. -/
theorem back_getElem? (hrep : rep.Regular) : rep.back[5]? = some 0 := by
  have hcompleted := hrep.completed
  have hsmall := (bytes_small native (n := rep.completed.toNat) (by omega)).2
  rw [back, List.getElem?_append_right (by rw [Endian.length_bytes]; decide), Endian.length_bytes,
    List.getElem?_append_left (by rw [Endian.length_bytes]; decide)]
  exact hsmall

theorem length_back (rep : Report) : rep.back.length = 8 + rep.text.length := by
  rw [back, List.length_append, List.length_append, Endian.length_bytes, Endian.length_bytes]
  omega

/-- Where the completion status is looked for, there is none of the octets of an id. -/
theorem completed_not_in_id {n i : ℕ} (hrep : rep.Regular) (hthere : At D n rep.front)
    (hback : At D rep.backOffset rep.back) (hi : i < 6)
    (hpos : rep.backOffset + 5 = n + (4 + i)) : False := by
  have hlong := hrep.id.1
  have hfront := rep.length_front
  have hlength := rep.length_back
  have hover := hback.overlap hthere hpos (by omega) (by omega)
  rw [back_getElem? hrep, front_add] at hover
  exact ne_zero_of_getElem? hrep.id.2.1 _ hover.symm

omit [Platform] in
/-- Where two numbers stand, there is one. -/
theorem number_unique {e : Endian} {n a b : ℕ} (ha : a < 2 ^ 32) (hb : b < 2 ^ 32)
    (h : At D n (e.bytes 4 a)) (h' : At D n (e.bytes 4 b)) : a = b := by
  have hsame := h.unique h' (by rw [Endian.length_bytes, Endian.length_bytes])
  have hvalue := congrArg e.value hsame
  rwa [Endian.value_bytes _ (show a < 256 ^ 4 by omega),
    Endian.value_bytes _ (show b < 256 ^ 4 by omega)] at hvalue

/-- It does not begin in the id: that ends with a `0`, which would be the length of the id. -/
theorem not_in_id {n : ℕ} (hrep : rep.Regular) (hn : n % 4 = 0) (hlow : 28 ≤ n)
    (hthere : At D n rep.front) (hfront : At D 24 rep.front) :
    28 + rep.exceptionId.length ≤ n := by
  obtain ⟨-, hnul, hlast⟩ := hrep.id
  have hid : At D 28 rep.exceptionId := by
    have hat := (at_append.1 hfront).2
    rwa [Endian.length_bytes] at hat
  by_contra hinId
  obtain ⟨hend, -, hlast'⟩ := begins_last hrep hthere hid hnul hlow (by omega)
  rw [hlast] at hlast'
  have hshort := hrep.short
  have hzero := congrArg UInt8.toNat (Option.some.inj hlast')
  rw [UInt8.toNat_ofNat_of_lt' (show _ < 256 by omega)] at hzero
  have : (48 : UInt8).toNat = 48 := rfl
  omega

/-- It does not begin in front of the completion status or there: that is a small number. -/
theorem not_in_status {n : ℕ} (hrep : rep.Regular) (hn : n % 4 = 0) (hlow : 28 ≤ n)
    (hthere : At D n rep.front) (hfront : At D 24 rep.front)
    (hback : At D rep.backOffset rep.back) : rep.backOffset + 8 ≤ n := by
  have hbehind := not_in_id hrep hn hlow hthere hfront
  have hmod := rep.backOffset_mod
  have hlt := roundUp_lt (a := 4) (by decide) (rep.exceptionId.length + 29)
  rw [← backOffset] at hlt
  have hgap : rep.backOffset ≤ n := by
    by_contra hgap
    exact completed_not_in_id (i := 5) hrep hthere hback (by decide) (by omega)
  have hminor : rep.backOffset + 4 ≤ n := by
    by_contra hminor
    exact completed_not_in_id (i := 1) hrep hthere hback (by decide) (by omega)
  by_contra hstatus
  obtain rfl : n = rep.backOffset + 4 := by omega
  have hlong := hrep.id.1
  have hshort := hrep.short
  have hcompleted := hrep.completed
  have hsame := number_unique (by omega) (by omega) (at_back_iff.1 hback).2.1
    (at_append.1 hthere).1
  omega

/-- **A report that begins inside of the same report begins at its last octet, which is the last
one of a text.** -/
theorem overlap {n : ℕ} (hrep : rep.Regular) (hfits : rep.Fits) (hn : n % 4 = 0) (hlow : 28 ≤ n)
    (hthere : At D n rep.front) (hfront : At D 24 rep.front)
    (hback : At D rep.backOffset rep.back) :
    rep.backOffset + rep.back.length ≤ n ∨
      (rep.backOffset + rep.back.length = n + 1 ∧ native = .little ∧ rep.what.isSome) := by
  have hbehind := not_in_status hrep hn hlow hthere hfront hback
  have hmod := rep.backOffset_mod
  have hlength := rep.length_back
  have htext := (at_back_iff.1 hback).2.2
  cases hwhat : rep.what with
  | none =>
      left
      rw [hlength, text, hwhat]
      exact hbehind
  | some what =>
      obtain ⟨-, hnul, hne⟩ := hrep.text what hwhat
      have htextLength : rep.text.length = 4 + what.length := by
        rw [text, hwhat, List.length_append, Endian.length_bytes]
      rw [text, hwhat] at htext
      obtain ⟨hcount, hwhatAt⟩ := at_append.1 htext
      rw [Endian.length_bytes] at hwhatAt
      have hinside : rep.backOffset + 8 + 4 ≤ n := by
        by_contra hnumber
        obtain rfl : n = rep.backOffset + 8 := by omega
        -- the text would be the id
        have hfit := hfits what hwhat
        have hshort := hrep.short
        obtain ⟨hlengthAt, hidAt⟩ := at_append.1 hthere
        rw [Endian.length_bytes] at hidAt
        have hsame := number_unique (by omega) (by omega) hcount hlengthAt
        exact hne (hwhatAt.unique hidAt (by omega))
      rcases Nat.lt_or_ge n (rep.backOffset + 8 + 4 + what.length) with hinText | hbehind
      · right
        obtain ⟨hend, hlittle, -⟩ := begins_last hrep hthere hwhatAt hnul hinside hinText
        exact ⟨by omega, hlittle, rfl⟩
      · left
        omega

end Report

/-! ### What has been written -/

/-- What stands in front of a report: what has been written, and zeros up to its alignment. -/
def written (e : GIOPEncoder) : Octets := e.buffer.align4.reserve.data

namespace Report

variable [Platform] {rep : Report} {e : GIOPEncoder}

/-- What has been written begins with this very report. -/
def AlreadyWritten (rep : Report) (e : GIOPEncoder) : Prop := Laid (written e) 24 rep.bodyOpen

/-- What has been written is this very report but for the last octet of its text, which is a `!`: on
a host with the small end first the length of the id begins with that octet. -/
def AlmostWritten (rep : Report) (e : GIOPEncoder) : Prop :=
  native = .little ∧ rep.what.isSome ∧ Laid (written e ++ ascii "!") 24 rep.bodyOpen

omit [Platform] in
theorem length_written (h : e.buffer.Clean) : (written e).length = roundUp 4 e.buffer.offset := by
  have hle := h.length_le
  have hround := le_roundUp 4 e.buffer.offset
  rw [written, CDREncoder.align4_eq, CDREncoder.reserve, length_padTo]
  exact max_eq_right (hle.trans hround)

/-- The report is put behind what has been written. -/
theorem put_body (rep : Report) (e : GIOPEncoder) :
    (e.buffer.put rep.body).data = (e.buffer.align4.reserve.put rep.body).data := by
  have hround : roundUp 4 (roundUp 4 e.buffer.offset) = roundUp 4 e.buffer.offset :=
    roundUp_eq_self (roundUp_mod (by decide) _)
  have hstore : ∀ bs : Octets, store 0 (padTo 0 (roundUp 4 e.buffer.offset) e.buffer.data)
      (roundUp 4 e.buffer.offset) bs = store 0 e.buffer.data (roundUp 4 e.buffer.offset) bs :=
    fun bs => store_padTo 0 e.buffer.data bs le_rfl
  rw [CDREncoder.align4_eq]
  simp only [CDREncoder.put, CDREncoder.reserve, body, systemExceptionBody, Cdr.string, Cdr.ulong,
    List.append_assoc, List.cons_append, write, hround, hstore]

theorem written_isPrefix (h : e.buffer.Clean) (rep : Report) :
    written e <+: (e.buffer.put rep.body).data := by
  refine Keep.isPrefix ?_
  have hoffset : e.buffer.align4.reserve.offset = roundUp 4 e.buffer.offset := maskUp_three _
  rw [put_body, length_written h, ← hoffset]
  exact e.buffer.align4.reserve.keep_put rep.body 0

theorem at_front (hrep : rep.Regular) :
    At (e.buffer.put rep.body).data (roundUp 4 e.buffer.offset) rep.front := by
  have hshort := hrep.short
  have hlaid := laid_bodyOpen (e.buffer.laid_put rep.body)
  exact (laid_stringOpen_at (by omega)).1 (laid_append.1 hlaid).1

/-- **A report behind something else is found where the caller looks for it exactly if that is the
report itself.** -/
theorem stands_iff (h : e.buffer.Clean) (hoff : 24 < e.buffer.offset) (hrep : rep.Regular)
    (hfits : rep.Fits) :
    Laid (e.buffer.put rep.body).data 24 rep.bodyOpen ↔
      rep.AlreadyWritten e ∨ rep.AlmostWritten e := by
  have hpre := written_isPrefix h rep
  have hthere := at_front (e := e) hrep
  have hlength := length_written h
  have hround := le_roundUp 4 e.buffer.offset
  have hmod := roundUp_mod (a := 4) (by decide) e.buffer.offset
  -- the first octet of the report is the one that is missing
  have hone : native = .little → rep.what.isSome →
      written e ++ ascii "!" <+: (e.buffer.put rep.body).data := by
    intro hlittle hwhat
    obtain ⟨what, hwhat⟩ := Option.isSome_iff_exists.1 hwhat
    have hfirst := hthere 0 (by rw [length_front]; omega)
    rw [(front_getElem? hrep).1, hlittle, (hrep.text what hwhat).1, Nat.add_zero, ← hlength] at hfirst
    obtain ⟨t, ht⟩ := hpre
    rw [← ht] at hfirst ⊢
    rw [List.getElem?_append_right le_rfl, Nat.sub_self] at hfirst
    cases t with
    | nil => cases hfirst
    | cons x t =>
        cases hfirst
        exact ⟨t, by rw [List.append_assoc]; rfl⟩
  have hfrontLength := rep.length_front
  have hbackOffset := le_roundUp 4 (rep.exceptionId.length + 29)
  rw [← backOffset] at hbackOffset
  constructor
  · intro hl
    obtain ⟨hfront, hback⟩ := (laid_bodyOpen_iff hrep hfits).1 hl
    rcases overlap hrep hfits hmod (by omega) hthere hfront hback with
      hstop | ⟨hstop, hlittle, hwhat⟩
    · refine Or.inl ((laid_bodyOpen_iff hrep hfits).2 ⟨?_, ?_⟩)
      · exact hfront.of_isPrefix hpre (by omega)
      · exact hback.of_isPrefix hpre (by omega)
    · have hlength' : (written e ++ ascii "!").length = roundUp 4 e.buffer.offset + 1 := by
        rw [List.length_append, hlength]
        rfl
      have hpre' := hone hlittle hwhat
      refine Or.inr ⟨hlittle, hwhat, (laid_bodyOpen_iff hrep hfits).2 ⟨?_, ?_⟩⟩
      · exact hfront.of_isPrefix hpre' (by omega)
      · exact hback.of_isPrefix hpre' (by omega)
  · rintro (hl | ⟨hlittle, hwhat, hl⟩)
    · exact hl.mono hpre
    · exact hl.mono (hone hlittle hwhat)

end Report

/-! ### Which reports cross -/

section Crossing

variable [Platform]

variable {servants : Servants} {connection : Connection} {message : Octets}
  {d₁ d₂ : GIOPDecoder} {request : RequestHeader} {call : Dispatch}

/-- **The caller reads what was reported exactly when it was thrown in the coroutine, before that
is suspended, the length of its text can be expressed, and nothing has been written before, or
what has been written before is the very same report.** -/
theorem report_crosses_iff (h : Dispatched servants connection message d₁ request d₂ call)
    {e : GIOPEncoder} {t : Thrown} {rep : Report}
    (hrun : call.writing.run (replyRoom d₂) = .error (.thrown t) e) (hrep : reportOf t = some rep)
    (hsize : extent e.buffer.offset rep.body < 2 ^ 63) (servants' : Servants)
    (caller : Connection) :
    Reports servants connection message servants' caller request.requestId rep ↔
      call.phase = .coroutine ∧ rep.Fits ∧
        (e.buffer.offset = 24 ∨ rep.AlreadyWritten e ∨ rep.AlmostWritten e) := by
  by_cases hphase : call.phase = .coroutine
  · have hcontinues : (replyRoom d₂).Continues e := by
      have := call.writing.preserves_continues _ (replyRoom_continues d₂)
      rwa [hrun] at this
    have hroom : 24 ≤ e.buffer.offset := hcontinues.le_offset
    have hmono : extent 24 rep.bodyOpen ≤ extent e.buffer.offset rep.body := by
      rw [rep.extent_bodyOpen]
      exact extent_mono _ hroom
    obtain ⟨reply, d, hcrosses, hbuffer, hstatus, hlength, hkeep, hkeep'⟩ :=
      report_arrives h hrun hrep hsize hphase servants' caller
    have hon : d.on reply 24 native = d := by rw [GIOPDecoder.on, ← hbuffer]
    have hreads : (∃ d', readReport d = .ok rep d') ↔
        Laid reply 24 rep.bodyOpen ∧ extent 24 rep.bodyOpen ≤ reply.length ∧ rep.Fits := by
      have hle := le_extent e.buffer.offset rep.body
      have hiff : (∃ d', readReport (d.on reply 24 native) = .ok rep d') ↔ _ :=
        readReport_iff (by omega) (by omega) (exceptionId_length hrep)
      rwa [hon] at hiff
    have hput : Laid reply 24 rep.bodyOpen ↔
        Laid (e.buffer.put rep.body).data 24 rep.bodyOpen :=
      ⟨fun hl => hl.keep hkeep' le_rfl (hmono.trans hlength.ge),
        fun hl => hl.keep hkeep le_rfl (hmono.trans hlength.ge)⟩
    have hlaid (hfits : rep.Fits) : Laid reply 24 rep.bodyOpen ↔
        (e.buffer.offset = 24 ∨ rep.AlreadyWritten e ∨ rep.AlmostWritten e) := by
      rw [hput]
      rcases hroom.eq_or_lt with hnothing | hsome
      · -- nothing has been written, and the report stands where it is looked for
        have hl := Report.laid_bodyOpen (e.buffer.laid_put rep.body)
        rw [← hnothing] at hl
        exact iff_of_true hl (Or.inl hnothing.symm)
      · rw [or_iff_right hsome.ne']
        exact Report.stands_iff hcontinues.clean hsome (regular_of_reportOf hrep) hfits
    constructor
    · rintro ⟨d', d'', hcrosses', -, hread⟩
      rw [hcrosses'.unique hcrosses] at hread
      obtain ⟨hl, -, hfits⟩ := hreads.1 ⟨d'', hread⟩
      exact ⟨hphase, hfits, (hlaid hfits).1 hl⟩
    · rintro ⟨-, hfits, hl⟩
      obtain ⟨d', hread⟩ := hreads.2 ⟨(hlaid hfits).2 hl, hmono.trans hlength.ge, hfits⟩
      exact ⟨d, d', hcrosses, hstatus, hread⟩
  · refine iff_of_false ?_ fun hcond => hphase hcond.1
    rintro ⟨d, d', ⟨reply, hsend, -⟩, -⟩
    rw [h.run, thenOrCatch_silent hrun hphase] at hsend
    cases hsend

omit [Platform]

/-- A servant that throws before it has written anything. -/
theorem report_crosses_unknown :
    letI : Platform := ⟨.little⟩
    Reports (fun _ => some (refuser [] ⟨.unknown, 3, .maybe⟩)) addConnection (addRequest 3)
      (fun _ => none) addConnection 7 (systemExceptionReport ⟨.unknown, 3, .maybe⟩) :=
  (@report_crosses_iff ⟨.little⟩ _ _ _ _ _ _ _ (dispatched_refuser [] ⟨.unknown, 3, .maybe⟩) _ _ _
    rfl rfl (by decide +kernel) _ _).mpr ⟨rfl, by rintro _ ⟨⟩, Or.inl rfl⟩

/-- What is sent about `UNKNOWN` behind a number that has been written before. -/
def unknownReply : Octets :=
  ascii "GIOP" ++ [1, 2, 1, 1, 60, 0, 0, 0, 7, 0, 0, 0, 2, 0, 0, 0, 0, 0, 0, 0, 5, 0, 0, 0,
    30, 0, 0, 0] ++ ascii "IDL:omg.org/CORBA/UNKNOWN:1.0" ++ [0, 0, 0, 3, 0, 0, 0, 2, 0, 0, 0]

/-- A servant that has written a number before it throws. -/
theorem report_behind_number_not_read :
    letI : Platform := ⟨.little⟩
    ¬ ∀ (servants : Servants) (connection : Connection) (message : Octets) (d₁ d₂ : GIOPDecoder)
      (request : RequestHeader) (call : Dispatch) (e : GIOPEncoder) (t : Thrown) (rep : Report)
      (servants' : Servants) (caller : Connection),
      Dispatched servants connection message d₁ request d₂ call → call.phase = .coroutine →
      call.writing.run (replyRoom d₂) = .error (.thrown t) e → reportOf t = some rep →
      extent e.buffer.offset rep.body < 2 ^ 63 →
      Reports servants connection message servants' caller request.requestId rep := by
  intro h
  obtain ⟨d, d', ⟨reply, hsend, hresume⟩, -, hread⟩ := h _ _ _ _ _ _ _ _ _ _
    (fun _ => none) addConnection (dispatched_refuser [.ulong 5] ⟨.unknown, 3, .maybe⟩) rfl rfl rfl
    (by decide +kernel)
  have hsent : (State (@socketRcvd ⟨.little⟩
      (fun _ => some (refuser [.ulong 5] ⟨.unknown, 3, .maybe⟩)) addConnection
      (addRequest 3))).events = [.send unknownReply] := by decide +kernel
  rw [hsent] at hsend
  cases hsend
  have hresumed : (State (@socketRcvd ⟨.little⟩ (fun _ => none) addConnection
      unknownReply)).events = [.resume 7 (callerDecoder unknownReply 24)] := by decide +kernel
  rw [hresumed] at hresume
  cases hresume
  have hother : (match @readReport ⟨.little⟩ (callerDecoder unknownReply 24) with
      | .ok rep _ => rep.exceptionId
      | .error _ _ => []) ≠ SystemExceptionClass.unknown.repId := by decide +kernel
  rw [hread] at hother
  exact hother rfl

end Crossing

end ORB

end Corba
