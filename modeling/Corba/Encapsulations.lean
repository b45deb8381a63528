/-
Encapsulations and what follows them.

An encapsulation says how many octets it has.  The decoder uses this number to find what comes behind
it, but not while it reads what is inside: there the lengths and counts it meets decide how far it
reads.  Where they lead out of the encapsulation, what is taken from it depends on what happens to
follow.

Main definitions:

* `Corba.GIOPDecoder.Closed` — what is taken does not depend on what follows;
* `Corba.Giop.ProfileInside`, `Corba.Giop.PointsInside` — the fields the decoder looks at are inside.

Main results:

* `Corba.GIOPDecoder.closed_encapsulation_iff` — two runs over an encapsulation agree exactly when one
  that ends with it does not need more;
* `Corba.GIOPDecoder.points_extend`, `Corba.GIOPDecoder.profile_extend` — what needs more is satisfied
  by something that follows;
* `Corba.encapsulations_closed_iff` — encapsulations are closed exactly when the fields are inside.
-/

import Corba.IorProfiles
import Corba.ServiceContexts

set_option relaxedAutoImplicit false
set_option autoImplicit false

namespace Corba

open Layout ByteOrder Placed Exec
open GIOPDecoder (IiopProfile)

/-! ### What is taken -/

/-- What a run has taken, unless it throws. -/
def taken {α : Type} : EStateM.Result Fault GIOPDecoder α → Option (α × Option Connection)
  | .ok a d => some (a, d.connection)
  | .error _ _ => none

/-- Whatever stands behind the octets of `E`, the same is taken from `o` on, or nothing is. -/
def GIOPDecoder.Closed {α : Type} (m : ScanM α) (d : GIOPDecoder) (E : Octets) (o : ℕ) (e : Endian) :
    Prop :=
  ∀ D D' : Octets, E <+: D → E <+: D' → D.length < 2 ^ 63 → D'.length < 2 ^ 63 →
    taken (m (d.on D o e)) = taken (m (d.on D' o e))

namespace Giop

/-- An encapsulation that begins at `o`, with which `E` ends. -/
structure Encapsulated (E : Octets) (e : Endian) (o : ℕ) (type size : UInt32) : Prop where
  numbers : Laid E o (Cdr.ulong e type ++ Cdr.ulong e size)
  length : E.length = roundUp 4 o + 8 + size.toNat
  small : E.length < 2 ^ 62

/-- The fields of an IIOP profile are inside.  Behind the length of a host that has not even the octet
that ends it, nothing is looked at. -/
def ProfileInside (E : Octets) (e : Endian) (o : ℕ) : Prop :=
  Laid E (o + 2) (Cdr.ulong e 0) ∨
    ∃ major minor p, Laid E o (iiopFront e major minor p) ∧ p.Fits

/-- The fields of `n` listen points are inside.  A host that has not even the octet that ends it is
refused when the port is not the one of the connection, which its first octet can show. -/
inductive PointsInside (E : Octets) (e : Endian) : ℕ → ℕ → Connection → Prop
  | done (o : ℕ) (c : Connection) : PointsInside E e 0 o c
  | refused {n o i : ℕ} {c : Connection} {x : UInt8} (hhost : Laid E o (Cdr.ulong e 0)) (hi : i < 2)
      (hx : E[roundUp 4 o + 4 + i]? = some x)
      (hport : (e.bytes 2 c.remote.port.toNat)[i]? ≠ some x) : PointsInside E e (n + 1) o c
  | nameless {n o : ℕ} {c : Connection}
      (hpoint : Laid E o (Cdr.ulong e 0 ++ Cdr.ushort e c.remote.port))
      (hrest : PointsInside E e n (roundUp 4 o + 6) c) : PointsInside E e (n + 1) o c
  | point {n o : ℕ} {c : Connection} {a : HostAndPort}
      (hpoint : Laid E o (Cdr.stringOpen e a.host ++ Cdr.ushort e a.port))
      (hfits : a.host.length + 1 < 2 ^ 32)
      (hrest : PointsInside E e n (extent o (Cdr.stringOpen e a.host ++ Cdr.ushort e a.port))
        (c.adopt a)) : PointsInside E e (n + 1) o c

/-- The fields of a list of listen points are inside. -/
def ContextInside (E : Octets) (e : Endian) (o : ℕ) (c : Connection) : Prop :=
  ∃ count, Laid E o (Cdr.ulong e count) ∧ PointsInside E e count.toNat (roundUp 4 o + 4) c

/-- The octet that announces the byte order is inside, and so is what is looked at behind it. -/
def StaysInside (E : Octets) (o : ℕ) (Inside : Endian → ℕ → Prop) : Prop :=
  ∃ flags, Laid E (roundUp 4 o + 8) (Cdr.octet flags) ∧ Inside (order flags) (roundUp 4 o + 9)

/-! ### Something to follow -/

/-- From `q` on there is nothing but ones. -/
def Ones (D : Octets) (q : ℕ) : Prop := ∀ i, q ≤ i → i < D.length → D[i]? = some 1

/-- More ones than any number of listen points can use up. -/
def padded (E : Octets) : Octets := E ++ List.replicate (2 ^ 60) 1

theorem prefix_padded (E : Octets) : E <+: padded E := List.prefix_append _ _

theorem length_padded (E : Octets) : (padded E).length = E.length + 2 ^ 60 := by
  rw [padded, List.length_append, List.length_replicate]

theorem ones_padded (E : Octets) : Ones (padded E) E.length := by
  intro i hi hlt
  rw [length_padded] at hlt
  rw [padded, List.getElem?_append_right hi, List.getElem?_replicate, if_pos (by omega)]

section Ones

variable {D : Octets} {o q : ℕ} {e : Endian}

/-- A number that reaches into the ones is not zero. -/
theorem Ones.ulong_ne_zero (hones : Ones D q) {v : UInt32} (h : Laid D o (Cdr.ulong e v))
    (hq : q < roundUp 4 o + 4) : v ≠ 0 := by
  rintro rfl
  have hle := Cdr.laid_ulong_le h
  have hat : At D (roundUp 4 o) (e.bytes 4 0) := (laid_raw.1 (laid_align.1 h)).1
  have hzero : (e.bytes 4 0)[3]? = some 0 := by cases e <;> decide
  have hlast := hat 3 (by rw [Endian.length_bytes]; decide)
  rw [hones _ (by omega) (by omega), hzero] at hlast
  exact absurd hlast (by decide)

/-- A number in the ones. -/
theorem Ones.ulong (hones : Ones D q) (hq : q ≤ roundUp 4 o) (hle : roundUp 4 o + 4 ≤ D.length) :
    Laid D o (Cdr.ulong e 0x01010101) := by
  have hbytes : e.bytes 4 (0x01010101 : UInt32).toNat = List.replicate 4 1 := by cases e <;> decide
  refine laid_align.2 (laid_raw.2 ⟨?_, laid_nil _ _⟩)
  rw [hbytes]
  intro i hi
  rw [List.length_replicate] at hi
  rw [hones _ (by omega) (by omega), List.getElem?_replicate, if_pos hi]

end Ones

end Giop

namespace GIOPDecoder

variable [Platform] {d : GIOPDecoder} {D E : Octets} {o : ℕ} {e : Endian} {c : Connection}

/-! ### Listen points -/

/-- The size of a view of a host without any octets is too large for a string. -/
theorem readListenPoint_nameless {port : UInt16}
    (h : Laid D o (Cdr.ulong e 0 ++ Cdr.ushort e port)) (hD : D.length < 2 ^ 64)
    (hc : d.connection = some c) (hhost : c.remote.host.length < 2 ^ 63) :
    readListenPoint (d.on D o e) =
      if port = c.remote.port then .ok () (d.on D (roundUp 4 o + 6) e)
      else .error (.thrown (.lengthError "basic_string::_M_replace"))
        (d.on D (roundUp 4 o + 6) e) := by
  obtain ⟨hzero, hport⟩ := laid_append.1 h
  rw [Cdr.extent_ulong] at hport
  have htwo : roundUp 2 (roundUp 4 o + 4) = roundUp 4 o + 4 := by
    have hmod := roundUp_mod (a := 4) (by decide) o
    exact roundUp_eq_self (by omega)
  have hushort := readUshort_on (d := d) hport hD
  rw [htwo] at hushort
  have hview : readStringView (d.on D o e) = .ok ⟨roundUp 4 o + 4, 2 ^ 64 - 1⟩
      (d.on D (roundUp 4 o + 4) e) := read_on (CDRDecoder.readStringView_zero hzero hD)
  have hdiffers : ∀ d' : GIOPDecoder,
      equals ⟨roundUp 4 o + 4, 2 ^ 64 - 1⟩ c.remote.host d' = .ok false d' := by
    intro d'
    rw [equals, if_pos (by show 2 ^ 64 - 1 ≠ c.remote.host.length; omega), pure_run]
  rw [readListenPoint, bind_ok hview, bind_ok hushort, bind_ok (get_run _)]
  simp only [hc]
  rw [bind_ok (hdiffers _)]
  by_cases hsame : port = c.remote.port
  · rw [if_pos hsame, if_neg (by simp [hsame]), pure_run]
  · rw [if_neg hsame, if_pos (by simp [hsame])]
    rfl

/-- A listen point is one of these, or the decoder throws. -/
theorem readListenPoint_cases (ho : o ≤ D.length) (hD : D.length < 2 ^ 63)
    (hc : d.connection = some c) (hhost : c.remote.host.length < 2 ^ 63) :
    (∃ a : HostAndPort, Laid D o (Cdr.stringOpen e a.host ++ Cdr.ushort e a.port) ∧
      a.host.length + 1 < 2 ^ 32) ∨
    Laid D o (Cdr.ulong e 0 ++ Cdr.ushort e c.remote.port) ∨
    ∃ f d', readListenPoint (d.on D o e) = .error f d' := by
  have hraises : ∀ {d' : GIOPDecoder} {view : View}, readStringView (d.on D o e) = .ok view d' →
      Raises readUshort d' → ∃ f d', readListenPoint (d.on D o e) = .error f d' := by
    intro d' view hview hraise
    obtain ⟨t, d'', hrun⟩ := hraise
    exact ⟨_, _, (bind_ok hview _).trans (bind_error hrun _)⟩
  rcases CDRDecoder.readUlong_cases (D := D) (o := o) (e := e) (by omega) with ⟨len, hlen⟩ | hraise
  · have hle := Cdr.laid_ulong_le hlen
    have hlt := len.toNat_lt
    by_cases hzero : len = 0
    · subst hzero
      have hview : readStringView (d.on D o e) = .ok ⟨roundUp 4 o + 4, 2 ^ 64 - 1⟩
          (d.on D (roundUp 4 o + 4) e) := read_on (CDRDecoder.readStringView_zero hlen (by omega))
      rcases CDRDecoder.readUshort_cases (D := D) (o := roundUp 4 o + 4) (e := e) (by omega) with
        ⟨port, hport⟩ | hraise
      · have hpoint : Laid D o (Cdr.ulong e 0 ++ Cdr.ushort e port) := laid_append.2 ⟨hlen, by
          rwa [Cdr.extent_ulong]⟩
        by_cases hsame : port = c.remote.port
        · exact .inr (.inl (hsame ▸ hpoint))
        · have hrun := readListenPoint_nameless (d := d) hpoint (by omega) hc hhost
          rw [if_neg hsame] at hrun
          exact .inr (.inr ⟨_, _, hrun⟩)
      · exact .inr (.inr (hraises hview (raises_read hraise)))
    · rcases Nat.lt_or_ge D.length (roundUp 4 o + 4 + len.toNat) with hshort | hfits
      · right; right
        have hstring : Raises CDRDecoder.readStringView ⟨D, o, some e⟩ :=
          Raises.of_rest (CDRDecoder.readUlong_run hlen (by omega))
            (Raises.bind (CDRDecoder.raises_ptr hshort (by omega)))
        obtain ⟨t, d', hrun⟩ := raises_read (d := d.on D o e) hstring
        exact ⟨_, _, bind_error hrun _⟩
      · obtain ⟨host, hstring, hlength⟩ := CDRDecoder.exists_stringOpen hlen hzero hfits
        have hend : extent o (Cdr.stringOpen e host) ≤ D.length := by
          rw [Cdr.extent_stringOpen, hlength]
          exact hfits
        have hview : readStringView (d.on D o e) = .ok ⟨roundUp 4 o + 4, host.length⟩
            (d.on D (extent o (Cdr.stringOpen e host)) e) :=
          read_on (CDRDecoder.readStringView_open hstring (by omega) hend (by omega))
        rcases CDRDecoder.readUshort_cases (D := D) (o := extent o (Cdr.stringOpen e host)) (e := e)
          (by omega) with ⟨port, hport⟩ | hraise
        · exact .inl ⟨⟨host, port⟩, laid_append.2 ⟨hstring, hport⟩, by show host.length + 1 < _; omega⟩
        · exact .inr (.inr (hraises hview (raises_read hraise)))
  · obtain ⟨t, d', hrun⟩ := raises_read (d := d.on D o e) (Raises.bind (f := fun len =>
      CDRDecoder.readStringViewOf len.toNat) hraise)
    exact .inr (.inr ⟨_, _, bind_error hrun _⟩)

omit [Platform] in
/-- What has been adopted is not larger than a string either. -/
theorem length_adopt {a : HostAndPort} (hhost : c.remote.host.length < 2 ^ 63)
    (hfits : a.host.length + 1 < 2 ^ 32) : (c.adopt a).remote.host.length < 2 ^ 63 := by
  rw [Connection.adopt]
  split
  · exact hfits.trans' (Nat.lt_succ_self _) |>.trans (by decide)
  · exact hhost

omit [Platform] in
/-- There is room for a listen point with a name of this length. -/
theorem exists_point {len : UInt32} (hlen : Laid D o (Cdr.ulong e len)) (hne : len ≠ 0)
    (hroom : roundUp 2 (roundUp 4 o + 4 + len.toNat) + 2 ≤ D.length) :
    ∃ a : HostAndPort, Laid D o (Cdr.stringOpen e a.host ++ Cdr.ushort e a.port) ∧
      a.host.length + 1 < 2 ^ 32 ∧
      extent o (Cdr.stringOpen e a.host ++ Cdr.ushort e a.port) =
        roundUp 2 (roundUp 4 o + 4 + len.toNat) + 2 := by
  have hlt := len.toNat_lt
  have hround := le_roundUp 2 (roundUp 4 o + 4 + len.toNat)
  obtain ⟨host, hhost, hlength⟩ := CDRDecoder.exists_stringOpen hlen hne (by omega)
  obtain ⟨port, hport⟩ := CDRDecoder.exists_ushort (D := D)
    (o := extent o (Cdr.stringOpen e host)) e (by rw [Cdr.extent_stringOpen, hlength]; omega)
  refine ⟨⟨host, port⟩, laid_append.2 ⟨hhost, hport⟩, ?_, ?_⟩
  · show host.length + 1 < 2 ^ 32
    omega
  · rw [extent_append, Cdr.extent_ushort, Cdr.extent_stringOpen, hlength]

/-- A host without any octets is refused with a port of which one octet is not the one of the
connection. -/
theorem readListenPoint_refused {i : ℕ} {x : UInt8} (hlen : Laid D o (Cdr.ulong e 0)) (hi : i < 2)
    (hx : D[roundUp 4 o + 4 + i]? = some x) (hport : (e.bytes 2 c.remote.port.toNat)[i]? ≠ some x)
    (hD : D.length < 2 ^ 63) (hc : d.connection = some c) (hhost : c.remote.host.length < 2 ^ 63) :
    ∃ f d', readListenPoint (d.on D o e) = .error f d' := by
  have hle := Cdr.laid_ulong_le hlen
  rcases CDRDecoder.readUshort_cases (D := D) (o := roundUp 4 o + 4) (e := e) (by omega) with
    ⟨port, hlaid⟩ | hraise
  · have hpoint : Laid D o (Cdr.ulong e 0 ++ Cdr.ushort e port) := laid_append.2 ⟨hlen, by
      rwa [Cdr.extent_ulong]⟩
    have hdiffers : port ≠ c.remote.port := by
      rintro rfl
      have htwo : roundUp 2 (roundUp 4 o + 4) = roundUp 4 o + 4 := by
        have hmod := roundUp_mod (a := 4) (by decide) o
        exact roundUp_eq_self (by omega)
      have hat : At D (roundUp 2 (roundUp 4 o + 4)) (e.bytes 2 c.remote.port.toNat) :=
        (laid_raw.1 (laid_align.1 hlaid)).1
      have hsame := hat i (by rw [Endian.length_bytes]; exact hi)
      rw [htwo, hx] at hsame
      exact hport hsame.symm
    have hrun := readListenPoint_nameless (d := d) hpoint (by omega) hc hhost
    rw [if_neg hdiffers] at hrun
    exact ⟨_, _, hrun⟩
  · obtain ⟨t, d', hrun⟩ := raises_read (d := d.on D (roundUp 4 o + 4) e) hraise
    have hview : readStringView (d.on D o e) = .ok ⟨roundUp 4 o + 4, 2 ^ 64 - 1⟩
        (d.on D (roundUp 4 o + 4) e) :=
      read_on (CDRDecoder.readStringView_zero hlen (by omega))
    exact ⟨_, _, (bind_ok hview _).trans (bind_error hrun _)⟩

/-- A host without any octets is passed over when the port is the one of the connection. -/
theorem times_nameless (n : ℕ) (h : Laid D o (Cdr.ulong e 0 ++ Cdr.ushort e c.remote.port))
    (hD : D.length < 2 ^ 63) (hc : d.connection = some c) (hhost : c.remote.host.length < 2 ^ 63) :
    times readListenPoint (n + 1) (d.on D o e) =
      times readListenPoint n (d.on D (roundUp 4 o + 6) e) := by
  have hrun := readListenPoint_nameless (d := d) h (by omega) hc hhost
  rw [if_pos rfl] at hrun
  rw [times, bind_ok hrun]

theorem times_point (n : ℕ) {a : HostAndPort}
    (h : Laid D o (Cdr.stringOpen e a.host ++ Cdr.ushort e a.port))
    (hfits : a.host.length + 1 < 2 ^ 32) (hD : D.length < 2 ^ 63) (hc : d.connection = some c) :
    times readListenPoint (n + 1) (d.on D o e) =
      times readListenPoint n (({ d with connection := some (c.adopt a) } : GIOPDecoder).on D
        (extent o (Cdr.stringOpen e a.host ++ Cdr.ushort e a.port)) e) := by
  rw [times, bind_ok (readListenPoint_open h hfits (by omega) hc)]

/-- **Listen points that are read are inside.** -/
theorem points_inside {n : ℕ} {d' : GIOPDecoder} (ho : o ≤ D.length) (hD : D.length < 2 ^ 63)
    (hc : d.connection = some c) (hhost : c.remote.host.length < 2 ^ 63)
    (h : times readListenPoint n (d.on D o e) = .ok () d') : Giop.PointsInside D e n o c := by
  induction n generalizing o d c with
  | zero => exact .done o c
  | succ n ih =>
      rw [times, bind_eq_ok] at h
      obtain ⟨u, d₁, hpoint, hrest⟩ := h
      rcases readListenPoint_cases (d := d) (e := e) ho hD hc hhost with
        ⟨a, hlaid, hfits⟩ | hlaid | ⟨f, d₂, hfault⟩
      · rw [readListenPoint_open hlaid hfits (by omega) hc] at hpoint
        cases hpoint
        refine .point hlaid hfits (ih (d := { d with connection := some (c.adopt a) }) ?_ rfl
          (length_adopt hhost hfits) hrest)
        have hport := (laid_append.1 hlaid).2
        have hle := (laid_raw.1 (laid_align.1 hport)).1.le_length
          (List.ne_nil_of_length_pos (by rw [Endian.length_bytes]; decide))
        rw [Endian.length_bytes] at hle
        rwa [extent_append, Cdr.extent_ushort]
      · rw [readListenPoint_nameless hlaid (by omega) hc hhost, if_pos rfl] at hpoint
        cases hpoint
        refine .nameless hlaid (ih ?_ hc hhost hrest)
        have hport := (laid_append.1 hlaid).2
        rw [Cdr.extent_ulong] at hport
        have hround := le_roundUp 2 (roundUp 4 o + 4)
        have hle := (laid_raw.1 (laid_align.1 hport)).1.le_length
          (List.ne_nil_of_length_pos (by rw [Endian.length_bytes]; decide))
        rw [Endian.length_bytes] at hle
        omega
      · rw [hfault] at hpoint
        cases hpoint

/-- **What is taken from listen points that are inside does not depend on what follows.** -/
theorem points_closed {n : ℕ} (h : Giop.PointsInside E e n o c)
    (hhost : c.remote.host.length < 2 ^ 63) :
    ∃ r, ∀ D : Octets, E <+: D → D.length < 2 ^ 63 → ∀ d : GIOPDecoder, d.connection = some c →
      taken (times readListenPoint n (d.on D o e)) = r := by
  induction h with
  | done o c => exact ⟨some ((), some c), fun D _ _ d hc => congrArg (fun c => some ((), c)) hc⟩
  | @refused n o i c x hlen hi hx hport =>
      refine ⟨none, fun D hprefix hD d hc => ?_⟩
      have hxD : D[roundUp 4 o + 4 + i]? = some x := by
        obtain ⟨rest, rfl⟩ := hprefix
        rw [List.getElem?_append_left (List.getElem?_eq_some_iff.1 hx).1, hx]
      obtain ⟨f, d', hrun⟩ := readListenPoint_refused (hlen.mono hprefix) hi hxD hport hD hc hhost
      rw [times, bind_error hrun]
      rfl
  | nameless hpoint hrest ih =>
      obtain ⟨r, hr⟩ := ih hhost
      refine ⟨r, fun D hprefix hD d hc => ?_⟩
      rw [times_nameless _ (hpoint.mono hprefix) hD hc hhost]
      exact hr D hprefix hD d hc
  | @point n o c a hpoint hfits hrest ih =>
      obtain ⟨r, hr⟩ := ih (length_adopt hhost hfits)
      refine ⟨r, fun D hprefix hD d hc => ?_⟩
      rw [times_point _ (hpoint.mono hprefix) hfits hD hc]
      exact hr D hprefix hD { d with connection := some (c.adopt a) } rfl

/-- Listen points in the ones. -/
theorem points_ones {q : ℕ} (hones : Giop.Ones D q) (hD : D.length < 2 ^ 63) {n : ℕ} (hq : q ≤ o)
    (hroom : o + n * 2 ^ 26 ≤ D.length) (hc : d.connection = some c) :
    ∃ d', times readListenPoint n (d.on D o e) = .ok () d' := by
  induction n generalizing o d c with
  | zero => exact ⟨_, rfl⟩
  | succ n ih =>
      have hround := le_roundUp 4 o
      have hround' := roundUp_lt (show 0 < 4 by decide) o
      have hnumber : (0x01010101 : UInt32).toNat = 16843009 := rfl
      have hport := roundUp_lt (show 0 < 2 by decide)
        (roundUp 4 o + 4 + (0x01010101 : UInt32).toNat)
      have hport' := le_roundUp 2 (roundUp 4 o + 4 + (0x01010101 : UInt32).toNat)
      have hlen : Laid D o (Cdr.ulong e 0x01010101) := hones.ulong (by omega) (by omega)
      obtain ⟨a, hpoint, hfits, hend⟩ := exists_point hlen (by decide) (by omega)
      rw [times_point _ hpoint hfits hD hc, hend]
      exact ih (d := { d with connection := some (c.adopt a) }) (by omega) (by omega) rfl

/-- A listen point that leads into the ones, and those behind it. -/
theorem points_into_ones {q : ℕ} (hones : Giop.Ones D q) (hD : D.length < 2 ^ 63) {n : ℕ}
    {len : UInt32} (hlen : Laid D o (Cdr.ulong e len)) (hne : len ≠ 0)
    (hq : q ≤ roundUp 2 (roundUp 4 o + 4 + len.toNat) + 2)
    (hroom : o + 2 ^ 33 + n * 2 ^ 26 ≤ D.length) (hc : d.connection = some c) :
    ∃ d', times readListenPoint (n + 1) (d.on D o e) = .ok () d' := by
  have hlt := len.toNat_lt
  have hround := roundUp_lt (show 0 < 4 by decide) o
  have hround' := roundUp_lt (show 0 < 2 by decide) (roundUp 4 o + 4 + len.toNat)
  obtain ⟨a, hpoint, hfits, hend⟩ := exists_point hlen hne (by omega)
  rw [times_point _ hpoint hfits hD hc, hend]
  exact points_ones (d := { d with connection := some (c.adopt a) }) hones hD hq (by omega) rfl

omit [Platform] in
/-- A port the first octets of which are those of the connection, completed. -/
theorem laid_completed {port : UInt16} (hp : roundUp 4 o + 4 ≤ E.length)
    (hsame : ∀ i x, i < 2 → E[roundUp 4 o + 4 + i]? = some x →
      (e.bytes 2 port.toNat)[i]? = some x) :
    Laid (E ++ (e.bytes 2 port.toNat).drop (E.length - (roundUp 4 o + 4))) (roundUp 4 o + 4)
      (Cdr.ushort e port) := by
  have htwo : roundUp 2 (roundUp 4 o + 4) = roundUp 4 o + 4 := by
    have hmod := roundUp_mod (a := 4) (by decide) o
    exact roundUp_eq_self (by omega)
  refine laid_align.2 (laid_raw.2 ⟨?_, laid_nil _ _⟩)
  rw [htwo]
  intro i hi
  rw [Endian.length_bytes] at hi
  rcases Nat.lt_or_ge (roundUp 4 o + 4 + i) E.length with hlt | hge
  · rw [List.getElem?_append_left hlt, List.getElem?_eq_getElem hlt]
    exact (hsame i _ hi (List.getElem?_eq_getElem hlt)).symm
  · rw [List.getElem?_append_right hge, List.getElem?_drop]
    congr 1
    omega

/-- A port of which the first octets are inside and those of the connection. -/
theorem points_cut_port {n : ℕ} (hlen : Laid E o (Cdr.ulong e 0))
    (hsame : ∀ i x, i < 2 → E[roundUp 4 o + 4 + i]? = some x →
      (e.bytes 2 c.remote.port.toNat)[i]? = some x)
    (hshort : E.length < roundUp 4 o + 6) (hn : n ≤ 2 ^ 32) (hE : E.length ≤ 2 ^ 62)
    (hhost : c.remote.host.length < 2 ^ 63) :
    ∃ D : Octets, E <+: D ∧ D.length < 2 ^ 63 ∧ ∀ d : GIOPDecoder, d.connection = some c →
      ∃ d', times readListenPoint (n + 1) (d.on D o e) = .ok () d' := by
  have hin := Cdr.laid_ulong_le hlen
  let F := E ++ (e.bytes 2 c.remote.port.toNat).drop (E.length - (roundUp 4 o + 4))
  have hF : F.length = roundUp 4 o + 6 := by
    rw [List.length_append, List.length_drop, Endian.length_bytes]
    omega
  have hpad := Giop.length_padded F
  have hprefix : E <+: Giop.padded F := (List.prefix_append _ _).trans (Giop.prefix_padded F)
  have hpoint : Laid (Giop.padded F) o (Cdr.ulong e 0 ++ Cdr.ushort e c.remote.port) := by
    refine laid_append.2 ⟨hlen.mono hprefix, ?_⟩
    rw [Cdr.extent_ulong]
    exact Laid.mono (laid_completed hin hsame) (Giop.prefix_padded F)
  refine ⟨Giop.padded F, hprefix, by omega, fun d hc => ?_⟩
  rw [times_nameless _ hpoint (by omega) hc hhost]
  exact points_ones (Giop.ones_padded F) (by omega) hF.le (by omega) hc

/-- **Listen points that are not inside are satisfied by something that follows.** -/
theorem points_extend {n : ℕ} (h : ¬ Giop.PointsInside E e n o c) (ho : o ≤ E.length)
    (hn : n ≤ 2 ^ 32) (hE : E.length ≤ 2 ^ 62) (hhost : c.remote.host.length < 2 ^ 63) :
    ∃ D : Octets, E <+: D ∧ D.length < 2 ^ 63 ∧ ∀ d : GIOPDecoder, d.connection = some c →
      ∃ d', times readListenPoint n (d.on D o e) = .ok () d' := by
  induction n generalizing o c with
  | zero => exact absurd (.done o c) h
  | succ n ih =>
      have hpad := Giop.length_padded E
      have hround := le_roundUp 4 o
      have hround' := roundUp_lt (show 0 < 4 by decide) o
      -- a point with a name that leads out of the encapsulation
      have hinto : ∀ len, Laid (Giop.padded E) o (Cdr.ulong e len) → len ≠ 0 →
          E.length ≤ roundUp 2 (roundUp 4 o + 4 + len.toNat) + 2 →
          ∃ D : Octets, E <+: D ∧ D.length < 2 ^ 63 ∧ ∀ d : GIOPDecoder, d.connection = some c →
            ∃ d', times readListenPoint (n + 1) (d.on D o e) = .ok () d' := by
        intro len hlen hne hq
        refine ⟨Giop.padded E, Giop.prefix_padded E, by omega, fun d hc => ?_⟩
        exact points_into_ones (Giop.ones_padded E) (by omega) hlen hne hq (by omega) hc
      rcases Nat.lt_or_ge E.length (roundUp 4 o + 4) with hout | hin
      · obtain ⟨len, hlen⟩ := CDRDecoder.exists_ulong (D := Giop.padded E) (o := o) e (by omega)
        have hport := le_roundUp 2 (roundUp 4 o + 4 + len.toNat)
        exact hinto len hlen ((Giop.ones_padded E).ulong_ne_zero hlen hout) (by omega)
      obtain ⟨len, hlen⟩ := CDRDecoder.exists_ulong (D := E) (o := o) e hin
      by_cases hzero : len = 0
      · subst hzero
        -- the port is the one of the connection as far as it is inside
        have hsame : ∀ i x, i < 2 → E[roundUp 4 o + 4 + i]? = some x →
            (e.bytes 2 c.remote.port.toNat)[i]? = some x := by
          intro i x hi hx
          by_contra hport
          exact h (.refused hlen hi hx hport)
        rcases Nat.lt_or_ge E.length (roundUp 4 o + 6) with hshort | hfits
        · exact points_cut_port hlen hsame hshort (by omega) hE hhost
        · have hpoint : Laid E o (Cdr.ulong e 0 ++ Cdr.ushort e c.remote.port) := by
            have hlaid := laid_completed hin hsame
            rw [List.drop_eq_nil_of_le (by rw [Endian.length_bytes]; omega), List.append_nil]
              at hlaid
            refine laid_append.2 ⟨hlen, ?_⟩
            rwa [Cdr.extent_ulong]
          obtain ⟨D, hED, hD, hrest⟩ := ih (o := roundUp 4 o + 6) (c := c)
            (fun hrest => h (.nameless hpoint hrest)) hfits (by omega) hhost
          refine ⟨D, hED, hD, fun d hc => ?_⟩
          rw [times_nameless _ (hpoint.mono hED) hD hc hhost]
          exact hrest d hc
      · rcases Nat.lt_or_ge E.length (roundUp 2 (roundUp 4 o + 4 + len.toNat) + 2) with
          hshort | hfits
        · exact hinto len (hlen.mono (Giop.prefix_padded E)) hzero hshort.le
        · obtain ⟨a, hpoint, hname, hend⟩ := exists_point hlen hzero hfits
          obtain ⟨D, hED, hD, hrest⟩ := ih (c := c.adopt a)
            (fun hrest => h (.point hpoint hname hrest)) (hend ▸ hfits) (by omega)
            (length_adopt hhost hname)
          refine ⟨D, hED, hD, fun d hc => ?_⟩
          rw [times_point _ (hpoint.mono hED) hname hD hc]
          exact hrest { d with connection := some (c.adopt a) } rfl

/-! ### The closures -/

/-- Something can follow that satisfies the program. -/
def Satisfied {α : Type} (m : ScanM α) (d : GIOPDecoder) (E : Octets) (o : ℕ) (e : Endian) : Prop :=
  ∃ D : Octets, E <+: D ∧ D.length < 2 ^ 63 ∧ taken (m (d.on D o e)) ≠ none

theorem readServiceContextBody_points {type : UInt32} (htype : ServiceId.ofUlong type = .biDirIIOP)
    {count : UInt32} (h : Laid D o (Cdr.ulong e count)) (hD : D.length < 2 ^ 64) :
    readServiceContextBody type (d.on D o e) =
      times readListenPoint count.toNat (d.on D (roundUp 4 o + 4) e) := by
  rw [readServiceContextBody, htype]
  exact bind_ok (readUlong_on h hD) _

theorem readServiceContextBody_other {type : UInt32} (htype : ServiceId.ofUlong type ≠ .biDirIIOP)
    (d : GIOPDecoder) : readServiceContextBody type d = .ok () d := by
  rw [readServiceContextBody]
  cases hkind : ServiceId.ofUlong type with
  | biDirIIOP => exact absurd hkind htype
  | _ => rfl

/-- A service context that is inside. -/
theorem context_closed {type : UInt32} (hc : d.connection = some c)
    (hhost : c.remote.host.length < 2 ^ 63)
    (h : ServiceId.ofUlong type = .biDirIIOP → Giop.ContextInside E e o c) :
    Closed (readServiceContextBody type) d E o e := by
  intro D D' hED hED' hD hD'
  by_cases htype : ServiceId.ofUlong type = .biDirIIOP
  · obtain ⟨count, hcount, hpoints⟩ := h htype
    obtain ⟨r, hr⟩ := points_closed hpoints hhost
    rw [readServiceContextBody_points htype (hcount.mono hED) (by omega),
      readServiceContextBody_points htype (hcount.mono hED') (by omega), hr D hED hD d hc,
      hr D' hED' hD' d hc]
  · rw [readServiceContextBody_other htype, readServiceContextBody_other htype]
    rfl

theorem context_inside {type : UInt32} (ho : o ≤ E.length) (hE : E.length < 2 ^ 63)
    (hc : d.connection = some c) (hhost : c.remote.host.length < 2 ^ 63)
    (h : taken (readServiceContextBody type (d.on E o e)) ≠ none)
    (htype : ServiceId.ofUlong type = .biDirIIOP) : Giop.ContextInside E e o c := by
  rcases CDRDecoder.readUlong_cases (D := E) (o := o) (e := e) (by omega) with
    ⟨count, hcount⟩ | hraise
  · refine ⟨count, hcount, ?_⟩
    rw [readServiceContextBody_points htype hcount (by omega)] at h
    cases hrun : times readListenPoint count.toNat (d.on E (roundUp 4 o + 4) e) with
    | ok u d' => exact points_inside (Cdr.laid_ulong_le hcount) hE hc hhost hrun
    | error f d' =>
        rw [hrun] at h
        exact absurd rfl h
  · obtain ⟨t, d', hrun⟩ := raises_read (d := d.on E o e) hraise
    refine absurd ?_ h
    rw [readServiceContextBody, htype]
    exact congrArg taken (bind_error hrun _)

theorem context_extend {type : UInt32} (ho : o ≤ E.length) (hE : E.length ≤ 2 ^ 62)
    (hc : d.connection = some c) (hhost : c.remote.host.length < 2 ^ 63)
    (h : ¬ (ServiceId.ofUlong type = .biDirIIOP → Giop.ContextInside E e o c)) :
    Satisfied (readServiceContextBody type) d E o e := by
  obtain ⟨htype, hout⟩ := Classical.not_imp.1 h
  have hround := roundUp_lt (show 0 < 4 by decide) o
  rcases Nat.lt_or_ge E.length (roundUp 4 o + 4) with hlt | hin
  · have hpad := Giop.length_padded E
    obtain ⟨count, hcount⟩ := CDRDecoder.exists_ulong (D := Giop.padded E) (o := o) e (by omega)
    have hlt' := count.toNat_lt
    obtain ⟨d', hrun⟩ := points_ones (e := e) (n := count.toNat) (d := d) (Giop.ones_padded E)
      (by omega) hlt.le (by omega) hc
    refine ⟨Giop.padded E, Giop.prefix_padded E, by omega, ?_⟩
    rw [readServiceContextBody_points htype hcount (by omega), hrun]
    exact Option.some_ne_none _
  · obtain ⟨count, hcount⟩ := CDRDecoder.exists_ulong (D := E) (o := o) e hin
    obtain ⟨D, hED, hD, hrest⟩ := points_extend (fun hpoints => hout ⟨count, hcount, hpoints⟩) hin
      count.toNat_lt.le hE hhost
    obtain ⟨d', hrun⟩ := hrest d hc
    refine ⟨D, hED, hD, ?_⟩
    rw [readServiceContextBody_points htype (hcount.mono hED) (by omega), hrun]
    exact Option.some_ne_none _

/-- A service context of which nothing is there yet. -/
theorem context_behind (type : UInt32) (hE : E.length ≤ 2 ^ 62) (hc : d.connection = some c)
    (hhost : c.remote.host.length < 2 ^ 63) :
    Satisfied (readServiceContextBody type) d E E.length e := by
  by_cases htype : ServiceId.ofUlong type = .biDirIIOP
  · refine context_extend le_rfl hE hc hhost fun h => ?_
    obtain ⟨count, hcount, -⟩ := h htype
    have hle := Cdr.laid_ulong_le hcount
    have hround := le_roundUp 4 E.length
    omega
  · refine ⟨E, List.prefix_rfl, by omega, ?_⟩
    rw [readServiceContextBody_other htype]
    exact Option.some_ne_none _

/-- A profile whose host has not even the octet that ends it. -/
theorem profile_nameless (profile : Option IiopProfile) (hlen : Laid D (o + 2) (Cdr.ulong e 0))
    (hD : D.length < 2 ^ 63) :
    taken (readProfile profile ProfileId.tagInternetIop.toUlong (d.on D o e)) = none := by
  have hle := Cdr.laid_ulong_le hlen
  have hround := le_roundUp 4 (o + 2)
  obtain ⟨major, hmajor⟩ := CDRDecoder.laid_octet_of_lt (D := D) (o := o) (by omega)
  obtain ⟨minor, hminor⟩ := CDRDecoder.laid_octet_of_lt (D := D) (o := o + 1) (by omega)
  have hstring : Raises CDRDecoder.readString ⟨D, o + 1 + 1, some e⟩ := by
    rcases CDRDecoder.readStringOf_cases hlen hD with ⟨v, hv, hfits, -⟩ | hraise
    · -- the length is not zero then
      have hnumber := Cdr.laid_ulong_inj hlen (laid_append.1 hv).1
      cases congrArg UInt32.toNat hnumber |>.trans (UInt32.toNat_ofNat_of_lt' hfits)
    · exact Raises.of_rest (CDRDecoder.readUlong_run hlen (by omega)) hraise
  obtain ⟨t, d', hrun⟩ := raises_read (d := d.on D (o + 1 + 1) e) hstring
  rw [readProfile_version profile hmajor hminor (by omega)]
  exact congrArg taken (bind_error hrun _)

/-- A profile that is inside. -/
theorem profile_closed {type : UInt32} (profile : Option IiopProfile)
    (h : type = ProfileId.tagInternetIop.toUlong → Giop.ProfileInside E e o) :
    Closed (readProfile profile type) d E o e := by
  intro D D' hED hED' hD hD'
  by_cases htype : type = ProfileId.tagInternetIop.toUlong
  · subst htype
    rcases h rfl with hzero | ⟨major, minor, p, hfront, hfits⟩
    · rw [profile_nameless profile (hzero.mono hED) hD, profile_nameless profile (hzero.mono hED') hD']
    · obtain ⟨o₁, hrun⟩ := readProfile_front (d := d) profile (hfront.mono hED) hfits hD
      obtain ⟨o₂, hrun'⟩ := readProfile_front (d := d) profile (hfront.mono hED') hfits hD'
      rw [hrun, hrun']
      rfl
  · rw [readProfile_other profile htype, readProfile_other profile htype]
    rfl

theorem profile_inside {type : UInt32} {profile : Option IiopProfile} (ho : o ≤ E.length)
    (hE : E.length < 2 ^ 63) (h : taken (readProfile profile type (d.on E o e)) ≠ none)
    (htype : type = ProfileId.tagInternetIop.toUlong) : Giop.ProfileInside E e o := by
  subst htype
  rcases readProfile_cases (d := d) (e := e) profile ho hE with hfront | hcut | ⟨t, d', hrun⟩
  · exact .inr hfront
  · obtain ⟨u, d', hrun⟩ := readProfile_cut (d := d) (e := e) profile hcut hE
    rw [hrun] at h
    exact absurd rfl h
  · rw [hrun] at h
    exact absurd rfl h

theorem profile_extend {type : UInt32} (profile : Option IiopProfile) (ho : o ≤ E.length)
    (hE : E.length ≤ 2 ^ 62)
    (h : ¬ (type = ProfileId.tagInternetIop.toUlong → Giop.ProfileInside E e o)) :
    Satisfied (readProfile profile type) d E o e := by
  obtain ⟨rfl, hout⟩ := Classical.not_imp.1 h
  have hpad := Giop.length_padded E
  have hround := roundUp_lt (show 0 < 4 by decide) (o + 2)
  obtain ⟨major, hmajor⟩ := CDRDecoder.laid_octet_of_lt (D := Giop.padded E) (o := o) (by omega)
  obtain ⟨minor, hminor⟩ := CDRDecoder.laid_octet_of_lt (D := Giop.padded E) (o := o + 1) (by omega)
  obtain ⟨len, hlen⟩ := CDRDecoder.exists_ulong (D := Giop.padded E) (o := o + 2) e (by omega)
  have hlt := len.toNat_lt
  have hne : len ≠ 0 := by
    rintro rfl
    rcases Nat.lt_or_ge E.length (roundUp 4 (o + 2) + 4) with hshort | hin
    · exact (Giop.ones_padded E).ulong_ne_zero hlen hshort rfl
    · obtain ⟨v, hv⟩ := CDRDecoder.exists_ulong (D := E) (o := o + 2) e hin
      obtain rfl := Cdr.laid_ulong_inj hlen (hv.mono (Giop.prefix_padded E))
      exact hout (.inl hv)
  obtain ⟨host, hhost, hlength⟩ := CDRDecoder.exists_stringOpen hlen hne (by omega)
  have hextent : extent (o + 2) (Cdr.stringOpen e host) = roundUp 4 (o + 2) + 4 + len.toNat := by
    rw [Cdr.extent_stringOpen, hlength]
  have hround' := roundUp_lt (show 0 < 2 by decide) (extent (o + 2) (Cdr.stringOpen e host))
  obtain ⟨port, hport⟩ := CDRDecoder.exists_ushort (D := Giop.padded E)
    (o := extent (o + 2) (Cdr.stringOpen e host)) e (by omega)
  have hround'' := roundUp_lt (show 0 < 4 by decide)
    (roundUp 2 (extent (o + 2) (Cdr.stringOpen e host)) + 2)
  obtain ⟨size, hsize⟩ := CDRDecoder.exists_ulong (D := Giop.padded E)
    (o := roundUp 2 (extent (o + 2) (Cdr.stringOpen e host)) + 2) e (by omega)
  have hlt' := size.toNat_lt
  obtain ⟨key, hkey, hlength'⟩ := CDRDecoder.exists_blob hsize (by omega)
  have hfront : Laid (Giop.padded E) o (Giop.iiopFront e major minor ⟨host, port, key⟩) := by
    simp only [Giop.iiopFront, laid_append, Cdr.extent_octet, Cdr.extent_ushort]
    exact ⟨hmajor, hminor, hhost, hport, hkey⟩
  obtain ⟨o', hrun⟩ := readProfile_front (d := d) profile hfront
    ⟨by show host.length + 1 < 2 ^ 32; omega, by show key.length < 2 ^ 32; omega⟩ (by omega)
  refine ⟨Giop.padded E, Giop.prefix_padded E, by omega, ?_⟩
  rw [hrun]
  exact Option.some_ne_none _

/-- A profile of which nothing is there yet. -/
theorem profile_behind (type : UInt32) (profile : Option IiopProfile) (hE : E.length ≤ 2 ^ 62) :
    Satisfied (readProfile profile type) d E E.length e := by
  by_cases htype : type = ProfileId.tagInternetIop.toUlong
  · refine profile_extend profile le_rfl hE fun h => ?_
    rcases h htype with hzero | ⟨major, minor, p, hfront, -⟩
    · have hle := Cdr.laid_ulong_le hzero
      have hround := le_roundUp 4 (E.length + 2)
      omega
    · have hmajor := (laid_raw.1 (laid_append.1 hfront).1).1
      have hle := hmajor.le_length (List.cons_ne_nil _ _)
      rw [List.length_singleton] at hle
      omega
  · refine ⟨E, List.prefix_rfl, by omega, ?_⟩
    rw [readProfile_other profile htype]
    exact Option.some_ne_none _

/-! ### Encapsulations -/

section Encapsulation

variable {α : Type} {closure : UInt32 → ScanM α} {type size : UInt32} {Inside : Endian → ℕ → Prop}

/-- Of an encapsulation is taken what the closure takes. -/
theorem taken_encapsulation {flags : UInt8} (h : Laid D o (Giop.profileHead e type size flags))
    (hD : D.length < 2 ^ 64) :
    taken (readEncapsulation closure (d.on D o e)) =
      taken (closure type (d.on D (roundUp 4 o + 9) (Giop.order flags))) := by
  rw [readEncapsulation_head h hD]
  cases hrun : closure type (d.on D (roundUp 4 o + 9) (Giop.order flags)) with
  | ok a d' =>
      rw [bind_ok hrun]
      rfl
  | error f d' => rw [bind_error hrun]

/-- **Two runs over an encapsulation agree exactly when what is looked at is inside.** -/
theorem closed_encapsulation_iff (h : Giop.Encapsulated E e o type size)
    (hclosed : ∀ e', Inside e' (roundUp 4 o + 9) →
      Closed (closure type) d E (roundUp 4 o + 9) e')
    (hinside : ∀ e', roundUp 4 o + 9 ≤ E.length →
      taken (closure type (d.on E (roundUp 4 o + 9) e')) ≠ none → Inside e' (roundUp 4 o + 9))
    (hextend : ∀ e', roundUp 4 o + 9 ≤ E.length → ¬ Inside e' (roundUp 4 o + 9) →
      Satisfied (closure type) d E (roundUp 4 o + 9) e')
    (hbehind : ∀ (F : Octets) e', F.length ≤ 2 ^ 62 → Satisfied (closure type) d F F.length e') :
    Closed (readEncapsulation closure) d E o e ↔ Giop.StaysInside E o Inside := by
  have hsmall := h.small
  have hlength := h.length
  have hhead : ∀ {D : Octets} {flags : UInt8}, E <+: D →
      Laid D (roundUp 4 o + 8) (Cdr.octet flags) →
        Laid D o (Giop.profileHead e type size flags) := fun hED hflags =>
    laid_profileHead.2 ⟨h.numbers.mono hED, hflags⟩
  constructor
  · intro hagree
    rcases Nat.lt_or_ge (roundUp 4 o + 8) E.length with hflags | hnone
    · obtain ⟨flags, hflags⟩ := CDRDecoder.laid_octet_of_lt hflags
      refine ⟨flags, hflags, ?_⟩
      by_contra hout
      have hle : roundUp 4 o + 9 ≤ E.length := by omega
      obtain ⟨D, hED, hD, htaken⟩ := hextend (Giop.order flags) hle hout
      have hsame := hagree D E hED List.prefix_rfl hD (by omega)
      rw [taken_encapsulation (hhead hED (hflags.mono hED)) (by omega),
        taken_encapsulation (hhead List.prefix_rfl hflags) (by omega)] at hsame
      exact hout (hinside _ hle (hsame ▸ htaken))
    · -- the octet of the byte order is outside
      have hend : E.length = roundUp 4 o + 8 := by omega
      have hfault : taken (readEncapsulation closure (d.on E o e)) = none := by
        rw [readEncapsulation, readNumbers h.numbers (by omega), get_bind]
        exact congrArg taken (bind_error (readOctet_overread hend.le) _)
      have hF : (E ++ [1]).length = roundUp 4 o + 9 := by
        rw [List.length_append, List.length_singleton, hend]
      obtain ⟨D, hFD, hD, htaken⟩ := hbehind (E ++ [1]) (Giop.order 1) (by omega)
      have hED : E <+: D := (List.prefix_append _ _).trans hFD
      have hflags : Laid D (roundUp 4 o + 8) (Cdr.octet 1) := by
        have hone : Laid (E ++ [1]) (roundUp 4 o + 8) (Cdr.octet 1) := by
          refine laid_raw.2 ⟨at_singleton.2 ?_, laid_nil _ _⟩
          rw [← hend, List.getElem?_concat_length]
        exact hone.mono hFD
      have hsame := hagree D E hED List.prefix_rfl hD (by omega)
      rw [taken_encapsulation (hhead hED hflags) (by omega), hfault, ← hF] at hsame
      exact absurd hsame htaken
  · rintro ⟨flags, hflags, hin⟩ D D' hED hED' hD hD'
    rw [taken_encapsulation (hhead hED (hflags.mono hED)) (by omega),
      taken_encapsulation (hhead hED' (hflags.mono hED')) (by omega)]
    exact hclosed _ hin D D' hED hED' hD hD'

end Encapsulation

end GIOPDecoder

/-- **What is taken from a profile or from a service context does not depend on what follows it
exactly when the fields that are looked at are inside.** -/
theorem encapsulations_closed_iff [Platform] {E : Octets} {e : Endian} {o : ℕ} {type size : UInt32}
    (h : Giop.Encapsulated E e o type size) (d : GIOPDecoder) :
    (∀ profile, GIOPDecoder.Closed
        (GIOPDecoder.readEncapsulation (GIOPDecoder.readProfile profile)) d E o e ↔
      Giop.StaysInside E o fun e' o' =>
        type = ProfileId.tagInternetIop.toUlong → Giop.ProfileInside E e' o') ∧
    ∀ c, d.connection = some c → c.remote.host.length < 2 ^ 63 →
      (GIOPDecoder.Closed
          (GIOPDecoder.readEncapsulation GIOPDecoder.readServiceContextBody) d E o e ↔
        Giop.StaysInside E o fun e' o' =>
          ServiceId.ofUlong type = .biDirIIOP → Giop.ContextInside E e' o' c) := by
  have hsmall := h.small
  constructor
  · intro profile
    exact GIOPDecoder.closed_encapsulation_iff h (fun e' => GIOPDecoder.profile_closed profile)
      (fun e' ho htaken => GIOPDecoder.profile_inside ho (by omega) htaken)
      (fun e' ho => GIOPDecoder.profile_extend profile ho (by omega))
      (fun F e' hF => GIOPDecoder.profile_behind type profile hF)
  · intro c hc hhost
    exact GIOPDecoder.closed_encapsulation_iff h (fun e' => GIOPDecoder.context_closed hc hhost)
      (fun e' ho htaken => GIOPDecoder.context_inside ho (by omega) hc hhost htaken)
      (fun e' ho => GIOPDecoder.context_extend ho (by omega) hc hhost)
      (fun F e' hF => GIOPDecoder.context_behind type hF hc hhost)

/-- An encapsulated profile of a host, a port and a key of one octet, which is missing when `size` does
not count it. -/
def keyed (size : UInt8) (key : Octets) : Octets :=
  [0, 0, 0, 0, size, 0, 0, 0, 1, 1, 0, 0, 2, 0, 0, 0, 104, 0, 5, 0, 1, 0, 0, 0] ++ key

/-- A reader that has not met a connection. -/
def reader : GIOPDecoder := { buffer := ⟨[], 0, none⟩, connection := none }

theorem keyed_encapsulated : Giop.Encapsulated (keyed 17 [65]) .little 0 0 17 where
  numbers := by
    refine laid_align.2 (laid_raw.2 ⟨at_of_take_drop (by decide), ?_⟩)
    exact laid_align.2 (laid_raw.2 ⟨at_of_take_drop (by decide), laid_nil _ _⟩)
  length := by decide
  small := by decide

/-- A profile that has all its fields is closed. -/
theorem encapsulations_closed_keyed :
    letI : Platform := ⟨.little⟩
    GIOPDecoder.Closed (GIOPDecoder.readEncapsulation (GIOPDecoder.readProfile none)) reader
      (keyed 17 [65]) 0 .little := by
  let : Platform := ⟨.little⟩
  have htaken : taken (GIOPDecoder.readProfile none 0 (reader.on (keyed 17 [65]) 9 .little)) ≠ none :=
    by decide +kernel
  refine ((encapsulations_closed_iff keyed_encapsulated reader).1 none).2 ⟨1, ?_, ?_⟩
  · exact laid_raw.2 ⟨at_of_take_drop (by decide), laid_nil _ _⟩
  · exact GIOPDecoder.profile_inside (by decide) (by decide) htaken

theorem keyless_encapsulated : Giop.Encapsulated (keyed 16 []) .little 0 0 16 where
  numbers := by
    refine laid_align.2 (laid_raw.2 ⟨at_of_take_drop (by decide), ?_⟩)
    exact laid_align.2 (laid_raw.2 ⟨at_of_take_drop (by decide), laid_nil _ _⟩)
  length := by decide
  small := by decide

/-- The object key of the profile is the octet that follows it. -/
theorem key_follows_profile :
    letI : Platform := ⟨.little⟩
    Giop.Encapsulated (keyed 16 []) .little 0 0 16 ∧
      ¬ GIOPDecoder.Closed (GIOPDecoder.readEncapsulation (GIOPDecoder.readProfile none)) reader
        (keyed 16 []) 0 .little := by
  let : Platform := ⟨.little⟩
  refine ⟨keyless_encapsulated, fun hclosed => ?_⟩
  have hsame := hclosed (keyed 16 [65]) (keyed 16 [66]) (List.prefix_append _ _)
    (List.prefix_append _ _) (by decide) (by decide)
  exact absurd hsame (by decide +kernel)

end Corba
