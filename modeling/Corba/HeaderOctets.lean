/-
Which octets are a header.

The scan functions end with a value for some octets and not for others.  A header that is scanned is
one whose fields lie in the message, each where the decoder looks for it: a number in its octets, a
key and an operation with as many octets as their length says.  A service context is found by the size
of the one before it, and of a list of listen points the fields are looked at in the byte order of the
service context.

Main definitions:

* `Corba.Giop.ListenPoints`, `Corba.Giop.Contexts`, `Corba.Giop.ContextList` — listen points and
  service contexts that lie in the message;
* `Corba.Giop.StringLaid` — a string that does;
* `Corba.Giop.RequestLaid`, `Corba.Giop.ReplyLaid`, `Corba.Giop.LocateLaid` — the headers.

Main results:

* `Corba.GIOPDecoder.readUlong_ok_iff`, … — what a reader yields, it yields exactly where it is laid
  out;
* `Corba.GIOPDecoder.readServiceContext_ok_iff` — the same for service contexts;
* `Corba.GIOPDecoder.scanRequestHeader_laid`, `Corba.GIOPDecoder.scanRequestHeader_of_laid`,
  `Corba.GIOPDecoder.scanReplyHeader_ends_iff`, `Corba.GIOPDecoder.scanLocateRequest_ends_iff` — and
  for the headers.
-/

import Corba.Encapsulations
import Corba.GiopBounds

set_option relaxedAutoImplicit false
set_option autoImplicit false

namespace Corba

open Layout ByteOrder Placed Exec

/-! ### The fields of a header -/

namespace Giop

/-- Where `n` listen points that begin at `o` end, and what the connection is then.  A host that has
not even the octet that ends it is passed over when the port is the one of the connection. -/
inductive ListenPoints (D : Octets) (e : Endian) : ℕ → ℕ → Connection → ℕ → Connection → Prop
  | done (o : ℕ) (c : Connection) : ListenPoints D e 0 o c o c
  | nameless {n o o' : ℕ} {c c' : Connection}
      (hpoint : Laid D o (Cdr.ulong e 0 ++ Cdr.ushort e c.remote.port))
      (hrest : ListenPoints D e n (roundUp 4 o + 6) c o' c') : ListenPoints D e (n + 1) o c o' c'
  | point {n o o' : ℕ} {c c' : Connection} {a : HostAndPort}
      (hpoint : Laid D o (Cdr.stringOpen e a.host ++ Cdr.ushort e a.port))
      (hfits : a.host.length + 1 < 2 ^ 32)
      (hrest : ListenPoints D e n (extent o (Cdr.stringOpen e a.host ++ Cdr.ushort e a.port))
        (c.adopt a) o' c') : ListenPoints D e (n + 1) o c o' c'

/-- Where the service context behind `n` others is looked for, the first of which begins at `o`, and
what the connection is then.  Whatever a service context holds, its size says where the next one
begins. -/
inductive Contexts (D : Octets) (e : Endian) : ℕ → ℕ → Connection → ℕ → Connection → Prop
  | done (o : ℕ) (c : Connection) : Contexts D e 0 o c o c
  | other {n o o' : ℕ} {c c' : Connection} {id size : UInt32} {flags : UInt8}
      (hhead : Laid D o (profileHead e id size flags)) (hid : ServiceId.ofUlong id ≠ .biDirIIOP)
      (hrest : Contexts D e n (nextProfile o size) c o' c') : Contexts D e (n + 1) o c o' c'
  | listenPoints {n o p o' : ℕ} {c c₁ c' : Connection} {id size count : UInt32} {flags : UInt8}
      (hhead : Laid D o (profileHead e id size flags)) (hid : ServiceId.ofUlong id = .biDirIIOP)
      (hcount : Laid D (roundUp 4 o + 9) (Cdr.ulong (order flags) count))
      (hpoints : ListenPoints D (order flags) count.toNat (roundUp 4 (roundUp 4 o + 9) + 4) c p c₁)
      (hrest : Contexts D e n (nextProfile o size) c₁ o' c') : Contexts D e (n + 1) o c o' c'

/-- A list of service contexts begins with their number. -/
def ContextList (D : Octets) (e : Endian) (o : ℕ) (c : Connection) (o' : ℕ) (c' : Connection) :
    Prop :=
  ∃ count, Laid D o (Cdr.ulong e count) ∧ Contexts D e count.toNat (roundUp 4 o + 4) c o' c'

/-- A string lies in the message, whatever the octet that ends it. -/
def StringLaid (D : Octets) (e : Endian) (o : ℕ) : Prop :=
  ∃ s : Octets, Laid D o (Cdr.stringOpen e s) ∧ s.length + 1 < 2 ^ 32 ∧
    extent o (Cdr.stringOpen e s) ≤ D.length

/-- The part of the header of a request behind the service contexts, up to GIOP 1.1. -/
def requestBack (e : Endian) (requestId : UInt32) (responseFlags : UInt8)
    (objectKey operation : Octets) (principalLength : UInt32) : Cdr.Items :=
  requestFront e requestId responseFlags ++ (Cdr.blob e objectKey ++
    (Cdr.stringOpen e operation ++ Cdr.ulong e principalLength))

/-- The part in front of the service contexts, since GIOP 1.2. -/
def requestFields (e : Endian) (requestId : UInt32) (responseFlags : UInt8)
    (objectKey operation : Octets) : Cdr.Items :=
  requestFront e requestId responseFlags ++
    (Cdr.ushort e AddressingDisposition.keyAddr.toUshort ++
      (Cdr.blob e objectKey ++ Cdr.stringOpen e operation))

/-- The header of a request for an operation of an object, which ends at `o'` with the connection
`c'`.  Up to GIOP 1.1 the service contexts stand in front. -/
inductive RequestLaid (D : Octets) (e : Endian) (c : Connection) :
    Bool → Octets → Octets → ℕ → Connection → Prop
  | legacy {o : ℕ} {c' : Connection} {requestId principalLength : UInt32} {responseFlags : UInt8}
      {objectKey operation : Octets} (hcontexts : ContextList D e 12 c o c')
      (hfields : Laid D o
        (requestBack e requestId responseFlags objectKey operation principalLength))
      (hkey : objectKey.length < 2 ^ 32) (hop : operation.length + 1 < 2 ^ 32) :
      RequestLaid D e c true objectKey operation
        (extent o (requestBack e requestId responseFlags objectKey operation principalLength)) c'
  | later {o : ℕ} {c' : Connection} {requestId : UInt32} {responseFlags : UInt8}
      {objectKey operation : Octets}
      (hfields : Laid D 12 (requestFields e requestId responseFlags objectKey operation))
      (hkey : objectKey.length < 2 ^ 32) (hop : operation.length + 1 < 2 ^ 32)
      (hcontexts : ContextList D e
        (extent 12 (requestFields e requestId responseFlags objectKey operation)) c o c') :
      RequestLaid D e c false objectKey operation (roundUp 8 o) c'

/-- The header of a reply.  Of a version other than 1 no service contexts are looked for. -/
inductive ReplyLaid (D : Octets) (e : Endian) (c : Connection) (major minor : ℕ) : Prop
  | legacy {o : ℕ} {c' : Connection} {requestId replyStatus : UInt32}
      (hversion : major = 1 ∧ minor ≤ 1) (hcontexts : ContextList D e 12 c o c')
      (hfields : Laid D o (Cdr.ulong e requestId ++ Cdr.ulong e replyStatus))
  | later {o : ℕ} {c' : Connection} {requestId replyStatus : UInt32}
      (hversion : major = 1 ∧ minor ≥ 2)
      (hfields : Laid D 12 (Cdr.ulong e requestId ++ Cdr.ulong e replyStatus))
      (hcontexts : ContextList D e 20 c o c')
  | other {requestId replyStatus : UInt32} (hversion : major ≠ 1)
      (hfields : Laid D 12 (Cdr.ulong e requestId ++ Cdr.ulong e replyStatus))

/-- A locate request, the addressing disposition of which is the key since GIOP 1.2. -/
def LocateLaid (D : Octets) (e : Endian) (legacy : Bool) : Prop :=
  ∃ r : LocateContent, Laid D 12 (r.items e legacy) ∧ r.objectKey.length < 2 ^ 32

end Giop

/-! ### Where fields end -/

namespace Giop

variable {D : Octets} {o : ℕ} {e : Endian}

theorem ushort_le {v : UInt16} (h : Laid D o (Cdr.ushort e v)) : roundUp 2 o + 2 ≤ D.length := by
  have hle := (laid_raw.1 (laid_align.1 h)).1.le_length
    (List.ne_nil_of_length_pos (by rw [Endian.length_bytes]; decide))
  rwa [Endian.length_bytes] at hle

theorem point_le {a : HostAndPort} (h : Laid D o (Cdr.stringOpen e a.host ++ Cdr.ushort e a.port)) :
    extent o (Cdr.stringOpen e a.host ++ Cdr.ushort e a.port) ≤ D.length := by
  rw [extent_append, Cdr.extent_ushort]
  exact ushort_le (laid_append.1 h).2

theorem blob_le {v : Octets} (h : Laid D o (Cdr.blob e v)) :
    roundUp 4 o + 4 + v.length ≤ D.length := by
  have hle := Cdr.laid_ulong_le (laid_append.1 h).1
  by_cases hne : v = []
  · rw [hne, List.length_nil]
    omega
  · exact (GIOPDecoder.at_blob h).le_length hne

theorem nameless_le {port : UInt16} (h : Laid D o (Cdr.ulong e 0 ++ Cdr.ushort e port)) :
    roundUp 4 o + 6 ≤ D.length := by
  have hle := ushort_le (laid_append.1 h).2
  rw [Cdr.extent_ulong] at hle
  have hround := le_roundUp 2 (roundUp 4 o + 4)
  omega

/-- The head of a service context lies in the message, and the next one is looked for not far behind
its end. -/
theorem head_le {id size : UInt32} {flags : UInt8} (h : Laid D o (profileHead e id size flags))
    (hD : D.length < 2 ^ 63) :
    roundUp 4 o + 9 ≤ D.length ∧ nextProfile o size ≤ D.length + 2 ^ 32 := by
  have hflags := (GIOPDecoder.laid_profileHead.1 h).2
  have hle := (laid_raw.1 hflags).1.le_length (List.cons_ne_nil _ _)
  have hlt := size.toNat_lt
  rw [List.length_singleton] at hle
  rw [nextProfile, sizeT_of_lt (by omega)]
  omega

variable {n o' : ℕ} {c c' : Connection}

/-- Listen points that lie in the message lead to a connection whose host is not longer than a string
can be. -/
theorem ListenPoints.host_lt (h : ListenPoints D e n o c o' c')
    (hhost : c.remote.host.length < 2 ^ 63) : c'.remote.host.length < 2 ^ 63 := by
  induction h with
  | done o c => exact hhost
  | nameless hpoint hrest ih => exact ih hhost
  | point hpoint hfits hrest ih => exact ih (GIOPDecoder.length_adopt hhost hfits)

theorem Contexts.end_le (h : Contexts D e n o c o' c') (hD : D.length < 2 ^ 63)
    (ho : o ≤ D.length + 2 ^ 32) : o' ≤ D.length + 2 ^ 32 := by
  induction h with
  | done o c => exact ho
  | other hhead hid hrest ih => exact ih (head_le hhead hD).2
  | listenPoints hhead hid hcount hpoints hrest ih => exact ih (head_le hhead hD).2

theorem ContextList.end_le (h : ContextList D e o c o' c') (hD : D.length < 2 ^ 63) :
    o' ≤ D.length + 2 ^ 32 := by
  obtain ⟨count, hcount, hcontexts⟩ := h
  have hle := Cdr.laid_ulong_le hcount
  exact hcontexts.end_le hD (by omega)

/-- The arguments of a request are looked for not far behind the end of the message. -/
theorem RequestLaid.end_le {legacy : Bool} {objectKey operation : Octets}
    (h : RequestLaid D e c legacy objectKey operation o' c') (hD : D.length < 2 ^ 63) :
    o' ≤ D.length + 2 ^ 32 + 8 := by
  cases h with
  | legacy hcontexts hfields hkey hop =>
      have hle := Cdr.laid_ulong_le (laid_append.1 (laid_append.1 (laid_append.1 hfields).2).2).2
      simp only [requestBack, extent_append, Cdr.extent_ulong]
      omega
  | @later o c' requestId flags objectKey operation hfields hkey hop hcontexts =>
      have hle := hcontexts.end_le hD
      have hround := roundUp_lt (a := 8) (by decide) o
      omega

end Giop

/-! ### What the readers yield -/

/-- What a program yields when it is known what it yields under a condition on something it finds, and
that it fails otherwise. -/
theorem ok_iff_of_cases {σ α β : Type} {m : EStateM Fault σ α} {s t : σ} {a : α} {P : β → Prop}
    {f : β → α} {g : β → σ} (hrun : ∀ v, P v → m s = .ok (f v) (g v))
    (hcases : (∃ v, P v) ∨ ∃ fault t, m s = .error fault t) :
    m s = .ok a t ↔ ∃ v, P v ∧ a = f v ∧ t = g v := by
  constructor
  · intro h
    rcases hcases with ⟨v, hv⟩ | ⟨fault, t', hfault⟩
    · rw [hrun v hv] at h
      cases h
      exact ⟨v, hv, rfl, rfl⟩
    · rw [hfault] at h
      cases h
  · rintro ⟨v, hv, rfl, rfl⟩
    exact hrun v hv

/-- What a program yields when that is what it finds. -/
theorem ok_iff_of_found {σ α : Type} {m : EStateM Fault σ α} {s t s' : σ} {a : α} {P : α → Prop}
    (hrun : ∀ v, P v → m s = .ok v s') (hcases : (∃ v, P v) ∨ ∃ fault t, m s = .error fault t) :
    m s = .ok a t ↔ P a ∧ t = s' := by
  refine (ok_iff_of_cases hrun hcases).trans ⟨?_, ?_⟩
  · rintro ⟨v, hv, rfl, rfl⟩
    exact ⟨hv, rfl⟩
  · rintro ⟨hv, rfl⟩
    exact ⟨a, hv, rfl, rfl⟩

theorem Raises.error {σ α : Type} {x : EStateM Fault σ α} {s : σ} (h : Raises x s) :
    ∃ fault t, x s = .error fault t := by
  obtain ⟨t, s', h⟩ := h
  exact ⟨_, s', h⟩

/-- A string whose length can be expressed is not endless. -/
theorem View.not_endless_of_fits {start n : ℕ} (h : n + 1 < 2 ^ 32) :
    ¬ (⟨start, n⟩ : View).Endless := by
  rw [Endless]
  dsimp only
  omega

/-- A disposition that is the key has its number. -/
theorem AddressingDisposition.eq_keyAddr {code : UInt16} (h : ofUshort code = .keyAddr) :
    code = keyAddr.toUshort := by
  rw [ofUshort] at h
  split at h
  · cases h
  · split at h
    · assumption
    · split at h <;> cases h

namespace CDRDecoder

variable [Platform] {D : Octets} {o : ℕ} {e : Endian}

theorem readBlobView_cases (ho : o + 8 < 2 ^ 64) (hD : D.length < 2 ^ 63) :
    (∃ v : Octets, Laid D o (Cdr.blob e v) ∧ v.length < 2 ^ 32) ∨
      Raises readBlobView ⟨D, o, some e⟩ := by
  rcases readUlong_cases (D := D) (e := e) ho with ⟨len, hlen⟩ | hraise
  · have hle := Cdr.laid_ulong_le hlen
    have hlt := len.toNat_lt
    rcases Nat.lt_or_ge D.length (roundUp 4 o + 4 + len.toNat) with hshort | hfits
    · right
      exact Raises.of_rest (readUlong_run hlen (by omega))
        (Raises.bind (raises_ptr hshort (by omega)))
    · obtain ⟨v, hv, hlength⟩ := exists_blob hlen hfits
      exact Or.inl ⟨v, hv, hlength ▸ hlt⟩
  · exact Or.inr hraise.bind

/-- A view of a string is one of a string that is laid out, or its length is zero. -/
theorem readStringView_cases (ho : o + 8 < 2 ^ 64) (hD : D.length < 2 ^ 63) :
    (∃ v : Octets, Laid D o (Cdr.stringOpen e v) ∧ v.length + 1 < 2 ^ 32 ∧
      extent o (Cdr.stringOpen e v) ≤ D.length) ∨ Laid D o (Cdr.ulong e 0) ∨
      Raises readStringView ⟨D, o, some e⟩ := by
  rcases readUlong_cases (D := D) (e := e) ho with ⟨len, hlen⟩ | hraise
  · have hle := Cdr.laid_ulong_le hlen
    have hlt := len.toNat_lt
    by_cases hzero : len = 0
    · exact Or.inr (Or.inl (hzero ▸ hlen))
    rcases Nat.lt_or_ge D.length (roundUp 4 o + 4 + len.toNat) with hshort | hfits
    · right; right
      exact Raises.of_rest (readUlong_run hlen (by omega))
        (Raises.bind (raises_ptr hshort (by omega)))
    · obtain ⟨v, hv, hlength⟩ := exists_stringOpen hlen hzero hfits
      refine Or.inl ⟨v, hv, hlength ▸ hlt, ?_⟩
      rw [Cdr.extent_stringOpen, hlength]
      exact hfits
  · exact Or.inr (Or.inr hraise.bind)

end CDRDecoder

namespace GIOPDecoder

variable {d d' : GIOPDecoder} {D : Octets} {o : ℕ} {e : Endian}

theorem readOctet_ok_iff {v : UInt8} (hD : D.length < 2 ^ 63) :
    readOctet (d.on D o e) = .ok v d' ↔ Laid D o (Cdr.octet v) ∧ d' = d.on D (o + 1) e := by
  have hcases : (∃ v, Laid D o (Cdr.octet v)) ∨
      ∃ fault t, readOctet (d.on D o e) = .error fault t := by
    rcases Nat.lt_or_ge o D.length with hlt | hge
    · exact .inl (CDRDecoder.laid_octet_of_lt hlt)
    · exact .inr ⟨_, _, read_error (CDRDecoder.next_overread hge _)⟩
  exact ok_iff_of_found (fun v hv => readOctet_on hv (by omega)) hcases

variable [Platform]

theorem readUlong_ok_iff {v : UInt32} (ho : o + 8 < 2 ^ 64) (hD : D.length < 2 ^ 63) :
    readUlong (d.on D o e) = .ok v d' ↔
      Laid D o (Cdr.ulong e v) ∧ d' = d.on D (roundUp 4 o + 4) e :=
  ok_iff_of_found (fun _ hv => readUlong_on hv (by omega))
    ((CDRDecoder.readUlong_cases ho).imp_right fun h => (raises_read h).error)

theorem readUshort_ok_iff {v : UInt16} (ho : o + 8 < 2 ^ 64) (hD : D.length < 2 ^ 63) :
    readUshort (d.on D o e) = .ok v d' ↔
      Laid D o (Cdr.ushort e v) ∧ d' = d.on D (roundUp 2 o + 2) e :=
  ok_iff_of_found (fun _ hv => readUshort_on hv (by omega))
    ((CDRDecoder.readUshort_cases ho).imp_right fun h => (raises_read h).error)

theorem readBlobView_ok_iff {view : View} (ho : o + 8 < 2 ^ 64) (hD : D.length < 2 ^ 63) :
    readBlobView (d.on D o e) = .ok view d' ↔
      ∃ v : Octets, (Laid D o (Cdr.blob e v) ∧ v.length < 2 ^ 32) ∧
        view = ⟨roundUp 4 o + 4, v.length⟩ ∧ d' = d.on D (roundUp 4 o + 4 + v.length) e :=
  ok_iff_of_cases (fun _ hv => readBlobView_on hv.1 hv.2 (by omega))
    ((CDRDecoder.readBlobView_cases ho hD).imp_right fun h => (raises_read h).error)

/-- A string that can be read again is one that lies in the message. -/
theorem readStringView_ok_iff {view : View} (ho : o + 8 < 2 ^ 64) (hD : D.length < 2 ^ 63) :
    readStringView (d.on D o e) = .ok view d' ∧ ¬ view.Endless ↔
      ∃ v : Octets, (Laid D o (Cdr.stringOpen e v) ∧ v.length + 1 < 2 ^ 32 ∧
          extent o (Cdr.stringOpen e v) ≤ D.length) ∧
        view = ⟨roundUp 4 o + 4, v.length⟩ ∧ d' = d.on D (extent o (Cdr.stringOpen e v)) e := by
  have hopen : ∀ v : Octets, Laid D o (Cdr.stringOpen e v) ∧ v.length + 1 < 2 ^ 32 ∧
      extent o (Cdr.stringOpen e v) ≤ D.length → readStringView (d.on D o e) =
        .ok ⟨roundUp 4 o + 4, v.length⟩ (d.on D (extent o (Cdr.stringOpen e v)) e) := by
    rintro v ⟨hv, hfits, hle⟩
    exact read_on (CDRDecoder.readStringView_open hv hfits hle (by omega))
  constructor
  · rintro ⟨hread, hendless⟩
    rcases CDRDecoder.readStringView_cases (D := D) (e := e) ho hD with hlaid | hzero | hraise
    · exact (ok_iff_of_cases hopen (.inl hlaid)).1 hread
    · have hview : readStringView (d.on D o e) = _ :=
        read_on (CDRDecoder.readStringView_zero hzero (by omega))
      rw [hview] at hread
      cases hread
      exact absurd rfl hendless
    · obtain ⟨fault, t, hfault⟩ := (raises_read (d := d.on D o e) hraise).error
      rw [show readStringView (d.on D o e) = _ from hfault] at hread
      cases hread
  · rintro ⟨v, hv, rfl, rfl⟩
    exact ⟨hopen v hv, View.not_endless_of_fits hv.2.1⟩

/-- **A string is read, and can be read again, exactly if it lies in the message.** -/
theorem readStringView_laid_iff (ho : o + 8 < 2 ^ 64) (hD : D.length < 2 ^ 63) :
    (∃ view d', readStringView (d.on D o e) = .ok view d' ∧ ¬ view.Endless) ↔
      Giop.StringLaid D e o := by
  constructor
  · rintro ⟨view, d', h⟩
    obtain ⟨v, hv, -, -⟩ := (readStringView_ok_iff ho hD).1 h
    exact ⟨v, hv⟩
  · rintro ⟨v, hv⟩
    exact ⟨_, _, (readStringView_ok_iff ho hD).2 ⟨v, hv, rfl, rfl⟩⟩

/-! ### Service contexts -/

variable {n o' : ℕ} {c c' : Connection}

/-- **Listen points are read exactly if they lie in the message.** -/
theorem listenPoints_ok_iff (ho : o ≤ D.length) (hD : D.length < 2 ^ 63)
    (hc : d.connection = some c) (hhost : c.remote.host.length < 2 ^ 63) :
    times readListenPoint n (d.on D o e) = .ok () d' ↔
      ∃ o' c', Giop.ListenPoints D e n o c o' c' ∧
        d' = ({ d with connection := some c' } : GIOPDecoder).on D o' e := by
  constructor
  · intro h
    induction n generalizing o d c with
    | zero =>
        cases h
        exact ⟨o, c, .done o c, by rw [← hc]⟩
    | succ n ih =>
        obtain ⟨u, d₁, hpoint, hrest⟩ := bind_eq_ok.1 h
        rcases readListenPoint_cases (d := d) (e := e) ho hD hc hhost with
          ⟨a, hlaid, hfits⟩ | hlaid | ⟨f, d₂, hfault⟩
        · rw [readListenPoint_open hlaid hfits (by omega) hc] at hpoint
          cases hpoint
          have hle : extent o (Cdr.stringOpen e a.host ++ Cdr.ushort e a.port) ≤ D.length :=
            Giop.point_le hlaid
          obtain ⟨o', c', hpoints, rfl⟩ := ih (d := { d with connection := some (c.adopt a) }) hle
            rfl (length_adopt hhost hfits) hrest
          exact ⟨o', c', .point hlaid hfits hpoints, rfl⟩
        · rw [readListenPoint_nameless hlaid (by omega) hc hhost, if_pos rfl] at hpoint
          cases hpoint
          obtain ⟨o', c', hpoints, rfl⟩ := ih (Giop.nameless_le hlaid) hc hhost hrest
          exact ⟨o', c', .nameless hlaid hpoints, rfl⟩
        · rw [hfault] at hpoint
          cases hpoint
  · rintro ⟨o', c', h, rfl⟩
    induction h generalizing d with
    | done o c =>
        rw [← hc]
        rfl
    | nameless hpoint hrest ih =>
        rw [times_nameless _ hpoint hD hc hhost]
        exact ih (Giop.nameless_le hpoint) hc hhost
    | @point n o o' c c' a hpoint hfits hrest ih =>
        rw [times_point _ hpoint hfits hD hc]
        exact ih (d := { d with connection := some (c.adopt a) }) (Giop.point_le hpoint) rfl
          (length_adopt hhost hfits)

/-- Of a service context the listen points are read, and of another one nothing. -/
theorem context_ok_iff {id : UInt32} (ho : o ≤ D.length) (hD : D.length < 2 ^ 63)
    (hc : d.connection = some c) (hhost : c.remote.host.length < 2 ^ 63) :
    readServiceContextBody id (d.on D o e) = .ok () d' ↔
      (ServiceId.ofUlong id ≠ .biDirIIOP ∧ d' = d.on D o e) ∨
      (ServiceId.ofUlong id = .biDirIIOP ∧ ∃ count p c₁, Laid D o (Cdr.ulong e count) ∧
        Giop.ListenPoints D e count.toNat (roundUp 4 o + 4) c p c₁ ∧
        d' = ({ d with connection := some c₁ } : GIOPDecoder).on D p e) := by
  by_cases hid : ServiceId.ofUlong id = .biDirIIOP
  · rw [or_iff_right (fun h => h.1 hid), and_iff_right hid, readServiceContextBody, hid]
    refine bind_eq_ok.trans ⟨?_, ?_⟩
    · rintro ⟨count, d₁, hcount, hpoints⟩
      obtain ⟨hlaid, rfl⟩ := (readUlong_ok_iff (by omega) hD).1 hcount
      obtain ⟨p, c₁, hlaid', rfl⟩ :=
        (listenPoints_ok_iff (Cdr.laid_ulong_le hlaid) hD hc hhost).1 hpoints
      exact ⟨count, p, c₁, hlaid, hlaid', rfl⟩
    · rintro ⟨count, p, c₁, hlaid, hlaid', rfl⟩
      exact ⟨count, _, (readUlong_ok_iff (by omega) hD).2 ⟨hlaid, rfl⟩,
        (listenPoints_ok_iff (Cdr.laid_ulong_le hlaid) hD hc hhost).2 ⟨p, c₁, hlaid', rfl⟩⟩
  · rw [readServiceContextBody_other hid, or_iff_left (fun h => hid h.1), and_iff_right hid]
    constructor
    · intro h
      cases h
      rfl
    · rintro rfl
      rfl

/-- What is read of an encapsulation whose head lies in the message. -/
theorem encapsulation_ok_iff {closure : UInt32 → ScanM Unit} {id size : UInt32} {flags : UInt8}
    (hhead : Laid D o (Giop.profileHead e id size flags)) (hD : D.length < 2 ^ 63) :
    readEncapsulation closure (d.on D o e) = .ok () d' ↔
      ∃ d₁, closure id (d.on D (roundUp 4 o + 9) (Giop.order flags)) = .ok () d₁ ∧
        d' = d₁.on d₁.buffer.data (Giop.nextProfile o size) e := by
  rw [readEncapsulation_head hhead (by omega), bind_eq_ok]
  constructor
  · rintro ⟨u, d₁, hclosure, hrest⟩
    cases hrest
    exact ⟨d₁, hclosure, rfl⟩
  · rintro ⟨d₁, hclosure, rfl⟩
    exact ⟨(), d₁, hclosure, rfl⟩

/-- An encapsulation the head of which does not lie in the message is not read. -/
theorem encapsulation_head {closure : UInt32 → ScanM Unit} (ho : o + 8 < 2 ^ 64)
    (hD : D.length < 2 ^ 63) (h : readEncapsulation closure (d.on D o e) = .ok () d') :
    ∃ id size flags, Laid D o (Giop.profileHead e id size flags) := by
  rcases profileHead_cases (d := d) (e := e) ho hD with hhead | ⟨id, size, hnumbers, hend⟩ | hraise
  · exact hhead
  · -- the octet of the byte order is read without a check
    rw [readEncapsulation, readNumbers hnumbers (by omega), get_bind,
      bind_error (readOctet_overread hend.le)] at h
    cases h
  · obtain ⟨t, d₁, hrun⟩ := hraise closure
    rw [hrun] at h
    cases h

/-- **Service contexts are read exactly if they lie in the message.** -/
theorem contexts_ok_iff (ho : o ≤ D.length + 2 ^ 32) (hD : D.length < 2 ^ 63)
    (hc : d.connection = some c) (hhost : c.remote.host.length < 2 ^ 63) :
    times (readEncapsulation readServiceContextBody) n (d.on D o e) = .ok () d' ↔
      ∃ o' c', Giop.Contexts D e n o c o' c' ∧
        d' = ({ d with connection := some c' } : GIOPDecoder).on D o' e := by
  constructor
  · intro h
    induction n generalizing o d c with
    | zero =>
        cases h
        exact ⟨o, c, .done o c, by rw [← hc]⟩
    | succ n ih =>
        obtain ⟨u, d₁, hfirst, hrest⟩ := bind_eq_ok.1 h
        obtain ⟨id, size, flags, hhead⟩ := encapsulation_head (by omega) hD hfirst
        obtain ⟨hin, hnext⟩ := Giop.head_le hhead hD
        obtain ⟨d₂, hclosure, rfl⟩ := (encapsulation_ok_iff hhead hD).1 hfirst
        rcases (context_ok_iff hin hD hc hhost).1 hclosure with
          ⟨hid, rfl⟩ | ⟨hid, count, p, c₁, hcount, hpoints, rfl⟩
        · obtain ⟨o', c', hcontexts, rfl⟩ := ih hnext hc hhost hrest
          exact ⟨o', c', .other hhead hid hcontexts, rfl⟩
        · obtain ⟨o', c', hcontexts, rfl⟩ := ih (d := { d with connection := some c₁ }) hnext rfl
            (hpoints.host_lt hhost) hrest
          exact ⟨o', c', .listenPoints hhead hid hcount hpoints hcontexts, rfl⟩
  · rintro ⟨o', c', h, rfl⟩
    induction h generalizing d with
    | done o c =>
        rw [← hc]
        rfl
    | @other n o o' c c' id size flags hhead hid hrest ih =>
        obtain ⟨-, hnext⟩ := Giop.head_le hhead hD
        have hbody := readServiceContextBody_other hid (d.on D (roundUp 4 o + 9) (Giop.order flags))
        rw [times, bind_ok ((encapsulation_ok_iff hhead hD).2 ⟨_, hbody, rfl⟩)]
        exact ih hnext hc hhost
    | @listenPoints n o p o' c c₁ c' id size count flags hhead hid hcount hpoints hrest ih =>
        obtain ⟨hin, hnext⟩ := Giop.head_le hhead hD
        have hbody := (context_ok_iff hin hD hc hhost).2
          (.inr ⟨hid, count, p, c₁, hcount, hpoints, rfl⟩)
        rw [times, bind_ok ((encapsulation_ok_iff hhead hD).2 ⟨_, hbody, rfl⟩)]
        exact ih (d := { d with connection := some c₁ }) hnext rfl (hpoints.host_lt hhost)

theorem readServiceContext_ok_iff (ho : o ≤ D.length + 2 ^ 32) (hD : D.length < 2 ^ 63)
    (hc : d.connection = some c) (hhost : c.remote.host.length < 2 ^ 63) :
    readServiceContext (d.on D o e) = .ok () d' ↔
      ∃ o' c', Giop.ContextList D e o c o' c' ∧
        d' = ({ d with connection := some c' } : GIOPDecoder).on D o' e := by
  refine bind_eq_ok.trans ⟨?_, ?_⟩
  · rintro ⟨count, d₁, hcount, hcontexts⟩
    obtain ⟨hlaid, rfl⟩ := (readUlong_ok_iff (by omega) hD).1 hcount
    have hle := Cdr.laid_ulong_le hlaid
    obtain ⟨o', c', hlaid', rfl⟩ := (contexts_ok_iff (by omega) hD hc hhost).1 hcontexts
    exact ⟨o', c', ⟨count, hlaid, hlaid'⟩, rfl⟩
  · rintro ⟨o', c', ⟨count, hlaid, hlaid'⟩, rfl⟩
    have hle := Cdr.laid_ulong_le hlaid
    exact ⟨count, _, (readUlong_ok_iff (by omega) hD).2 ⟨hlaid, rfl⟩,
      (contexts_ok_iff (by omega) hD hc hhost).2 ⟨o', c', hlaid', rfl⟩⟩

/-! ### Headers -/

/-- The target of a request is a key. -/
theorem readTarget_ok_iff {view : View} (ho : o + 8 < 2 ^ 64) (hD : D.length < 2 ^ 63) :
    readTarget (d.on D o e) = .ok view d' ↔
      ∃ v : Octets, (Laid D o (Cdr.ushort e AddressingDisposition.keyAddr.toUshort ++
          Cdr.blob e v) ∧ v.length < 2 ^ 32) ∧
        view = ⟨roundUp 4 (roundUp 2 o + 2) + 4, v.length⟩ ∧
        d' = d.on D (roundUp 4 (roundUp 2 o + 2) + 4 + v.length) e := by
  constructor
  · intro h
    obtain ⟨code, d₁, hcode, h⟩ := bind_eq_ok.1 h
    obtain ⟨hlaid, rfl⟩ := (readUshort_ok_iff ho hD).1 hcode
    have hle := Giop.ushort_le hlaid
    cases hdisposition : AddressingDisposition.ofUshort code with
    | keyAddr =>
        rw [hdisposition] at h
        obtain ⟨v, ⟨hblob, hv⟩, hview, rfl⟩ := (readBlobView_ok_iff (by omega) hD).1 h
        rw [AddressingDisposition.eq_keyAddr hdisposition] at hlaid
        refine ⟨v, ⟨laid_append.2 ⟨hlaid, ?_⟩, hv⟩, hview, rfl⟩
        rw [Cdr.extent_ushort]
        exact hblob
    | profileAddr | referenceAddr | unknown code hcode =>
        rw [hdisposition] at h
        cases h
  · rintro ⟨v, ⟨hlaid, hv⟩, rfl, rfl⟩
    exact readTarget_run hlaid hv (by omega)

section Requests

variable {requestId principalLength : UInt32} {responseFlags : UInt8} {objectKey operation : Octets}

omit [Platform] in
/-- The fields of a request up to GIOP 1.1, one after the other. -/
theorem laid_requestBack :
    Laid D o (Giop.requestBack e requestId responseFlags objectKey operation principalLength) ↔
      Laid D o (Cdr.ulong e requestId) ∧
      Laid D (roundUp 4 o + 4) (Cdr.octet responseFlags) ∧
      Laid D (roundUp 4 o + 4 + 1 + 3) (Cdr.blob e objectKey) ∧
      Laid D (roundUp 4 (roundUp 4 o + 4 + 1 + 3) + 4 + objectKey.length)
        (Cdr.stringOpen e operation) ∧
      Laid D (extent (roundUp 4 (roundUp 4 o + 4 + 1 + 3) + 4 + objectKey.length)
        (Cdr.stringOpen e operation)) (Cdr.ulong e principalLength) := by
  simp only [Giop.requestBack, Giop.requestFront, laid_append, extent_append, Cdr.extent_ulong,
    Cdr.extent_octet, Cdr.extent_blob, extent_skip, extent_nil, laid_skip, laid_nil, and_true,
    and_assoc]

omit [Platform] in
theorem extent_requestBack :
    extent o (Giop.requestBack e requestId responseFlags objectKey operation principalLength) =
      roundUp 4 (extent (roundUp 4 (roundUp 4 o + 4 + 1 + 3) + 4 + objectKey.length)
        (Cdr.stringOpen e operation)) + 4 := by
  simp only [Giop.requestBack, Giop.requestFront, extent_append, Cdr.extent_ulong,
    Cdr.extent_octet, Cdr.extent_blob, extent_skip, extent_nil]

omit [Platform] in
/-- The fields since GIOP 1.2. -/
theorem laid_requestFields :
    Laid D 12 (Giop.requestFields e requestId responseFlags objectKey operation) ↔
      Laid D 12 (Cdr.ulong e requestId) ∧ Laid D 16 (Cdr.octet responseFlags) ∧
      Laid D 20 (Cdr.ushort e AddressingDisposition.keyAddr.toUshort ++ Cdr.blob e objectKey) ∧
      Laid D (28 + objectKey.length) (Cdr.stringOpen e operation) := by
  have h16 : roundUp 4 12 + 4 = 16 := rfl
  have h22 : roundUp 2 (16 + 1 + 3) + 2 = 22 := rfl
  have h28 : roundUp 4 22 + 4 = 28 := rfl
  simp only [Giop.requestFields, Giop.requestFront, laid_append, extent_append, Cdr.extent_ulong,
    Cdr.extent_octet, Cdr.extent_ushort, Cdr.extent_blob, extent_skip, extent_nil, laid_skip,
    laid_nil, and_true, and_assoc, h16, h22, h28]

omit [Platform] in
theorem extent_requestFields :
    extent 12 (Giop.requestFields e requestId responseFlags objectKey operation) =
      extent (28 + objectKey.length) (Cdr.stringOpen e operation) := by
  have h22 : roundUp 2 (roundUp 4 12 + 4 + 1 + 3) + 2 = 22 := rfl
  have h28 : roundUp 4 22 + 4 = 28 := rfl
  simp only [Giop.requestFields, Giop.requestFront, extent_append, Cdr.extent_ulong,
    Cdr.extent_octet, Cdr.extent_ushort, Cdr.extent_blob, extent_skip, extent_nil, h22, h28]

end Requests

/-- A request up to GIOP 1.1 that is scanned. -/
theorem scanRequestHeader_laid_legacy {request : RequestHeader} (hl : d.isLegacy = true)
    (hD : D.length < 2 ^ 63) (hc : d.connection = some c)
    (hhost : c.remote.host.length < 2 ^ 63)
    (h : scanRequestHeader (d.on D 12 e) = .ok request d') (hop : ¬ request.operation.Endless) :
    ∃ o' c', Giop.RequestLaid D e c true (request.objectKey.of D) (request.operation.of D)
        o' c' ∧ d' = ({ d with connection := some c' } : GIOPDecoder).on D o' e := by
  rw [scanRequestHeader, get_bind] at h
  have hl' : (d.on D 12 e).isLegacy = true := hl
  simp only [hl', if_true] at h
  obtain ⟨u, d₁, hrun, h⟩ := bind_eq_ok.1 h
  obtain ⟨o, c', hcontexts, rfl⟩ := (readServiceContext_ok_iff (by omega) hD hc hhost).1 hrun
  have hle := hcontexts.end_le hD
  obtain ⟨requestId, d₁, hrun, h⟩ := bind_eq_ok.1 h
  obtain ⟨hid, rfl⟩ := (readUlong_ok_iff (by omega) hD).1 hrun
  have hle := Cdr.laid_ulong_le hid
  obtain ⟨flags, d₁, hrun, h⟩ := bind_eq_ok.1 h
  obtain ⟨hflags, rfl⟩ := (readOctet_ok_iff hD).1 hrun
  rw [read_modify_bind, skip_on 3 (by omega)] at h
  obtain ⟨key, d₁, hrun, h⟩ := bind_eq_ok.1 h
  obtain ⟨objectKey, ⟨hkey, hkeyfits⟩, rfl, rfl⟩ := (readBlobView_ok_iff (by omega) hD).1 hrun
  have hle := Giop.blob_le hkey
  obtain ⟨view, d₁, hrun, h⟩ := bind_eq_ok.1 h
  obtain ⟨length, d₂, hrest, h⟩ := bind_eq_ok.1 h
  cases h
  obtain ⟨operation, ⟨hoperation, hopfits, hin⟩, rfl, rfl⟩ :=
    (readStringView_ok_iff (by omega) hD).1 ⟨hrun, hop⟩
  obtain ⟨hprincipal, rfl⟩ := (readUlong_ok_iff (by omega) hD).1 hrest
  have hlaid := Giop.RequestLaid.legacy hcontexts
    (laid_requestBack.2 ⟨hid, hflags, hkey, hoperation, hprincipal⟩) hkeyfits hopfits
  rw [extent_requestBack] at hlaid
  refine ⟨_, c', ?_, rfl⟩
  rw [View.of, View.of, (at_blob hkey).take_drop,
    (CDRDecoder.at_stringOpen hoperation).take_drop]
  exact hlaid

/-- A request since GIOP 1.2 that is scanned. -/
theorem scanRequestHeader_laid_later {request : RequestHeader} (hl : d.isLegacy = false)
    (hD : D.length < 2 ^ 63) (hc : d.connection = some c)
    (hhost : c.remote.host.length < 2 ^ 63)
    (h : scanRequestHeader (d.on D 12 e) = .ok request d') (hop : ¬ request.operation.Endless) :
    ∃ o' c', Giop.RequestLaid D e c false (request.objectKey.of D) (request.operation.of D)
        o' c' ∧ d' = ({ d with connection := some c' } : GIOPDecoder).on D o' e := by
  rw [scanRequestHeader, get_bind] at h
  have hl' : (d.on D 12 e).isLegacy = false := hl
  simp only [hl', Bool.false_eq_true, if_false] at h
  obtain ⟨requestId, d₁, hrun, h⟩ := bind_eq_ok.1 h
  obtain ⟨hid, rfl⟩ := (readUlong_ok_iff (by decide) hD).1 hrun
  obtain ⟨flags, d₁, hrun, h⟩ := bind_eq_ok.1 h
  obtain ⟨hflags, rfl⟩ := (readOctet_ok_iff hD).1 hrun
  rw [read_modify_bind, skip_on 3 (by decide)] at h
  obtain ⟨key, d₁, hrun, h⟩ := bind_eq_ok.1 h
  obtain ⟨objectKey, ⟨hkey, hkeyfits⟩, rfl, rfl⟩ := (readTarget_ok_iff (by decide) hD).1 hrun
  -- up to the key, every field has a place of its own
  have hblob := (laid_append.1 hkey).2
  rw [show extent _ (Cdr.ushort e AddressingDisposition.keyAddr.toUshort) = 22 from
    Cdr.extent_ushort _ _ _] at hblob
  have hle : 28 + objectKey.length ≤ D.length := Giop.blob_le hblob
  obtain ⟨view, d₁, hrun, h⟩ := bind_eq_ok.1 h
  obtain ⟨u, d₂, hrest, h⟩ := bind_eq_ok.1 h
  rw [read_modify_bind] at h
  cases h
  obtain ⟨operation, ⟨hoperation, hopfits, hin⟩, rfl, rfl⟩ :=
    (readStringView_ok_iff (show 28 + objectKey.length + 8 < 2 ^ 64 by omega) hD).1 ⟨hrun, hop⟩
  obtain ⟨o, c', hcontexts, rfl⟩ := (readServiceContext_ok_iff
    (show extent (28 + objectKey.length) (Cdr.stringOpen e operation) ≤ _ by omega)
    hD hc hhost).1 hrest
  have hround := roundUp_lt (a := 8) (by decide) o
  have hle := hcontexts.end_le hD
  have hlaid := Giop.RequestLaid.later (laid_requestFields.2 ⟨hid, hflags, hkey, hoperation⟩)
    hkeyfits hopfits (extent_requestFields ▸ hcontexts)
  refine ⟨roundUp 8 o, c', ?_, align8_on (by omega) _⟩
  have hkeyOf : View.of D ⟨28, objectKey.length⟩ = objectKey := (at_blob hblob).take_drop
  have hopOf : View.of D ⟨roundUp 4 (28 + objectKey.length) + 4, operation.length⟩ = operation :=
    (CDRDecoder.at_stringOpen hoperation).take_drop
  rw [← hkeyOf, ← hopOf] at hlaid
  exact hlaid

/-- **A request that is scanned and whose operation can be read lies in the message.** -/
theorem scanRequestHeader_laid {request : RequestHeader}
    (hD : D.length < 2 ^ 63) (hc : d.connection = some c)
    (hhost : c.remote.host.length < 2 ^ 63)
    (h : scanRequestHeader (d.on D 12 e) = .ok request d') (hop : ¬ request.operation.Endless) :
    ∃ o' c', Giop.RequestLaid D e c d.isLegacy (request.objectKey.of D) (request.operation.of D)
        o' c' ∧ d' = ({ d with connection := some c' } : GIOPDecoder).on D o' e := by
  cases hl : d.isLegacy with
  | true => exact scanRequestHeader_laid_legacy hl hD hc hhost h hop
  | false => exact scanRequestHeader_laid_later hl hD hc hhost h hop

/-- **A request that lies in the message is scanned.** -/
theorem scanRequestHeader_of_laid {legacy : Bool} {objectKey operation : Octets}
    (hD : D.length < 2 ^ 63) (hl : d.isLegacy = legacy) (hc : d.connection = some c)
    (hhost : c.remote.host.length < 2 ^ 63)
    (h : Giop.RequestLaid D e c legacy objectKey operation o' c') :
    ∃ request, scanRequestHeader (d.on D 12 e) =
        .ok request (({ d with connection := some c' } : GIOPDecoder).on D o' e) ∧
      request.objectKey.of D = objectKey ∧ request.operation.of D = operation ∧
      ¬ request.operation.Endless := by
  have hl' : (d.on D 12 e).isLegacy = legacy := hl
  cases h with
  | @legacy o c' requestId principalLength flags objectKey operation hcontexts hfields hkeyfits
      hopfits =>
      obtain ⟨hid, hflags, hkey, hoperation, hprincipal⟩ := laid_requestBack.1 hfields
      have hin := le_roundUp 4 (extent (roundUp 4 (roundUp 4 o + 4 + 1 + 3) + 4 + objectKey.length)
        (Cdr.stringOpen e operation))
      have hle := Cdr.laid_ulong_le hprincipal
      have hend := Giop.blob_le hkey
      have hopen := le_roundUp 4 (roundUp 4 o + 4 + 1 + 3)
      have hrun := (readServiceContext_ok_iff (d := d) (by omega) hD hc hhost).2
        ⟨o, c', hcontexts, rfl⟩
      refine ⟨⟨requestId, responseExpectedOf true flags, ⟨_, _⟩, ⟨_, _⟩⟩, ?_,
        (at_blob hkey).take_drop, (CDRDecoder.at_stringOpen hoperation).take_drop,
        View.not_endless_of_fits hopfits⟩
      rw [scanRequestHeader, get_bind]
      simp only [hl', if_true]
      rw [bind_ok hrun, bind_ok (readUlong_on hid (by omega)),
        bind_ok (readOctet_on hflags (by omega)), read_modify_bind, skip_on 3 (by omega),
        bind_ok (readBlobView_on hkey hkeyfits (by omega)),
        bind_ok ((readStringView_ok_iff (by omega) hD).2
          ⟨operation, ⟨hoperation, hopfits, by omega⟩, rfl, rfl⟩).1,
        bind_ok (readUlong_on hprincipal (by omega)), pure_run, extent_requestBack]
  | @later o c' requestId flags objectKey operation hfields hkeyfits hopfits hcontexts =>
      obtain ⟨hid, hflags, hkey, hoperation⟩ := laid_requestFields.1 hfields
      have hblob := (laid_append.1 hkey).2
      rw [Cdr.extent_ushort] at hblob
      rw [extent_requestFields] at hcontexts
      have hin := le_roundUp 4 (extent (28 + objectKey.length) (Cdr.stringOpen e operation))
      have hle := Cdr.laid_ulong_le hcontexts.choose_spec.1
      have hend : 28 + objectKey.length ≤ D.length := Giop.blob_le hblob
      have hround := roundUp_lt (a := 8) (by decide) o
      have hnear := hcontexts.end_le hD
      have hrun := (readServiceContext_ok_iff (by omega) hD hc hhost).2 ⟨o, c', hcontexts, rfl⟩
      refine ⟨⟨requestId, responseExpectedOf false flags, ⟨28, _⟩, ⟨_, _⟩⟩, ?_,
        (at_blob hblob).take_drop, (CDRDecoder.at_stringOpen hoperation).take_drop,
        View.not_endless_of_fits hopfits⟩
      have h16 : roundUp 4 12 + 4 = 16 := rfl
      have htarget : readTarget (d.on D (16 + 1 + 3) e) =
          .ok ⟨28, objectKey.length⟩ (d.on D (28 + objectKey.length) e) :=
        readTarget_run hkey hkeyfits (by omega)
      rw [scanRequestHeader, get_bind]
      simp only [hl', Bool.false_eq_true, if_false]
      rw [bind_ok (readUlong_on hid (by omega)), h16, bind_ok (readOctet_on hflags (by omega)),
        read_modify_bind, skip_on 3 (by decide), bind_ok htarget,
        bind_ok ((readStringView_ok_iff (by omega) hD).2
          ⟨operation, ⟨hoperation, hopfits, by omega⟩, rfl, rfl⟩).1, bind_ok hrun,
        read_modify_bind, align8_on (by omega), pure_run]

/-- The two numbers in the header of a reply, and what comes behind them. -/
theorem replyFields_ends {α : Type} (f : UInt32 → UInt32 → ScanM α) (ho : o + 8 < 2 ^ 64)
    (hD : D.length < 2 ^ 63) :
    (∃ a d', (do
        let requestId ← readUlong
        modify ({ · with requestId })
        let status ← readUlong
        modify ({ · with replyStatus := ReplyStatus.ofUlong status })
        f requestId status : ScanM α) (d.on D o e) = .ok a d') ↔
      ∃ requestId status, Laid D o (Cdr.ulong e requestId ++ Cdr.ulong e status) ∧
        ∃ a d', f requestId status ({ d with
          requestId := requestId, replyStatus := ReplyStatus.ofUlong status }.on D
            (roundUp 4 (roundUp 4 o + 4) + 4) e) = .ok a d' := by
  constructor
  · rintro ⟨a, d', h⟩
    obtain ⟨requestId, d₁, hrun, h⟩ := bind_eq_ok.1 h
    obtain ⟨hid, rfl⟩ := (readUlong_ok_iff ho hD).1 hrun
    have hle := Cdr.laid_ulong_le hid
    rw [modify_bind] at h
    obtain ⟨status, d₁, hrun, h⟩ := bind_eq_ok.1 h
    obtain ⟨hstatus, rfl⟩ := (readUlong_ok_iff (d := { d with requestId := requestId })
      (by omega) hD).1 hrun
    refine ⟨requestId, status, laid_append.2 ⟨hid, ?_⟩, a, d', h⟩
    rw [Cdr.extent_ulong]
    exact hstatus
  · rintro ⟨requestId, status, hlaid, a, d', h⟩
    obtain ⟨hid, hstatus⟩ := laid_append.1 hlaid
    rw [Cdr.extent_ulong] at hstatus
    refine ⟨a, d', ?_⟩
    rw [bind_ok (readUlong_on hid (by omega)), modify_bind]
    exact (bind_ok (readUlong_on (d := { d with requestId := requestId }) hstatus (by omega))
      _).trans h

/-- **A header of a reply is scanned exactly if it lies in the message.** -/
theorem scanReplyHeader_ends_iff (hD : D.length < 2 ^ 63) (hc : d.connection = some c)
    (hhost : c.remote.host.length < 2 ^ 63) :
    (∃ reply d', scanReplyHeader (d.on D 12 e) = .ok reply d') ↔
      Giop.ReplyLaid D e c d.majorVersion d.minorVersion := by
  rw [scanReplyHeader, get_bind]
  by_cases hold : d.majorVersion = 1 ∧ d.minorVersion ≤ 1
  · have hl : (d.on D 12 e).isLegacy = true := by simp [isLegacy, hold.1, hold.2]
    have hnew : ¬ (d.majorVersion = 1 ∧ d.minorVersion ≥ 2) := by omega
    simp only [hl, hnew, if_true, if_false]
    constructor
    · rintro ⟨reply, d', h⟩
      obtain ⟨u, d₁, hrun, h⟩ := bind_eq_ok.1 h
      obtain ⟨o, c', hcontexts, rfl⟩ := (readServiceContext_ok_iff (by omega) hD hc hhost).1 hrun
      have hle := hcontexts.end_le hD
      obtain ⟨requestId, status, hfields, -⟩ :=
        (replyFields_ends (fun requestId status => pure
          (⟨requestId, ReplyStatus.ofUlong status⟩ : ReplyHeader)) (by omega) hD).1 ⟨_, _, h⟩
      exact .legacy hold hcontexts hfields
    · intro h
      cases h with
      | @legacy o c' requestId status hversion hcontexts hfields =>
          have hle := hcontexts.end_le hD
          have hrun := (readServiceContext_ok_iff (d := d) (by omega) hD hc hhost).2
            ⟨o, c', hcontexts, rfl⟩
          obtain ⟨reply, d', h⟩ := (replyFields_ends (d := { d with connection := some c' })
            (fun requestId status => pure (⟨requestId, ReplyStatus.ofUlong status⟩ : ReplyHeader))
            (by omega) hD).2 ⟨requestId, status, hfields, _, _, rfl⟩
          exact ⟨reply, d', (bind_ok hrun _).trans h⟩
      | later hversion => exact absurd hversion hnew
      | other hversion => exact absurd hold.1 hversion
  · have hl : (d.on D 12 e).isLegacy = false := by
      simp only [isLegacy, Bool.and_eq_false_iff, beq_eq_false_iff_ne, decide_eq_false_iff_not]
      omega
    simp only [hl, Bool.false_eq_true, if_false]
    have h20 : roundUp 4 (roundUp 4 12 + 4) + 4 = 20 := rfl
    refine (replyFields_ends (fun requestId status => (do
      if d.majorVersion = 1 ∧ d.minorVersion ≥ 2 then
        readServiceContext
      return (⟨requestId, ReplyStatus.ofUlong status⟩ : ReplyHeader) : ScanM ReplyHeader))
      (by decide) hD).trans ⟨?_, ?_⟩
    · rintro ⟨requestId, status, hfields, reply, d', h⟩
      by_cases hnew : d.majorVersion = 1 ∧ d.minorVersion ≥ 2
      · rw [if_pos hnew, h20] at h
        obtain ⟨u, d₁, hrun, -⟩ := bind_eq_ok.1 h
        obtain ⟨o, c', hcontexts, -⟩ := (readServiceContext_ok_iff (d := { d with
          requestId := requestId, replyStatus := ReplyStatus.ofUlong status }) (by omega) hD hc
          hhost).1 hrun
        exact .later hnew hfields hcontexts
      · exact .other (by omega) hfields
    · intro h
      cases h with
      | legacy hversion => exact absurd hversion hold
      | @later o c' requestId status hversion hfields hcontexts =>
          have hrun := (readServiceContext_ok_iff (d := { d with
            requestId := requestId, replyStatus := ReplyStatus.ofUlong status }) (by omega) hD hc
            hhost).2 ⟨o, c', hcontexts, rfl⟩
          refine ⟨requestId, status, hfields, ?_⟩
          rw [if_pos hversion, h20]
          exact ⟨_, _, bind_ok hrun _⟩
      | @other requestId status hversion hfields =>
          refine ⟨requestId, status, hfields, ?_⟩
          rw [if_neg fun hnew => hversion hnew.1]
          exact ⟨_, _, rfl⟩

/-- **A locate request is scanned exactly if it lies in the message.** -/
theorem scanLocateRequest_ends_iff {legacy : Bool} (hD : D.length < 2 ^ 63)
    (hl : d.isLegacy = legacy) :
    (∃ located d', scanLocateRequest (d.on D 12 e) = .ok located d') ↔
      Giop.LocateLaid D e legacy := by
  obtain ⟨buffer, c, major, minor, t, l, i, s⟩ := d
  have hlegacy : ∀ (b : CDRDecoder) (requestId : UInt32),
      isLegacy ⟨b, c, major, minor, t, l, requestId, s⟩ = legacy := fun _ _ => hl
  rw [scanLocateRequest]
  constructor
  · rintro ⟨located, d', h⟩
    obtain ⟨requestId, d₁, hrun, h⟩ := bind_eq_ok.1 h
    obtain ⟨hid, rfl⟩ := (readUlong_ok_iff (by decide) hD).1 hrun
    rw [modify_bind, get_bind] at h
    simp only [hlegacy] at h
    cases legacy with
    | true =>
        rw [if_pos rfl] at h
        obtain ⟨view, d₁, hrun, -⟩ := bind_eq_ok.1 h
        obtain ⟨v, ⟨hkey, hfits⟩, -, -⟩ := (readBlobView_ok_iff
          (d := ⟨buffer, c, major, minor, t, l, requestId, s⟩) (by decide) hD).1 hrun
        refine ⟨⟨requestId, v⟩, laid_append.2 ⟨hid, ?_⟩, hfits⟩
        rw [Cdr.extent_ulong]
        exact hkey
    | false =>
        rw [if_neg Bool.false_ne_true] at h
        obtain ⟨view, d₁, hrun, -⟩ := bind_eq_ok.1 h
        obtain ⟨v, ⟨hkey, hfits⟩, -, -⟩ := (readTarget_ok_iff
          (d := ⟨buffer, c, major, minor, t, l, requestId, s⟩) (by decide) hD).1 hrun
        refine ⟨⟨requestId, v⟩, laid_append.2 ⟨hid, ?_⟩, hfits⟩
        rw [Cdr.extent_ulong]
        exact hkey
  · rintro ⟨r, hlaid, hfits⟩
    obtain ⟨hid, hkey⟩ := laid_append.1 hlaid
    rw [Cdr.extent_ulong] at hkey
    rw [bind_ok (readUlong_on hid (by omega)), modify_bind, get_bind]
    simp only [hlegacy]
    cases legacy with
    | true =>
        rw [if_pos rfl]
        exact ⟨_, _, bind_ok (readBlobView_on
          (d := ⟨buffer, c, major, minor, t, l, r.requestId, s⟩) hkey hfits (by omega)) _⟩
    | false =>
        rw [if_neg Bool.false_ne_true]
        exact ⟨_, _, bind_ok (readTarget_run
          (d := ⟨buffer, c, major, minor, t, l, r.requestId, s⟩) hkey hfits (by omega)) _⟩

end GIOPDecoder

end Corba
