/-
Servants that come home.

An ORB that is handed a reference to one of its own servants is to use the servant itself.
`ORB::_narrow_servant` of `src/corba/orb.cc` looks for a connection by the near end the reference
names, and for the servant by the key.  On its way out and back the reference has been written by
two encoders: the first one has named the near end of its connection, the second one the far end of
its own.

Main definitions:

* `Corba.PooledConnection`, `Corba.OrbConnections` — the connections of an ORB;
* `Corba.ORB.narrowServant` — `_narrow_servant`;
* `Corba.OrbConnections.IsNear` — some connection has this near end.

Main results:

* `Corba.ORB.narrowServant_eq` — what is found;
* `Corba.reference_comes_home` — what a reference says that has been out and back;
* `Corba.servant_comes_home_iff` — when a servant is recognised, and when nothing else is.
-/

import Corba.Bidirectional
import Corba.References
import Corba.Registry

set_option relaxedAutoImplicit false
set_option autoImplicit false

namespace Corba

open Layout ByteOrder Placed Exec

/-! ### The connections of an ORB -/

variable {ω σ : Type}

/-- A connection, where it is, and the ORB its protocol is registered with. -/
structure PooledConnection (ω : Type) where
  address : ℕ
  connection : Connection
  protocolOrb : ω
  deriving DecidableEq

/-- The pool of an ORB goes through its connections in the order of their addresses.  They are made
by the protocols that are registered with the ORB. -/
structure OrbConnections (o : ω) where
  pool : List (PooledConnection ω)
  own : ∀ c ∈ pool, c.protocolOrb = o

/-- The host is handed over as `const char *`. -/
def ConnectionPool.findByLocal (host : CString) (port : UInt16) (pool : List (PooledConnection ω)) :
    Option (PooledConnection ω) :=
  pool.find? fun c =>
    c.connection.protocolLocal.host == host.1 && c.connection.protocolLocal.port == port

/-- `ORB::_narrow_servant`. -/
def ORB.narrowServant {o : ω} (connections : OrbConnections o) (w : World ω σ) (ref : IOR) :
    Option (ServantRef σ) :=
  match ConnectionPool.findByLocal (cString ref.host) ref.port connections.pool with
  | some conn0 => (w.registry conn0.protocolOrb).servants ref.objectKey
  | none => none

/-- Some connection has this near end. -/
def OrbConnections.IsNear {o : ω} (connections : OrbConnections o) (a : HostAndPort) : Prop :=
  ∃ c ∈ connections.pool, c.connection.protocolLocal = a

/-- The end a reference names. -/
def IOR.endpoint (ref : IOR) : HostAndPort := ⟨ref.host, ref.port⟩

/-- What is left of an end when the host is handed over as `const char *`. -/
def HostAndPort.cut (a : HostAndPort) : HostAndPort := ⟨(cString a.host).1, a.port⟩

namespace ORB

variable {o : ω} {connections : OrbConnections o}

theorem findByLocal_eq_none_iff (a : HostAndPort) :
    ConnectionPool.findByLocal (cString a.host) a.port connections.pool = none ↔
      ¬ connections.IsNear a.cut := by
  rw [ConnectionPool.findByLocal, List.find?_eq_none]
  constructor
  · rintro h ⟨c, hc, hnear⟩
    refine h c hc ?_
    rw [hnear]
    simp [HostAndPort.cut]
  · intro h c hc hmatch
    rw [Bool.and_eq_true, beq_iff_eq, beq_iff_eq] at hmatch
    exact h ⟨c, hc, (HostAndPort.eq_iff _ _).2 hmatch⟩

theorem narrowServant_near (w : World ω σ) {ref : IOR}
    (h : connections.IsNear ref.endpoint.cut) :
    narrowServant connections w ref = w.find o ref.objectKey := by
  rw [narrowServant]
  cases hfind : ConnectionPool.findByLocal (cString ref.host) ref.port connections.pool with
  | none => exact absurd h ((findByLocal_eq_none_iff ref.endpoint).1 hfind)
  | some c =>
      have hown := connections.own c (List.mem_of_find?_eq_some hfind)
      rw [← hown]
      rfl

theorem narrowServant_far (w : World ω σ) {ref : IOR}
    (h : ¬ connections.IsNear ref.endpoint.cut) : narrowServant connections w ref = none := by
  have hnone := (findByLocal_eq_none_iff ref.endpoint).2 h
  change ConnectionPool.findByLocal (cString ref.host) ref.port connections.pool = none at hnone
  rw [narrowServant, hnone]

/-- **A reference that names no near end, or has no registered key, is recognised exactly when a key
that is registered meets an end that becomes a near end by being cut.** -/
theorem narrowServant_none_iff (w : World ω σ) (ref : IOR) :
    (¬ connections.IsNear ref.endpoint ∨ w.find o ref.objectKey = none →
        narrowServant connections w ref = none) ↔
      (connections.IsNear ref.endpoint.cut → w.find o ref.objectKey ≠ none →
        connections.IsNear ref.endpoint) := by
  constructor
  · intro h hcut hkey
    by_contra hnear
    have hnone := h (.inl hnear)
    rw [narrowServant_near w hcut] at hnone
    exact hkey hnone
  · rintro h hstranger
    by_cases hcut : connections.IsNear ref.endpoint.cut
    · rw [narrowServant_near w hcut]
      by_contra hkey
      rcases hstranger with hnear | hnone
      · exact hnear (h hcut hkey)
      · exact hkey hnone
    · exact narrowServant_far w hcut

end ORB

/-! ### Out and back -/

/-- What is read of a reference that has been out and back: over a connection to here, it is read as
what it was written as here. -/
theorem reference_comes_home (here there : Platform) {near : Connection} {far : Connection}
    (hfar : far.remote = near.protocolLocal) (e : GIOPEncoder) (he : e.connection = some near)
    (e' : GIOPEncoder) (he' : e'.connection = some far) (s : Skeleton) (repositoryId : Octets)
    (href : Giop.Referable e.majorVersion e.minorVersion s.repositoryId near.protocolLocal
      s.objectKey)
    (href' : Giop.Referable e'.majorVersion e'.minorVersion repositoryId near.protocolLocal
      s.objectKey) :
    ∃ out, @GIOPEncoder.writeObject here (some (.skeleton s)) e = .ok () out ∧
      (out.buffer.data.length < 2 ^ 63 → ∀ d : GIOPDecoder, ∃ ior d',
        @GIOPDecoder.readObject there true (d.on out.buffer.data e.buffer.offset here.native) =
          .ok (some ior) d' ∧
        ∃ back, @GIOPEncoder.writeObject there
            (some (.stub ⟨repositoryId, ior.objectKey, some far⟩)) e' = .ok () back ∧
          (back.buffer.data.length < 2 ^ 63 → ∀ d : GIOPDecoder, ∃ d',
            @GIOPDecoder.readObject here true
                (d.on back.buffer.data e'.buffer.offset there.native) =
              .ok (some ⟨repositoryId, near.protocolLocal.host, near.protocolLocal.port,
                s.objectKey⟩) d')) := by
  obtain ⟨b, hrun, hwrote⟩ := @GIOPEncoder.writes_servant here e near he s
  refine ⟨_, hrun, fun hD d => ?_⟩
  refine ⟨_, _, @GIOPDecoder.readObject_run there d _ _ _ _ _ _ _ _ hwrote.laid href hD, ?_⟩
  obtain ⟨b', hrun', hwrote'⟩ :=
    @GIOPEncoder.writes_reference there e' far he' repositoryId s.objectKey true
  rw [if_pos rfl, hfar] at hwrote'
  refine ⟨_, hrun', fun hD' d => ?_⟩
  exact ⟨_, @GIOPDecoder.readObject_run here d _ _ _ _ _ _ _ _ hwrote'.laid href' hD'⟩

/-- **A servant that comes home is recognised exactly when the near end it has been given is still one
after it has been cut, and other references are not exactly when they do not name a near end by
being cut.** -/
theorem servant_comes_home_iff (here there : Platform) {o : ω} (connections : OrbConnections o)
    (w : World ω σ) :
    (∀ (s : ServantRef σ) (home : PooledConnection ω) (far : Connection) (e e' : GIOPEncoder)
        (repositoryId repositoryId' : Octets),
      w.find o (w.objectKey s) = some s → home ∈ connections.pool →
      far.remote = home.connection.protocolLocal →
      e.connection = some home.connection → e'.connection = some far →
      Giop.Referable e.majorVersion e.minorVersion repositoryId home.connection.protocolLocal
        (w.objectKey s) →
      Giop.Referable e'.majorVersion e'.minorVersion repositoryId' home.connection.protocolLocal
        (w.objectKey s) →
      ∃ out, @GIOPEncoder.writeObject here (some (.skeleton ⟨repositoryId, w.objectKey s⟩)) e =
          .ok () out ∧
        (out.buffer.data.length < 2 ^ 63 → ∀ d : GIOPDecoder, ∃ ior d',
          @GIOPDecoder.readObject there true (d.on out.buffer.data e.buffer.offset here.native) =
            .ok (some ior) d' ∧
          ∃ back, @GIOPEncoder.writeObject there
              (some (.stub ⟨repositoryId', ior.objectKey, some far⟩)) e' = .ok () back ∧
            (back.buffer.data.length < 2 ^ 63 → ∀ d : GIOPDecoder, ∃ ref d',
              @GIOPDecoder.readObject here true
                  (d.on back.buffer.data e'.buffer.offset there.native) = .ok (some ref) d' ∧
              (ORB.narrowServant connections w ref = some s ↔
                connections.IsNear home.connection.protocolLocal.cut)))) ∧
    ∀ ref : IOR,
      (¬ connections.IsNear ref.endpoint ∨ w.find o ref.objectKey = none →
          ORB.narrowServant connections w ref = none) ↔
        (connections.IsNear ref.endpoint.cut → w.find o ref.objectKey ≠ none →
          connections.IsNear ref.endpoint) := by
  refine ⟨?_, fun ref => ORB.narrowServant_none_iff w ref⟩
  intro s home far e e' repositoryId repositoryId' hfound hhome hfar he he' href href'
  obtain ⟨out, hout, hback⟩ := reference_comes_home here there hfar e he e' he'
    ⟨repositoryId, w.objectKey s⟩ repositoryId' href href'
  refine ⟨out, hout, fun hD d => ?_⟩
  obtain ⟨ior, d', hior, back, hwrite, hread⟩ := hback hD d
  refine ⟨ior, d', hior, back, hwrite, fun hD' d'' => ?_⟩
  obtain ⟨d₃, href⟩ := hread hD' d''
  refine ⟨_, d₃, href, ?_⟩
  constructor
  · intro hnarrow
    by_contra hfarAway
    rw [ORB.narrowServant_far w hfarAway] at hnarrow
    cases hnarrow
  · intro hnear
    rw [ORB.narrowServant_near w hnear]
    exact hfound

/-- A connection of a client, from the near end "frontend" to the far end "backend". -/
def frontend : PooledConnection Unit :=
  ⟨0, ⟨⟨ascii "backend", 2809⟩, ⟨ascii "frontend", 32768⟩, true⟩, ()⟩

/-- The client with this connection and one servant. -/
def frontendConnections : OrbConnections () :=
  ⟨[frontend], fun _ h => by rw [List.mem_singleton.1 h]⟩

def frontendWorld : World Unit Unit :=
  State (ORB.activateObjectWithId () (ascii "OID:1") (.impl ()) {})

/-- The servant of the client is passed to the server and back. -/
theorem servant_comes_home_iff_frontend :
    let far : Connection := ⟨⟨ascii "frontend", 32768⟩, ⟨ascii "backend", 2809⟩, true⟩
    ∃ out, @GIOPEncoder.writeObject ⟨.little⟩
        (some (.skeleton ⟨ascii "IDL:Peer:1.0", ascii "OID:1"⟩))
        { connection := some frontend.connection } = .ok () out ∧
      ∀ d : GIOPDecoder, ∃ ior d',
        @GIOPDecoder.readObject ⟨.big⟩ true (d.on out.buffer.data 0 .little) = .ok (some ior) d' ∧
        ∃ back, @GIOPEncoder.writeObject ⟨.big⟩
            (some (.stub ⟨ascii "IDL:Peer:1.0", ior.objectKey, some far⟩))
            { connection := some far } = .ok () back ∧
          ∀ d : GIOPDecoder, ∃ ref d',
            @GIOPDecoder.readObject ⟨.little⟩ true (d.on back.buffer.data 0 .big) =
              .ok (some ref) d' ∧
            ORB.narrowServant frontendConnections frontendWorld ref = some (.impl ()) := by
  intro far
  let s : Skeleton := ⟨ascii "IDL:Peer:1.0", ascii "OID:1"⟩
  let e : GIOPEncoder := { connection := some frontend.connection }
  have href : Giop.Referable 1 2 s.repositoryId frontend.connection.protocolLocal s.objectKey := by
    decide
  obtain ⟨out, hout, h⟩ := (servant_comes_home_iff ⟨.little⟩ ⟨.big⟩ frontendConnections
    frontendWorld).1 (.impl ()) frontend far e { connection := some far } _ _ rfl
    (List.mem_singleton_self _) rfl rfl rfl href href
  have hout : @GIOPEncoder.writeObject ⟨.little⟩ (some (.skeleton s)) e = .ok () out := hout
  have hsize : (State (@GIOPEncoder.writeObject ⟨.little⟩ (some (.skeleton s)) e)).buffer.data.length
      < 2 ^ 63 := by
    decide +kernel
  rw [hout] at hsize
  refine ⟨out, hout, fun d => ?_⟩
  obtain ⟨ior, d', hior, back, hback, hhome⟩ := h hsize d
  -- the key that has been read is the one that has been written
  obtain ⟨b, hrun, hwrote⟩ := @GIOPEncoder.writes_servant ⟨.little⟩ e _ rfl s
  cases hout.symm.trans hrun
  cases hior.symm.trans
    (@GIOPDecoder.readObject_run ⟨.big⟩ d _ _ _ _ _ _ _ _ hwrote.laid href hsize)
  refine ⟨_, _, hior, back, hback, fun d => ?_⟩
  have hsize' : (State (@GIOPEncoder.writeObject ⟨.big⟩
      (some (.stub ⟨ascii "IDL:Peer:1.0", ascii "OID:1", some far⟩))
      { connection := some far })).buffer.data.length < 2 ^ 63 := by
    decide +kernel
  have hback : @GIOPEncoder.writeObject ⟨.big⟩
      (some (.stub ⟨ascii "IDL:Peer:1.0", ascii "OID:1", some far⟩)) { connection := some far } =
        .ok () back := hback
  rw [hback] at hsize'
  obtain ⟨ref, d'', hback', hnarrow⟩ := hhome hsize' d
  exact ⟨ref, d'', hback', hnarrow.2 ⟨frontend, List.mem_singleton_self _, rfl⟩⟩

/-- Behind a zero octet, the host can go on with anything. -/
theorem stranger_recognised :
    let ref : IOR :=
      ⟨ascii "IDL:Peer:1.0", ascii "frontend" ++ [0] ++ ascii ".example", 32768, ascii "OID:1"⟩
    ¬ frontendConnections.IsNear ref.endpoint ∧
      ORB.narrowServant frontendConnections frontendWorld ref = some (.impl ()) := by
  refine ⟨?_, rfl⟩
  rintro ⟨c, hc, hnear⟩
  obtain rfl := List.mem_singleton.1 hc
  exact absurd hnear (by decide)

end Corba
