/-
Calls in both directions.

A client that does not listen announces an end nobody could connect to.  Whoever has an object
reference with this end is to use the connection the client has opened.  For this the decoder makes
the announced end the far end of the connection, and the ORB looks for a connection by its far end
before it opens a new one.

Main definitions:

* `Corba.ConnectionPool`, `Corba.ConnectionPool.findByRemote` — the connections of an ORB;
* `Corba.ORB.getConnection` — a connection that is there, or a new one;
* `Corba.ORB.ReachedAgain` — a connection that is used instead of opening a new one.

Main results:

* `Corba.Connection.adopt_remote_iff` — when a connection takes over the end that is announced;
* `Corba.ORB.reached_again_iff` — when it is found by it;
* `Corba.listen_point_adopted_iff` — both, for any request that announces an end.
-/

import Corba.MessageScan
import Mathlib.Data.List.Sort

set_option relaxedAutoImplicit false
set_option autoImplicit false

namespace Corba

open Layout ByteOrder Placed Exec

theorem HostAndPort.eq_iff (a b : HostAndPort) : a = b ↔ a.host = b.host ∧ a.port = b.port := by
  cases a
  cases b
  simp

/-! ### The connections of an ORB -/

/-- A `std::set` of pointers, which goes through them in the order of their addresses. -/
abbrev ConnectionPool := List (ℕ × Connection)

namespace ConnectionPool

def insert (address : ℕ) (connection : Connection) (pool : ConnectionPool) : ConnectionPool :=
  List.orderedInsert (fun a b => a.1 ≤ b.1) (address, connection) pool

/-- The host is handed over as `const char *`. -/
def findByRemote (host : CString) (port : UInt16) (pool : ConnectionPool) :
    Option (ℕ × Connection) :=
  pool.find? fun c => c.2.remote.host == host.1 && c.2.remote.port == port

/-- A string without a zero octet is handed over as it is. -/
theorem cString_eq {s : Octets} (h : (0 : UInt8) ∉ s) : (cString s).1 = s := by
  refine List.takeWhile_eq_self_iff.2 fun x hx => ?_
  have hne : x ≠ 0 := by
    rintro rfl
    exact h hx
  simpa using hne

/-- The only connection to some end is found. -/
theorem findByRemote_only {pool : ConnectionPool} {address : ℕ} {connection : Connection}
    (hmem : (address, connection) ∈ pool)
    (honly : ∀ c ∈ pool, c.2.remote = connection.remote → c = (address, connection))
    (hhost : (0 : UInt8) ∉ connection.remote.host) :
    pool.findByRemote (cString connection.remote.host) connection.remote.port =
      some (address, connection) := by
  have hsame : ∀ c : ℕ × Connection,
      (c.2.remote.host == (cString connection.remote.host).1 &&
        c.2.remote.port == connection.remote.port) = true ↔ c.2.remote = connection.remote := by
    intro c
    rw [cString_eq hhost, Bool.and_eq_true, beq_iff_eq, beq_iff_eq, HostAndPort.eq_iff]
  have hfound : (pool.findByRemote (cString connection.remote.host)
      connection.remote.port).isSome := by
    rw [findByRemote, List.find?_isSome]
    exact ⟨_, hmem, (hsame (address, connection)).2 rfl⟩
  obtain ⟨c, hc⟩ := Option.isSome_iff_exists.1 hfound
  rw [findByRemote] at hc ⊢
  have hmatch := List.find?_some hc
  rw [honly c (List.mem_of_find?_eq_some hc) ((hsame c).1 hmatch)] at hc
  exact hc

end ConnectionPool

namespace ORB

/-- The part of an ORB that is about connections.  Of a protocol there is the end it listens at. -/
structure Peers where
  protocols : List HostAndPort
  connections : ConnectionPool
  deriving DecidableEq, Repr

/-- The port of a protocol that does not listen. -/
def locPort : UInt16 := 2809

def noProtocol (host : Octets) (port : UInt16) : String :=
  "failed to allocate connection to " ++ text host ++ ":" ++ toString port.toNat

/-- The address of a new connection and the name of a protocol that does not listen, which is random,
are inputs. -/
def getConnection (host : Octets) (port : UInt16) (address : ℕ) (uuid : Octets) :
    EStateM Fault Peers (ℕ × Connection) := do
  let orb ← get
  match orb.connections.findByRemote (cString host) port with
  | some connection => return connection
  | none =>
      match orb.protocols with
      | [] => throw (.thrown (.runtimeError (noProtocol host port)))
      | proto :: protocols =>
          let proto : HostAndPort := if proto.host.isEmpty then ⟨uuid, locPort⟩ else proto
          let connection : Connection := ⟨⟨(cString host).1, port⟩, proto, false⟩
          set
            { protocols := proto :: protocols
              connections := orb.connections.insert address connection : Peers }
          return (address, connection)

/-- Whenever this is the only connection to this end, the ORB uses it, and opens no other. -/
def ReachedAgain (a : HostAndPort) (connection : Connection) : Prop :=
  ∀ (orb : Peers) (address new : ℕ) (uuid : Octets), (address, connection) ∈ orb.connections →
    (∀ c ∈ orb.connections, c.2.remote = a → c = (address, connection)) →
    getConnection a.host a.port new uuid orb = .ok (address, connection) orb

theorem getConnection_found {host : Octets} {port : UInt16} {orb : Peers} {c : ℕ × Connection}
    (h : orb.connections.findByRemote (cString host) port = some c) (new : ℕ) (uuid : Octets) :
    getConnection host port new uuid orb = .ok c orb := by
  rw [getConnection, get_bind, h]
  rfl

/-- A connection is found by its far end exactly when there is no zero octet in the host. -/
theorem reached_again_iff {a : HostAndPort} {connection : Connection}
    (h : connection.remote = a) : ReachedAgain a connection ↔ (0 : UInt8) ∉ a.host := by
  subst h
  constructor
  · intro hreached hzero
    have hrun := hreached ⟨[], [(0, connection)]⟩ 0 1 [] (List.mem_singleton_self _) fun c hc _ =>
      List.mem_singleton.1 hc
    have hshort : connection.remote.host ≠ (cString connection.remote.host).1 := by
      intro hsame
      exact (cString connection.remote.host).2 (hsame ▸ hzero)
    have hnone : ConnectionPool.findByRemote (cString connection.remote.host)
        connection.remote.port [(0, connection)] = none := by
      rw [ConnectionPool.findByRemote, List.find?_eq_none]
      intro c hc
      obtain rfl := List.mem_singleton.1 hc
      simp [hshort]
    rw [getConnection, get_bind] at hrun
    simp only [hnone] at hrun
    cases hrun
  · intro hhost orb address new uuid hmem honly
    exact getConnection_found (ConnectionPool.findByRemote_only hmem honly hhost) new uuid

end ORB

/-- A connection takes over an end when both its host and its port are new, and has it already when
none of them is. -/
theorem Connection.adopt_remote_iff (c : Connection) (a : HostAndPort) :
    (c.adopt a).remote = a ↔ (a.host = c.remote.host ↔ a.port = c.remote.port) := by
  rw [adopt]
  split
  · rename_i hdiffer
    simp [hdiffer.1, hdiffer.2]
  · rename_i hdiffer
    rw [HostAndPort.eq_iff]
    by_cases hhost : a.host = c.remote.host <;> by_cases hport : a.port = c.remote.port
    · simp [hhost, hport]
    · simp [hhost, hport, eq_comm]
    · simp [hhost, hport, eq_comm]
    · exact absurd ⟨hhost, hport⟩ hdiffer

/-! ### Requests that announce an end -/

/-- One service context announces this end, and no other announces any. -/
structure RequestContent.AnnouncesOnly (r : RequestContent) (a : HostAndPort) : Prop where
  contexts : ∃ before inner rest after,
    r.contexts = before ++ .listenPoints inner [a] rest :: after ∧
      ∀ s ∈ before ++ after, s.points = []

theorem RequestContent.AnnouncesOnly.points {r : RequestContent} {a : HostAndPort}
    (h : r.AnnouncesOnly a) : r.contexts.flatMap ServiceContext.points = [a] := by
  obtain ⟨before, inner, rest, after, hcontexts, hnone⟩ := h.contexts
  have hbefore : before.flatMap ServiceContext.points = [] :=
    List.flatMap_eq_nil_iff.2 fun s hs => hnone s (List.mem_append_left _ hs)
  have hafter : after.flatMap ServiceContext.points = [] :=
    List.flatMap_eq_nil_iff.2 fun s hs => hnone s (List.mem_append_right _ hs)
  rw [hcontexts, List.flatMap_append, List.flatMap_cons, hbefore, hafter]
  rfl

/-- The connection after the request has been scanned. -/
theorem scan_announcing [Platform] {e : Endian} {major minor : UInt8} {length : UInt32}
    {r : RequestContent} {a : HostAndPort} {D : Octets} (c : Connection)
    (h : Giop.Message e major minor length (.request r) D) (ha : r.AnnouncesOnly a) :
    ∃ header d, Content.scan (.request r) { buffer := ⟨D, 0, none⟩, connection := some c } =
        .ok (.request, header) d ∧ d.connection = some (c.adopt a) := by
  have hsome : (Content.request r).points major.toNat ≠ [] → (some c).isSome := fun _ => rfl
  obtain ⟨hrun, -⟩ := Content.scan_run h hsome
  refine ⟨_, _, hrun, ?_⟩
  show Connection.adoptAll (r.contexts.flatMap ServiceContext.points) (some c) = _
  rw [ha.points]
  rfl

/-- **An end that is announced becomes the far end of the connection, and the connection is found by
it, exactly when its host and its port are both new or both known, and there is no zero octet in the
host.**  This holds for every connection, and for all requests, whatever else they say. -/
theorem listen_point_adopted_iff [Platform] {e : Endian} {major minor : UInt8} {length : UInt32}
    {r : RequestContent} {a : HostAndPort} {D : Octets} (c : Connection)
    (h : Giop.Message e major minor length (.request r) D) (ha : r.AnnouncesOnly a) :
    ∃ header d c', Content.scan (.request r) { buffer := ⟨D, 0, none⟩, connection := some c } =
        .ok (.request, header) d ∧ d.connection = some c' ∧
      (c'.remote = a ∧ ORB.ReachedAgain a c' ↔
        (a.host = c.remote.host ↔ a.port = c.remote.port) ∧ (0 : UInt8) ∉ a.host) := by
  obtain ⟨header, d, hrun, hconnection⟩ := scan_announcing c h ha
  refine ⟨header, d, _, hrun, hconnection, ?_⟩
  rw [← c.adopt_remote_iff a]
  exact and_congr_right fun hremote => ORB.reached_again_iff hremote

theorem announcing_announcesOnly (a : HostAndPort) : (announcing a).AnnouncesOnly a where
  contexts := ⟨[.other 1 (by decide) .big [0, 0, 0, 0, 1, 0, 1]], .little, [], [], rfl,
    by simp [ServiceContext.points]⟩

/-- Host and port are both new. -/
theorem listen_point_adopted_iff_new :
    letI : Platform := ⟨.little⟩
    let a : HostAndPort := ⟨ascii "h", 5⟩
    let D := Giop.encoded .big 1 2 72 (.request (announcing a))
    let c : Connection := ⟨⟨ascii "r", 2⟩, ⟨ascii "n", 1⟩, false⟩
    ∃ header d c', Content.scan (.request (announcing a))
        { buffer := ⟨D, 0, none⟩, connection := some c } = .ok (.request, header) d ∧
      d.connection = some c' ∧ c'.remote = a ∧ ORB.ReachedAgain a c' := by
  let : Platform := ⟨.little⟩
  intro a D c
  have hmessage : Giop.Message .big 1 2 72 (.request (announcing a)) D :=
    Giop.message_encoded (by decide +kernel) (by decide +kernel)
  obtain ⟨header, d, c', hrun, hconnection, hiff⟩ :=
    listen_point_adopted_iff c hmessage (announcing_announcesOnly a)
  exact ⟨header, d, c', hrun, hconnection, hiff.2 (by decide)⟩

/-- Only the port is new.  The connection keeps its far end, and the ORB would open another one. -/
theorem known_host_not_adopted :
    letI : Platform := ⟨.little⟩
    ∃ (a : HostAndPort) (c : Connection) (D : Octets),
      Giop.Message .big 1 2 72 (.request (announcing a)) D ∧ (0 : UInt8) ∉ a.host ∧
      ∃ header d c', Content.scan (.request (announcing a))
          { buffer := ⟨D, 0, none⟩, connection := some c } = .ok (.request, header) d ∧
        d.connection = some c' ∧ c'.remote ≠ a ∧
        ¬ ∀ new uuid, ORB.getConnection a.host a.port new uuid ⟨[c.protocolLocal], [(0, c')]⟩ =
          .ok (0, c') ⟨[c.protocolLocal], [(0, c')]⟩ := by
  let : Platform := ⟨.little⟩
  let a : HostAndPort := ⟨ascii "h", 5⟩
  let c : Connection := ⟨⟨ascii "h", 2⟩, ⟨ascii "n", 1⟩, false⟩
  have hmessage : Giop.Message .big 1 2 72 (.request (announcing a))
      (Giop.encoded .big 1 2 72 (.request (announcing a))) :=
    Giop.message_encoded (by decide +kernel) (by decide +kernel)
  obtain ⟨header, d, hrun, hconnection⟩ :=
    scan_announcing c hmessage (announcing_announcesOnly a)
  refine ⟨a, c, _, hmessage, by decide, header, d, _, hrun, hconnection, by decide, fun h => ?_⟩
  cases h 1 []

end Corba
