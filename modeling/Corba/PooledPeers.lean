/-
One connection for each peer.

An ORB keeps its connections in a set of pointers and looks for one by its far end.  There are three
that put a far end there: `ORB::getConnection` of `src/corba/orb.cc` for a connection it opens, the
callback of `src/corba/net/tcp/protocol.cc` for one it accepts, and the decoder, for a connection over
which a request arrives that announces another end.  Only the first of them looks for a connection
that is there already.

Main definitions:

* `Corba.PeerEvent`, `Corba.Pooled` — what happens to the connections of an ORB, and the connections
  together with the answers `getConnection` has given;
* `Corba.ConnectionPool.OnePerPeer`, `Corba.Pooled.Sole` — there is one connection for each peer, and
  whoever asks for it again gets it again.

Main results:

* `Corba.PeerEvent.step_sole_iff` — one event;
* `Corba.sole_always_iff` — exactly when there is one connection for each peer all along.
-/

import Corba.Bidirectional
import Corba.Runs

set_option relaxedAutoImplicit false
set_option autoImplicit false

namespace Corba

open Layout ByteOrder Placed Exec

/-! ### What happens to the connections -/

/-- A request as it arrives. -/
structure ArrivedRequest where
  endian : Endian
  major : UInt8
  minor : UInt8
  length : UInt32
  content : RequestContent
  octets : Octets
  message : Giop.Message endian major minor length (.request content) octets

namespace ArrivedRequest

/-- The ends it announces. -/
def points (r : ArrivedRequest) : List HostAndPort := r.content.contexts.flatMap ServiceContext.points

/-- The connection over which it has arrived, after its headers have been scanned. -/
def received [Platform] (r : ArrivedRequest) (c : Connection) : Connection :=
  (State (Content.scan (.request r.content)
    { buffer := ⟨r.octets, 0, none⟩, connection := some c })).connection.getD c

/-- Each announced end becomes the far end when both its host and its port are new. -/
theorem received_eq [Platform] (r : ArrivedRequest) (c : Connection) :
    r.received c = r.points.foldl Connection.adopt c := by
  have hsome : (Content.request r.content).points r.major.toNat ≠ [] → (some c).isSome :=
    fun _ => rfl
  obtain ⟨hrun, -⟩ := Content.scan_run r.message hsome
  rw [received, hrun]
  rfl

end ArrivedRequest

/-- What happens to the connections of an ORB.  The addresses of new connections and the name of a
protocol that does not listen are inputs. -/
inductive PeerEvent where
  | getConnection (host : Octets) (port : UInt16) (address : ℕ) (uuid : Octets)
  | accepted (peer : HostAndPort) (protocolLocal : HostAndPort) (address : ℕ)
  | request (address : ℕ) (r : ArrivedRequest)

/-- The connections of an ORB, and for each call of `getConnection` that has returned, the end it has
been asked for and the connection it has returned. -/
structure Pooled where
  orb : ORB.Peers
  handed : List (HostAndPort × ℕ) := []

namespace ConnectionPool

/-- No connection stands at the address. -/
def Vacant (address : ℕ) (pool : ConnectionPool) : Prop := ∀ c ∈ pool, c.1 ≠ address

instance (address : ℕ) (pool : ConnectionPool) : Decidable (pool.Vacant address) :=
  inferInstanceAs (Decidable (∀ c ∈ pool, c.1 ≠ address))

/-- The connection at the address is changed. -/
def update (address : ℕ) (f : Connection → Connection) (pool : ConnectionPool) : ConnectionPool :=
  pool.map fun c => if c.1 = address then (c.1, f c.2) else c

end ConnectionPool

namespace PeerEvent

/-- What a call of `getConnection` leaves behind. -/
def handOut (s : Pooled) (a : HostAndPort) :
    EStateM.Result Fault ORB.Peers (ℕ × Connection) → Pooled
  | .ok c orb => { orb, handed := (a, c.1) :: s.handed }
  | .error _ orb => { s with orb }

/-- One event.  New connections stand where no other does.  The name of an accepted peer is handed
over as `const char *`. -/
def step [Platform] (s : Pooled) : PeerEvent → Pooled
  | getConnection host port address uuid =>
      if s.orb.connections.Vacant address then
        handOut s ⟨host, port⟩ (ORB.getConnection host port address uuid s.orb)
      else s
  | accepted peer protocolLocal address =>
      if s.orb.connections.Vacant address then
        let connection : Connection := ⟨⟨(cString peer.host).1, peer.port⟩, protocolLocal, false⟩
        { s with orb := { s.orb with
            connections := s.orb.connections.insert address connection } }
      else s
  | request address r =>
      { s with orb := { s.orb with connections := s.orb.connections.update address r.received } }

end PeerEvent

/-! ### One connection for each peer -/

namespace ConnectionPool

/-- No two connections have the same far end. -/
def OnePerPeer (pool : ConnectionPool) : Prop :=
  ∀ c ∈ pool, ∀ c' ∈ pool, c.2.remote = c'.2.remote → c = c'

/-- No two connections stand at the same address. -/
def Apart (pool : ConnectionPool) : Prop := ∀ c ∈ pool, ∀ c' ∈ pool, c.1 = c'.1 → c = c'

/-- There is no connection to this end. -/
def Strange (a : HostAndPort) (pool : ConnectionPool) : Prop := ∀ c ∈ pool, c.2.remote ≠ a

variable {pool : ConnectionPool}

theorem mem_insert {address : ℕ} {connection : Connection} {c : ℕ × Connection} :
    c ∈ pool.insert address connection ↔ c = (address, connection) ∨ c ∈ pool :=
  List.mem_orderedInsert _

theorem mem_update {address : ℕ} {f : Connection → Connection} {c : ℕ × Connection} :
    c ∈ pool.update address f ↔
      (c ∈ pool ∧ c.1 ≠ address) ∨ ∃ c₀, (address, c₀) ∈ pool ∧ c = (address, f c₀) := by
  rw [update, List.mem_map]
  constructor
  · rintro ⟨c₀, hmem, rfl⟩
    by_cases haddress : c₀.1 = address
    · subst haddress
      rw [if_pos rfl]
      exact .inr ⟨c₀.2, hmem, rfl⟩
    · rw [if_neg haddress]
      exact .inl ⟨hmem, haddress⟩
  · rintro (⟨hmem, haddress⟩ | ⟨c₀, hmem, rfl⟩)
    · exact ⟨c, hmem, if_neg haddress⟩
    · exact ⟨_, hmem, if_pos rfl⟩

theorem Apart.insert (h : pool.Apart) {address : ℕ} (hvacant : pool.Vacant address)
    (connection : Connection) : (pool.insert address connection).Apart := by
  intro c hc c' hc' heq
  rw [mem_insert] at hc hc'
  rcases hc with rfl | hc <;> rcases hc' with rfl | hc'
  · rfl
  · exact absurd heq.symm (hvacant c' hc')
  · exact absurd heq (hvacant c hc)
  · exact h c hc c' hc' heq

theorem Apart.update (h : pool.Apart) (address : ℕ) (f : Connection → Connection) :
    (pool.update address f).Apart := by
  intro c hc c' hc' heq
  rw [mem_update] at hc hc'
  rcases hc with ⟨hc, hne⟩ | ⟨c₀, hc₀, rfl⟩ <;> rcases hc' with ⟨hc', hne'⟩ | ⟨c₁, hc₁, rfl⟩
  · exact h c hc c' hc' heq
  · exact absurd heq hne
  · exact absurd heq.symm hne'
  · have hsame := h _ hc₀ _ hc₁ rfl
    rw [(Prod.mk.inj hsame).2]

/-- A new connection has a far end of its own when it is to a stranger. -/
theorem OnePerPeer.insert_iff (h : pool.OnePerPeer) {address : ℕ} (hvacant : pool.Vacant address)
    (connection : Connection) :
    (pool.insert address connection).OnePerPeer ↔ pool.Strange connection.remote := by
  constructor
  · intro hafter c hc hremote
    have hsame := hafter c (mem_insert.2 (.inr hc)) (address, connection) (mem_insert.2 (.inl rfl))
      hremote
    exact hvacant c hc (congrArg Prod.fst hsame)
  · intro hstrange c hc c' hc' heq
    rw [mem_insert] at hc hc'
    rcases hc with rfl | hc <;> rcases hc' with rfl | hc'
    · rfl
    · exact absurd heq.symm (hstrange c' hc')
    · exact absurd heq (hstrange c hc)
    · exact h c hc c' hc' heq

/-- A connection that is changed has a far end of its own when it keeps the one it has, or takes that
of a stranger. -/
theorem OnePerPeer.update_iff (h : pool.OnePerPeer) (hapart : pool.Apart) {address : ℕ}
    {connection : Connection} (hmem : (address, connection) ∈ pool) (f : Connection → Connection) :
    (pool.update address f).OnePerPeer ↔
      (f connection).remote = connection.remote ∨ pool.Strange (f connection).remote := by
  have honly : ∀ c₀, (address, c₀) ∈ pool → c₀ = connection := by
    intro c₀ hc₀
    exact (Prod.mk.inj (hapart _ hc₀ _ hmem rfl)).2
  constructor
  · intro hafter
    by_contra hnot
    rw [not_or, Strange] at hnot
    obtain ⟨hchanged, hknown⟩ := hnot
    push Not at hknown
    obtain ⟨c, hc, hremote⟩ := hknown
    have hne : c.1 ≠ address := by
      rintro rfl
      rw [honly c.2 hc] at hremote
      exact hchanged hremote.symm
    have hsame := hafter c (mem_update.2 (.inl ⟨hc, hne⟩)) (address, f connection)
      (mem_update.2 (.inr ⟨connection, hmem, rfl⟩)) hremote
    exact hne (congrArg Prod.fst hsame)
  · intro hfar c hc c' hc' heq
    -- a far end that is kept is that of no other connection
    have hother : ∀ c ∈ pool, c.1 ≠ address → c.2.remote ≠ (f connection).remote := by
      intro c hc hne hremote
      rcases hfar with hkept | hstrange
      · rw [hkept] at hremote
        exact hne (congrArg Prod.fst (h c hc _ hmem hremote))
      · exact hstrange c hc hremote
    rw [mem_update] at hc hc'
    rcases hc with ⟨hc, hne⟩ | ⟨c₀, hc₀, rfl⟩ <;> rcases hc' with ⟨hc', hne'⟩ | ⟨c₁, hc₁, rfl⟩
    · exact h c hc c' hc' heq
    · rw [honly c₁ hc₁] at heq
      exact absurd heq (hother c hc hne)
    · rw [honly c₀ hc₀] at heq
      exact absurd heq.symm (hother c' hc' hne')
    · rw [honly c₀ hc₀, honly c₁ hc₁]

/-- What is found is the connection to this end. -/
theorem findByRemote_mem {host : CString} {port : UInt16} {c : ℕ × Connection}
    (h : pool.findByRemote host port = some c) : c ∈ pool ∧ c.2.remote = ⟨host.1, port⟩ := by
  rw [findByRemote] at h
  have hmatch := List.find?_some h
  rw [Bool.and_eq_true, beq_iff_eq, beq_iff_eq] at hmatch
  exact ⟨List.mem_of_find?_eq_some h, (HostAndPort.eq_iff _ _).2 hmatch⟩

theorem findByRemote_eq_none {host : CString} {port : UInt16} :
    pool.findByRemote host port = none ↔ pool.Strange ⟨host.1, port⟩ := by
  rw [findByRemote, List.find?_eq_none]
  refine forall₂_congr fun c _ => not_congr ?_
  rw [Bool.and_eq_true, beq_iff_eq, beq_iff_eq, HostAndPort.eq_iff]

/-- **With one connection for each peer, there is one answer.** -/
theorem OnePerPeer.findByRemote_iff (h : pool.OnePerPeer) {host : CString} {port : UInt16}
    {c : ℕ × Connection} :
    pool.findByRemote host port = some c ↔ c ∈ pool ∧ c.2.remote = ⟨host.1, port⟩ := by
  refine ⟨findByRemote_mem, ?_⟩
  rintro ⟨hmem, hremote⟩
  cases hfind : pool.findByRemote host port with
  | none => exact absurd hremote (findByRemote_eq_none.1 hfind c hmem)
  | some c' =>
      obtain ⟨hmem', hremote'⟩ := findByRemote_mem hfind
      rw [h c hmem c' hmem' (hremote.trans hremote'.symm)]

end ConnectionPool

/-! ### Asking again -/

namespace ORB

/-- Whoever asks for the end again gets the connection at this address again, and no other is
opened. -/
def Repeats (orb : Peers) (a : HostAndPort) (address : ℕ) : Prop :=
  ∀ (new : ℕ) (uuid : Octets), ∃ c, getConnection a.host a.port new uuid orb = .ok (address, c) orb

theorem getConnection_strange {host : Octets} {port : UInt16} {orb : Peers}
    (h : orb.connections.findByRemote (cString host) port = none) (address : ℕ) (uuid : Octets) :
    (∃ proto protocols, getConnection host port address uuid orb = .ok
        (address, ⟨⟨(cString host).1, port⟩, proto, false⟩)
        ⟨protocols, orb.connections.insert address ⟨⟨(cString host).1, port⟩, proto, false⟩⟩) ∨
      ∃ f, getConnection host port address uuid orb = .error f orb := by
  rw [getConnection, get_bind, h]
  cases hprotocols : orb.protocols with
  | nil => exact .inr ⟨_, rfl⟩
  | cons proto protocols => exact .inl ⟨_, _, rfl⟩

theorem repeats_iff {orb : Peers} {a : HostAndPort} {address : ℕ} :
    Repeats orb a address ↔
      ∃ c, orb.connections.findByRemote (cString a.host) a.port = some (address, c) := by
  constructor
  · intro h
    obtain ⟨c', hrun⟩ := h 0 []
    cases hfind : orb.connections.findByRemote (cString a.host) a.port with
    | some c =>
        rw [getConnection_found hfind] at hrun
        obtain ⟨rfl, -⟩ := EStateM.Result.ok.inj hrun
        exact ⟨c', rfl⟩
    | none =>
        -- the pool would have grown
        rcases getConnection_strange hfind 0 [] with ⟨proto, protocols, hnew⟩ | ⟨f, herror⟩
        · rw [hnew] at hrun
          obtain ⟨-, horb⟩ := EStateM.Result.ok.inj hrun
          have hlength := congrArg (fun orb : Peers => orb.connections.length) horb
          dsimp only [ConnectionPool.insert] at hlength
          rw [List.orderedInsert_length] at hlength
          omega
        · rw [herror] at hrun
          cases hrun
  · rintro ⟨c, hfind⟩ new uuid
    exact ⟨c, getConnection_found hfind new uuid⟩

end ORB

/-- **There is one connection for each peer**, and whoever has asked for one gets it again. -/
structure Pooled.Sole (s : Pooled) : Prop where
  one : s.orb.connections.OnePerPeer
  again : ∀ a address, (a, address) ∈ s.handed → ORB.Repeats s.orb a address

/-- What an event has to meet.  A peer that is accepted is a stranger.  When a request gives its
connection another far end, this is that of a stranger, and nobody has asked for the connection. -/
def PeerEvent.Distinct (s : Pooled) : PeerEvent → Prop
  | getConnection .. => True
  | accepted peer _ address => s.orb.connections.Vacant address →
      s.orb.connections.Strange ⟨(cString peer.host).1, peer.port⟩
  | request address r => ∀ c, (address, c) ∈ s.orb.connections →
      let remote := (r.points.foldl Connection.adopt c).remote
      remote = c.remote ∨ (s.orb.connections.Strange remote ∧ ∀ a, (a, address) ∉ s.handed)

/-! ### One event -/

section Events

variable {s : Pooled}

/-- A connection that is added does not get in the way of those that have been handed out. -/
theorem Pooled.Sole.again_insert (h : s.Sole) {address : ℕ} {connection : Connection}
    (hone : (s.orb.connections.insert address connection).OnePerPeer) (protocols : List HostAndPort) :
    ∀ a address', (a, address') ∈ s.handed →
      ORB.Repeats ⟨protocols, s.orb.connections.insert address connection⟩ a address' := by
  intro a address' hmem
  obtain ⟨c, hfind⟩ := ORB.repeats_iff.1 (h.again a address' hmem)
  obtain ⟨hc, hremote⟩ := ConnectionPool.findByRemote_mem hfind
  exact ORB.repeats_iff.2 ⟨c, hone.findByRemote_iff.2 ⟨ConnectionPool.mem_insert.2 (.inr hc), hremote⟩⟩

/-- A call of `getConnection` that opens a connection opens one to a stranger. -/
theorem Pooled.Sole.getConnection (h : s.Sole) (host : Octets) (port : UInt16) {address : ℕ}
    (hvacant : s.orb.connections.Vacant address) (uuid : Octets) :
    (PeerEvent.handOut s ⟨host, port⟩
      (ORB.getConnection host port address uuid s.orb)).Sole := by
  cases hfind : s.orb.connections.findByRemote (cString host) port with
  | some c =>
      rw [ORB.getConnection_found hfind, PeerEvent.handOut]
      refine ⟨h.one, ?_⟩
      intro a address' hmem
      rcases List.mem_cons.1 hmem with heq | hmem
      · obtain ⟨rfl, rfl⟩ := Prod.mk.inj heq
        exact ORB.repeats_iff.2 ⟨c.2, hfind⟩
      · exact h.again a address' hmem
  | none =>
      rcases ORB.getConnection_strange hfind address uuid with ⟨proto, protocols, hrun⟩ | ⟨f, hrun⟩
      · have hone := (h.one.insert_iff hvacant ⟨⟨(cString host).1, port⟩, proto, false⟩).2
          (ConnectionPool.findByRemote_eq_none.1 hfind)
        rw [hrun, PeerEvent.handOut]
        refine ⟨hone, ?_⟩
        intro a address' hmem
        rcases List.mem_cons.1 hmem with heq | hmem
        · obtain ⟨rfl, rfl⟩ := Prod.mk.inj heq
          exact ORB.repeats_iff.2
            ⟨_, hone.findByRemote_iff.2 ⟨ConnectionPool.mem_insert.2 (.inl rfl), rfl⟩⟩
        · exact h.again_insert hone protocols a address' hmem
      · rw [hrun]
        exact h

/-- An accepted connection is the only one to its peer exactly when the peer is a stranger. -/
theorem Pooled.Sole.insert_iff (h : s.Sole) {address : ℕ}
    (hvacant : s.orb.connections.Vacant address) (connection : Connection) :
    Pooled.Sole { s with orb := { s.orb with
        connections := s.orb.connections.insert address connection } } ↔
      s.orb.connections.Strange connection.remote := by
  rw [← h.one.insert_iff hvacant connection]
  exact ⟨fun hafter => hafter.one, fun hone => ⟨hone, h.again_insert hone s.orb.protocols⟩⟩

/-- Without a connection at the address, nothing is changed. -/
theorem ConnectionPool.update_of_vacant {pool : ConnectionPool} {address : ℕ}
    (h : pool.Vacant address) (f : Connection → Connection) : pool.update address f = pool := by
  rw [update]
  refine (List.map_congr_left fun c hc => ?_).trans pool.map_id
  rw [if_neg (h c hc), id]

/-- A connection that gets another far end is still the only one to each peer, and is got again by those
who have asked for it, exactly when this is the end of a stranger and nobody has. -/
theorem Pooled.Sole.update_iff (h : s.Sole) (hapart : s.orb.connections.Apart) {address : ℕ}
    {connection : Connection} (hmem : (address, connection) ∈ s.orb.connections)
    (f : Connection → Connection) :
    Pooled.Sole { s with orb := { s.orb with
        connections := s.orb.connections.update address f } } ↔
      (f connection).remote = connection.remote ∨
        (s.orb.connections.Strange (f connection).remote ∧ ∀ a, (a, address) ∉ s.handed) := by
  have hone := h.one.update_iff hapart hmem f
  have hpool : ∀ c₀, (address, c₀) ∈ s.orb.connections → c₀ = connection := by
    intro c₀ hc₀
    exact (Prod.mk.inj (hapart _ hc₀ _ hmem rfl)).2
  -- what `getConnection` has found before
  have hfound : ∀ a address', (a, address') ∈ s.handed → ∃ c, (address', c) ∈ s.orb.connections ∧
      c.remote = ⟨(cString a.host).1, a.port⟩ := by
    intro a address' hhanded
    obtain ⟨c, hfind⟩ := ORB.repeats_iff.1 (h.again a address' hhanded)
    exact ⟨c, ConnectionPool.findByRemote_mem hfind⟩
  constructor
  · intro hafter
    by_cases hkept : (f connection).remote = connection.remote
    · exact .inl hkept
    · refine .inr ⟨(hone.1 hafter.one).resolve_left hkept, ?_⟩
      intro a hhanded
      obtain ⟨c, hc, hremote⟩ := hfound a address hhanded
      rw [hpool c hc] at hremote
      obtain ⟨c', hfind⟩ := ORB.repeats_iff.1 (hafter.again a address hhanded)
      obtain ⟨hc', hremote'⟩ := ConnectionPool.findByRemote_mem hfind
      rcases ConnectionPool.mem_update.1 hc' with ⟨-, hne⟩ | ⟨c₀, hc₀, heq⟩
      · exact hne rfl
      · dsimp only at hremote'
        rw [(Prod.mk.inj heq).2, hpool c₀ hc₀] at hremote'
        exact hkept (hremote'.trans hremote.symm)
  · intro hfar
    have hone' := hone.2 (hfar.imp_right And.left)
    refine ⟨hone', ?_⟩
    intro a address' hhanded
    obtain ⟨c, hc, hremote⟩ := hfound a address' hhanded
    by_cases haddress : address' = address
    · subst haddress
      have hkept := hfar.resolve_right fun hnone => hnone.2 a hhanded
      rw [hpool c hc] at hremote
      exact ORB.repeats_iff.2 ⟨_, hone'.findByRemote_iff.2
        ⟨ConnectionPool.mem_update.2 (.inr ⟨connection, hmem, rfl⟩), hkept.trans hremote⟩⟩
    · exact ORB.repeats_iff.2 ⟨c, hone'.findByRemote_iff.2
        ⟨ConnectionPool.mem_update.2 (.inl ⟨hc, haddress⟩), hremote⟩⟩

variable [Platform]

/-- No two connections ever stand at the same address. -/
theorem PeerEvent.step_apart (h : s.orb.connections.Apart) (event : PeerEvent) :
    (event.step s).orb.connections.Apart := by
  cases event with
  | getConnection host port address uuid =>
      rw [step]
      split
      next hvacant =>
        cases hfind : s.orb.connections.findByRemote (cString host) port with
        | some c =>
            rw [ORB.getConnection_found hfind]
            exact h
        | none =>
            rcases ORB.getConnection_strange hfind address uuid with
              ⟨proto, protocols, hrun⟩ | ⟨f, hrun⟩
            · rw [hrun]
              exact h.insert hvacant _
            · rw [hrun]
              exact h
      next => exact h
  | accepted peer protocolLocal address =>
      rw [step]
      split
      next hvacant => exact h.insert hvacant _
      next => exact h
  | request address r => exact h.update address r.received

/-- **There is one connection for each peer after an event exactly when it meets the condition.** -/
theorem PeerEvent.step_sole_iff (hapart : s.orb.connections.Apart) (h : s.Sole)
    (event : PeerEvent) : (event.step s).Sole ↔ event.Distinct s := by
  cases event with
  | getConnection host port address uuid =>
      rw [step]
      split
      next hvacant => exact iff_of_true (h.getConnection host port hvacant uuid) trivial
      next => exact iff_of_true h trivial
  | accepted peer protocolLocal address =>
      rw [step, Distinct]
      by_cases hvacant : s.orb.connections.Vacant address
      · rw [if_pos hvacant, forall_prop_of_true hvacant]
        exact h.insert_iff hvacant _
      · rw [if_neg hvacant]
        exact iff_of_true h fun hyes => absurd hyes hvacant
  | request address r =>
      rw [step, Distinct]
      by_cases hvacant : s.orb.connections.Vacant address
      · rw [ConnectionPool.update_of_vacant hvacant]
        exact iff_of_true h fun c hc => absurd rfl (hvacant _ hc)
      · rw [ConnectionPool.Vacant] at hvacant
        push Not at hvacant
        obtain ⟨⟨_, connection⟩, hmem, rfl⟩ := hvacant
        rw [h.update_iff hapart hmem, r.received_eq]
        constructor
        · intro hfar c hc
          rw [(Prod.mk.inj (hapart _ hc _ hmem rfl)).2]
          exact hfar
        · intro hall
          exact hall connection hmem

end Events

/-! ### All events -/

/-- **There is one connection for each peer all along exactly when no peer is accepted to which there
is a connection already, and no request gives its connection the far end of another one, or a new one
while somebody has asked for the connection by the old one.** -/
theorem sole_always_iff [Platform] (protocols : List HostAndPort) (events : List PeerEvent) :
    Runs.Always PeerEvent.step Pooled.Sole ⟨⟨protocols, []⟩, []⟩ events ↔
      Runs.Meets PeerEvent.step (fun s event => event.Distinct s) ⟨⟨protocols, []⟩, []⟩ events := by
  refine Runs.always_iff_meets (I := fun s => s.orb.connections.Apart)
    (fun _ event h => event.step_apart h) (fun _ event hapart h => event.step_sole_iff hapart h)
    ?_ ⟨?_, ?_⟩
  · intro c hc
    cases hc
  · intro c hc
    cases hc
  · intro a address hmem
    cases hmem

/-- A request over an accepted connection that announces where its sender listens. -/
def announcement (a : HostAndPort)
    (h : Giop.Message .big 1 2 72 (.request (announcing a))
      (Giop.encoded .big 1 2 72 (.request (announcing a)))) : ArrivedRequest :=
  ⟨.big, 1, 2, 72, announcing a, _, h⟩

/-- Two ORBs open a connection to each other at the same time.  When the other one announces where it
listens, there are two connections to it. -/
theorem connections_to_each_other_not_sole :
    letI : Platform := ⟨.little⟩
    ∃ events : List PeerEvent,
      let s := events.foldl PeerEvent.step ⟨⟨[⟨ascii "n", 1⟩], []⟩, []⟩
      (s.orb.connections.map fun c => (c.1, c.2.remote)) =
        [(0, ⟨ascii "h", 5⟩), (1, ⟨ascii "h", 5⟩)] ∧ ¬ s.Sole := by
  let : Platform := ⟨.little⟩
  have hmessage : Giop.Message .big 1 2 72 (.request (announcing ⟨ascii "h", 5⟩))
      (Giop.encoded .big 1 2 72 (.request (announcing ⟨ascii "h", 5⟩))) :=
    Giop.message_encoded (by decide +kernel) (by decide +kernel)
  have hpoints : (announcement _ hmessage).points = [⟨ascii "h", 5⟩] := rfl
  let events : List PeerEvent := [.getConnection (ascii "h") 5 0 [],
    .accepted ⟨ascii "r", 2⟩ ⟨ascii "n", 1⟩ 1, .request 1 (announcement _ hmessage)]
  have hpool : (events.foldl PeerEvent.step ⟨⟨[⟨ascii "n", 1⟩], []⟩, []⟩).orb.connections =
      [(0, ⟨⟨ascii "h", 5⟩, ⟨ascii "n", 1⟩, false⟩), (1, ⟨⟨ascii "h", 5⟩, ⟨ascii "n", 1⟩, false⟩)] := by
    simp only [events, List.foldl_cons, List.foldl_nil, PeerEvent.step]
    rw [funext (announcement _ hmessage).received_eq, hpoints]
    decide +kernel
  refine ⟨events, ?_, ?_⟩
  · rw [hpool]
    rfl
  · intro h
    have hone := h.one
    rw [hpool] at hone
    have hsame := hone _ (List.mem_cons_self ..) _ (List.mem_cons_of_mem _ (List.mem_singleton_self _))
      rfl
    exact absurd (congrArg Prod.fst hsame) (by decide)

end Corba
