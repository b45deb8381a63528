/-
Objects by their names.

`ORB::stringToObject` of `src/corba/orb.cc` takes a text.  A stringified reference is a reference at
once.  For a name, the ORB looks for a connection to the first address, opens one if there is none, and
calls the naming service at the other end.  Nothing else is taken.

Main definitions:

* `Corba.ORB.stringToObject` — up to the call of the naming service;
* `Corba.Host.stringToObject` — the call as well;
* `Corba.Names` — the text of a name at some end;
* `Corba.Named.answer` — what the caller gets, in terms of what has been bound.

Main results:

* `Corba.names_str` — the texts that are printed for names;
* `Corba.names_answered` — **what any caller gets for any name after any calls**;
* `Corba.named_object_called` — **the reference leads to the object until its ORB is shut down**.
-/

import Corba.Bidirectional
import Corba.NameTable
import Corba.NamingService
import Corba.UrlRoundTrip

set_option relaxedAutoImplicit false
set_option autoImplicit false

namespace Corba

open Layout ByteOrder Placed Exec

variable {ω σ : Type}

namespace ORB

def stringToObjectFailed (iorString : Octets) : String :=
  "ORB::stringToObject(\"" ++ text iorString ++ "\") failed"

/-- What is left to do once the text has been decoded: nothing, or a call of `resolve_str`. -/
inductive Lookup where
  | reference (reference : IOR)
  | resolve_str (connection : ℕ × Connection) (objectKey name : Octets)

/-- Up to the call.  The address of a new connection and the name of a protocol that does not listen
are inputs. -/
def stringToObject [Platform] (iorString : Octets) (address : ℕ) (uuid : Octets) :
    EStateM Fault Peers Lookup := do
  match decodeURI iorString with
  | .error f => throw f
  | .ok (.ior ior) => return .reference ior
  | .ok (.location _) => throw (.thrown (.runtimeError (stringToObjectFailed iorString)))
  | .ok (.name name) =>
      match name.addr with
      | [] => throw (.undefined (.overread 0 1))
      | addr :: _ =>
          if addr.proto = ascii "iiop" then
            let nameConnection ← getConnection addr.host addr.port address uuid
            return .resolve_str nameConnection name.objectKey name.name
          else throw (.thrown (.runtimeError (stringToObjectFailed iorString)))

end ORB

/-- The other end of each connection: the host there, and the connection as it is known to it. -/
abbrev Network := Connection → Host × Connection

/-- What the caller of `stringToObject` gets at this host, and the connections it has then. -/
def Host.stringToObject (near : Host) (network : Network) (iorString : Octets) (address : ℕ)
    (uuid : Octets) (requestId : UInt32) (orb : ORB.Peers) :
    Option (Except Fault IOR) × ORB.Peers :=
  match @ORB.stringToObject near.platform iorString address uuid orb with
  | .error f orb => (some (.error f), orb)
  | .ok (.reference reference) orb => (some (.ok reference), orb)
  | .ok (.resolve_str c objectKey name) orb =>
      let far := network c.2
      (NamingContextExtStub.resolve_str near far.1 c.2 far.2 requestId objectKey name, orb)

/-! ### The texts of names -/

/-- The text of a name in the naming service of the ORB that listens at this end. -/
def Names [Platform] (iorString : Octets) (a : HostAndPort) (id : Octets) : Prop :=
  ∃ (name : CorbaName) (addr : ObjectAddress) (rest : List ObjectAddress),
    decodeURI iorString = .ok (.name name) ∧ name.addr = addr :: rest ∧
    addr.proto = ascii "iiop" ∧ (⟨addr.host, addr.port⟩ : HostAndPort) = a ∧
    name.objectKey = ascii "NameService" ∧ name.name = id

/-- **What is printed for a name is its text**: any addresses may follow the first one. -/
theorem names_str [Platform] (major minor : UInt8) {host : Octets} (port : UInt16)
    {rest : List ObjectAddress} {id : Octets} (hhost : IsHost host)
    (hrest : ∀ a ∈ rest, Printable a) (hid : Plain id) (hne : id ≠ []) :
    Names (CorbaName.str ⟨⟨⟨ascii "iiop", major, minor, host, port⟩ :: rest, []⟩, id⟩) ⟨host, port⟩
      id := by
  have haddr : ∀ a ∈ (⟨ascii "iiop", major, minor, host, port⟩ : ObjectAddress) :: rest,
      Printable a := by
    intro a ha
    obtain rfl | ha := List.mem_cons.1 ha
    · exact .iiop major minor port hhost
    · exact hrest a ha
  exact ⟨_, _, rest, decodeURI_str_keyless (by simp) haddr hid hne, rfl, rfl, rfl, rfl, rfl⟩

/-- The naming service at the other end of a connection is asked for the name. -/
theorem Host.stringToObject_names {near : Host} {iorString id uuid : Octets} {a : HostAndPort}
    {address : ℕ} {orb orb' : ORB.Peers} {c : ℕ × Connection}
    (hnames : @Names near.platform iorString a id)
    (hconnection : ORB.getConnection a.host a.port address uuid orb = .ok c orb')
    (network : Network) (requestId : UInt32) :
    near.stringToObject network iorString address uuid requestId orb =
      (NamingContextExtStub.resolve_str near (network c.2).1 c.2 (network c.2).2 requestId
        (ascii "NameService") id, orb') := by
  obtain ⟨name, addr, rest, hdecode, haddr, hproto, rfl, hkey, rfl⟩ := hnames
  have hlookup : @ORB.stringToObject near.platform iorString address uuid orb =
      .ok (.resolve_str c name.objectKey name.name) orb' := by
    unfold ORB.stringToObject
    rw [hdecode]
    dsimp only
    rw [haddr]
    dsimp only
    rw [if_pos hproto, bind_ok hconnection]
    rfl
  rw [Host.stringToObject, hlookup, hkey]

/-! ### What a reference leads to -/

/-- Whoever calls an operation of the object with this key calls the code of this servant. -/
def Host.Reaches (far : Host) (objectKey : Octets) (servant : Servant) : Prop :=
  ∀ (caller : Host) (connection accepted : Connection) (requestId : UInt32) (operation : CString)
    (args : List Value) (argReaders readers : List Reader) (code : List Value → Ending),
    operation.1 ≠ ascii "_is_a" →
    @Servant.Implements far.platform servant operation argReaders code →
    @Value.Readable far.platform caller.platform.native args argReaders →
    (∀ results, code args = .returns results →
      @Value.Readable caller.platform far.platform.native results readers) →
    code args ≠ .throws .other →
    extent 12 (Giop.request caller.platform.native false (some connection) objectKey
      operation requestId true ++ Value.itemsAll caller.platform.native args) < 2 ^ 32 →
    extent 24 (@Ending.body far.platform (code args)) < 2 ^ 32 →
    remoteCall caller far connection accepted requestId objectKey operation args readers =
      (code args).seen connection

theorem Host.reaches_of_servant {far : Host} {objectKey : Octets} {servant : Servant}
    (h : far.servants objectKey = some servant) : far.Reaches objectKey servant := by
  intro caller connection accepted requestId operation args argReaders readers code hop himplements
    hargs hresults hcaught hrequest hreply
  obtain ⟨reply, d, hbuffer, hstatus, hlaid, hlength, hcall⟩ := remoteCallOf_runs caller far
    connection accepted requestId objectKey operation args argReaders code
    (@Reader.scanAll caller.platform readers)
    (@Runs.servant far.platform _ _ _ _ _ _ h hop himplements) hargs hcaught hrequest hreply
  rw [remoteCall, hcall]
  exact @stubResult_ending caller.platform reply d far (code args) readers _ hcaught hbuffer hstatus
    hlaid hlength (hlength ▸ hreply) hresults

/-! ### What a caller gets -/

/-- What the caller gets for a name: a reference to the object that has been bound to it, an exception
when there is none, and another exception when nothing has been bound at all. -/
def Named.answer (impl : σ → Servant) (s : Named ω σ) (o : ω) (connection accepted : Connection)
    (id : Octets) : Option (Except Fault IOR) :=
  let throws (t : Thrown) : Option (Except Fault IOR) :=
    (t.crossed connection).map fun t => .error (.thrown t)
  if (s.bound o).isEmpty then throws (.systemException ⟨.objectNotExist, 0x4f4d0001, .no⟩)
  else
    match (s.bound o).lookup id with
    | some obj =>
        some (.ok ⟨obj.repositoryId impl, accepted.protocolLocal.host, accepted.protocolLocal.port,
          s.world.objectKey obj⟩)
    | none => throws (.runtimeError (ORB.notBound id))

/-- The reply about a name can be expressed, and so can the reference in it. -/
structure Named.Expressible [Platform] (impl : σ → Servant) (s : Named ω σ) (o : ω)
    (accepted : Connection) (id : Octets) : Prop where
  reference : ∀ obj, (s.bound o).lookup id = some obj →
    Giop.Referable 1 2 (obj.repositoryId impl) accepted.protocolLocal (s.world.objectKey obj) ∧
      extent 24 (Giop.reference native 24 1 2 (obj.repositoryId impl) accepted.protocolLocal
        (s.world.objectKey obj)) < 2 ^ 32
  report : (s.bound o).lookup id = none →
    extent 24 (Ending.throws (.runtimeError (ORB.notBound id))).body < 2 ^ 32

section Answer

variable {near : Host} {platform : Platform} {impl : Platform → σ → Servant} {s : Named ω σ} {o : ω}

/-- When the ORB has a naming service, it answers what is in its table. -/
theorem Named.answer_of_service (htables : s.world.Tables s.bound) {ns : ServantRef σ}
    (hns : (s.world.registry o).namingService = some ns) (connection accepted : Connection)
    (id : Octets) :
    s.answer (impl platform) o connection accepted id =
      s.world.resolved (impl platform) ns connection accepted id := by
  obtain ⟨hne, hnames⟩ := htables.names o ns hns
  have hempty : ¬ (s.bound o).isEmpty = true := by simpa using hne
  rw [Named.answer, World.resolved, hnames id]
  refine (if_neg hempty).trans ?_
  cases (s.bound o).lookup id with
  | some obj => rfl
  | none => rfl

/-- Without a naming service, nothing is found. -/
theorem Named.answer_of_nothing (htables : s.world.Tables s.bound)
    (hns : (s.world.registry o).namingService = none) (connection accepted : Connection)
    (requestId : UInt32) (id : Octets)
    (hrequest : extent 12 (Giop.request near.platform.native false (some connection)
      (ascii "NameService") (cString (ascii "resolve_str")) requestId true ++
        Value.itemsAll near.platform.native [.string id]) < 2 ^ 32) :
    NamingContextExtStub.resolve_str near (s.world.host platform impl o) connection accepted
        requestId (ascii "NameService") id =
      s.answer (impl platform) o connection accepted id := by
  have hnone : (s.world.host platform impl o).servants (ascii "NameService") = none := by
    rw [World.host_servants, htables.found o, hns, Option.map_none]
  have hreadable : @Value.Readable platform near.platform.native [.string id] [.string] :=
    .cons ⟨by simp [Value.readers], .inr trivial⟩ .nil
  have hbody : extent 24 (@Ending.body platform (.throws (.systemException
      ⟨.objectNotExist, 0x4f4d0001, .no⟩))) < 2 ^ 32 := by
    cases platform with
    | mk e => cases e <;> decide +kernel
  obtain ⟨reply, d, hbuffer, hstatus, hlaid, hlength, hcall⟩ := remoteCallOf_runs near
    (s.world.host platform impl o) connection accepted requestId (ascii "NameService")
    (cString (ascii "resolve_str")) [.string id] [.string] notExistCode
    (@GIOPDecoder.readReferenceHere near.platform) (@Runs.none platform _ _ _ _ hnone) hreadable
    (by simp [notExistCode]) hrequest hbody
  have hcalled : NamingContextExtStub.resolve_str near (s.world.host platform impl o) connection
      accepted requestId (ascii "NameService") id = _ := hcall
  have hthrown := @stubResult_throws near.platform reply d _ (s.world.host platform impl o)
    (.systemException ⟨.objectNotExist, 0x4f4d0001, .no⟩) { connection with didSendBiDirIIOP := true }
    (@GIOPDecoder.readReferenceHere near.platform) (by simp) hbuffer hstatus hlaid hlength
    (hlength ▸ hbody)
  rw [hcalled, hthrown, Named.answer, htables.unused o hns]
  rfl

/-- **The naming service of an ORB answers what has been bound there.** -/
theorem Named.resolve_str_answer (htables : s.world.Tables s.bound)
    (connection accepted : Connection) (requestId : UInt32) (id : Octets)
    (hrequest : extent 12 (Giop.request near.platform.native false (some connection)
      (ascii "NameService") (cString (ascii "resolve_str")) requestId true ++
        Value.itemsAll near.platform.native [.string id]) < 2 ^ 32)
    (hreply : @Named.Expressible ω σ platform (impl platform) s o accepted id) :
    NamingContextExtStub.resolve_str near (s.world.host platform impl o) connection accepted
        requestId (ascii "NameService") id =
      s.answer (impl platform) o connection accepted id := by
  cases hns : (s.world.registry o).namingService with
  | none => exact answer_of_nothing htables hns connection accepted requestId id hrequest
  | some ns =>
      obtain ⟨n, rfl⟩ := htables.created o ns hns
      obtain ⟨-, hnames⟩ := htables.names o _ hns
      have hservice : s.world.find o (ascii "NameService") = some (.namingContext n) :=
        (htables.found o).trans hns
      rw [answer_of_service htables hns]
      refine resolve_str_far near s.world platform impl o connection accepted requestId _ id n
        hservice ?_ hrequest ?_
      · intro obj hobj
        rw [hnames id] at hobj
        exact (hreply.reference obj hobj).1
      · rw [World.resolution, hnames id]
        cases hlookup : (s.bound o).lookup id with
        | some obj => exact (hreply.reference obj hlookup).2
        | none => exact hreply.report hlookup

end Answer

section Calls

variable [DecidableEq ω] [DecidableEq σ]

/-- **What any caller gets for any name after any calls.**  It is decided by what has been bound since
the ORB at the other end was last shut down. -/
theorem names_answered (near : Host) (network : Network) (platform : Platform)
    (impl : Platform → σ → Servant) (events : List (NamingEvent ω σ)) (o : ω)
    (iorString id uuid : Octets) (a : HostAndPort) (address : ℕ) (requestId : UInt32)
    (orb orb' : ORB.Peers) (c : ℕ × Connection) (accepted : Connection)
    (hordinary : ∀ e ∈ events, e.Ordinary) (hnames : @Names near.platform iorString a id)
    (hconnection : ORB.getConnection a.host a.port address uuid orb = .ok c orb')
    (hnetwork : network c.2 =
      ((events.foldl NamingEvent.step {}).world.host platform impl o, accepted))
    (hrequest : extent 12 (Giop.request near.platform.native false (some c.2)
      (ascii "NameService") (cString (ascii "resolve_str")) requestId true ++
        Value.itemsAll near.platform.native [.string id]) < 2 ^ 32)
    (hreply : @Named.Expressible ω σ platform (impl platform) (events.foldl NamingEvent.step {}) o
      accepted id) :
    near.stringToObject network iorString address uuid requestId orb =
      ((events.foldl NamingEvent.step {}).answer (impl platform) o c.2 accepted id, orb') := by
  obtain ⟨-, htables⟩ := Named.tables_run events hordinary
  rw [near.stringToObject_names hnames hconnection, hnetwork]
  dsimp only
  rw [Named.resolve_str_answer htables c.2 accepted requestId id hrequest hreply]

/-- A program on a big endian host binds an adder. -/
def adderEvents : List (NamingEvent Bool Unit) := [.call (.bind true (ascii "Add") (.impl ()))]

/-- The code of the adder. -/
def adderCode (platform : Platform) (_ : Unit) : Servant := @adder platform

/-- All connections lead to this program, which may have been called since. -/
def adderNetwork (later : List (NamingEvent Bool Unit)) : Network := fun _ =>
  (((adderEvents ++ later).foldl NamingEvent.step {}).world.host ⟨.big⟩ adderCode true,
    ⟨⟨ascii "near", 2810⟩, ⟨ascii "far", 2809⟩, false⟩)

theorem names_adder [Platform] (id : Octets) (hid : id.all fun c => isUriChar c && c != 37)
    (hne : id ≠ []) :
    Names (CorbaName.str ⟨⟨[{ host := ascii "far" }], []⟩, id⟩) ⟨ascii "far", 2809⟩ id := by
  have hhost : IsHost (ascii "far") := by
    have hlabel : IsLabel (ascii "far") := ⟨_, _, rfl, by decide, forall_mem_of_all (by decide)⟩
    have h := IsHost.labels [ascii "far"] (by simp) (by simp [hlabel])
    exact h
  refine names_str 1 0 2809 hhost (by simp) ?_ hne
  intro c hc
  simpa using List.all_eq_true.1 hid c hc

/-- One name is bound, another one is not. -/
theorem names_answered_adder :
    let near : Host := ⟨⟨.little⟩, fun _ => none⟩
    let orb : ORB.Peers := ⟨[⟨ascii "near", 2810⟩], []⟩
    let ask (id : Octets) := (near.stringToObject (adderNetwork [])
      (CorbaName.str ⟨⟨[{ host := ascii "far" }], []⟩, id⟩) 0 [] 4 orb).1
    ask (ascii "Add") = some (.ok ⟨ascii "IDL:Adder:1.0", ascii "far", 2809, ascii "OID:1"⟩) ∧
      ask (ascii "Sub") = (Thrown.crossed ORB.addConnection
        (.runtimeError (ORB.notBound (ascii "Sub")))).map fun t => .error (.thrown t) := by
  intro near orb ask
  have hordinary : ∀ e ∈ adderEvents, e.Ordinary := by simp [adderEvents, NamingEvent.Ordinary]
  constructor
  · have h := names_answered near (adderNetwork []) ⟨.big⟩ adderCode adderEvents true _ (ascii "Add")
      [] ⟨ascii "far", 2809⟩ 0 4 orb ⟨orb.protocols, [(0, ORB.addConnection)]⟩ (0, ORB.addConnection) _
      hordinary (@names_adder ⟨.little⟩ _ (by decide) (by decide)) rfl rfl (by decide +kernel)
      (@Named.Expressible.mk _ _ ⟨.big⟩ _ _ _ _ _
        (by rintro obj ⟨⟩; exact ⟨by decide +kernel, by decide +kernel⟩) (by rintro ⟨⟩))
    exact (congrArg Prod.fst h).trans rfl
  · have h := names_answered near (adderNetwork []) ⟨.big⟩ adderCode adderEvents true _ (ascii "Sub")
      [] ⟨ascii "far", 2809⟩ 0 4 orb ⟨orb.protocols, [(0, ORB.addConnection)]⟩ (0, ORB.addConnection) _
      hordinary (@names_adder ⟨.little⟩ _ (by decide) (by decide)) rfl rfl (by decide +kernel)
      (@Named.Expressible.mk _ _ ⟨.big⟩ _ _ _ _ _ (by rintro obj ⟨⟩) fun _ => by decide +kernel)
    exact (congrArg Prod.fst h).trans rfl

/-- **A reference to a bound object leads to it until its ORB is shut down**, wherever it is used and
whatever else is called, when the object has been found under its key. -/
theorem named_object_called (near : Host) (network : Network) (platform : Platform)
    (impl : Platform → σ → Servant) (events later : List (NamingEvent ω σ)) (o : ω)
    (iorString id uuid : Octets) (a : HostAndPort) (address : ℕ) (requestId : UInt32)
    (orb orb' : ORB.Peers) (c : ℕ × Connection) (accepted : Connection) (obj : ServantRef σ)
    (hordinary : ∀ e ∈ events, e.Ordinary) (hspares : ∀ e ∈ later, e.Spares o)
    (hnames : @Names near.platform iorString a id)
    (hconnection : ORB.getConnection a.host a.port address uuid orb = .ok c orb')
    (hnetwork : network c.2 =
      ((events.foldl NamingEvent.step {}).world.host platform impl o, accepted))
    (hbound : ((events.foldl NamingEvent.step {}).bound o).lookup id = some obj)
    (hfound : (events.foldl NamingEvent.step {}).world.find o
      ((events.foldl NamingEvent.step {}).world.objectKey obj) = some obj)
    (hrequest : extent 12 (Giop.request near.platform.native false (some c.2)
      (ascii "NameService") (cString (ascii "resolve_str")) requestId true ++
        Value.itemsAll near.platform.native [.string id]) < 2 ^ 32)
    (hreply : @Named.Expressible ω σ platform (impl platform) (events.foldl NamingEvent.step {}) o
      accepted id) :
    let key := (events.foldl NamingEvent.step {}).world.objectKey obj
    let w := ((events ++ later).foldl NamingEvent.step {}).world
    near.stringToObject network iorString address uuid requestId orb =
        (some (.ok ⟨obj.repositoryId (impl platform), accepted.protocolLocal.host,
          accepted.protocolLocal.port, key⟩), orb') ∧
      (w.host platform impl o).Reaches key (@World.code ω σ platform (impl platform) w obj) := by
  intro key w
  obtain ⟨-, htables⟩ := Named.tables_run events hordinary
  have hne : ¬ ((events.foldl NamingEvent.step {} : Named ω σ).bound o).isEmpty = true := by
    intro hempty
    rw [List.isEmpty_iff.1 hempty] at hbound
    cases hbound
  constructor
  · rw [near.stringToObject_names hnames hconnection, hnetwork]
    dsimp only
    rw [Named.resolve_str_answer htables c.2 accepted requestId id hrequest hreply, Named.answer]
    dsimp only
    rw [if_neg hne, hbound]
  · have hlater := World.find_run later hspares hfound
    rw [← List.foldl_append] at hlater
    refine Host.reaches_of_servant ?_
    rw [World.host_servants, hlater, Option.map_some]

end Calls

/-- The adder is called from a third host, after it has been activated again. -/
theorem named_object_called_adder :
    let near : Host := ⟨⟨.little⟩, fun _ => none⟩
    let later : List (NamingEvent Bool Unit) := [.call (.shutdown false),
      .call (.activateObject true (.impl ()))]
    (near.stringToObject (adderNetwork []) (CorbaName.str ⟨⟨[{ host := ascii "far" }], []⟩,
        ascii "Add"⟩) 0 [] 4 ⟨[⟨ascii "near", 2810⟩], []⟩).1 =
        some (.ok ⟨ascii "IDL:Adder:1.0", ascii "far", 2809, ascii "OID:1"⟩) ∧
      remoteCall ⟨⟨.little⟩, fun _ => none⟩ (adderNetwork later ORB.addConnection).1 ORB.addConnection
        ORB.addConnection 6 (ascii "OID:1") (cString (ascii "add")) [.ulong 258, .ulong 3] [.ulong] =
        some (.ok [.ulong 261]) := by
  intro near later
  obtain ⟨hreference, hreaches⟩ := named_object_called near (adderNetwork []) ⟨.big⟩
    adderCode adderEvents later true (CorbaName.str ⟨⟨[{ host := ascii "far" }], []⟩, ascii "Add"⟩)
    (ascii "Add") [] ⟨ascii "far", 2809⟩ 0 4 ⟨[⟨ascii "near", 2810⟩], []⟩
    ⟨[⟨ascii "near", 2810⟩], [(0, ORB.addConnection)]⟩ (0, ORB.addConnection) _ (.impl ())
    (by simp [adderEvents, NamingEvent.Ordinary]) (by simp [later, NamingEvent.Spares])
    (@names_adder ⟨.little⟩ _ (by decide) (by decide)) rfl rfl (by decide) (by decide)
    (by decide +kernel) (@Named.Expressible.mk _ _ ⟨.big⟩ _ _ _ _ _
      (by rintro obj ⟨⟩; exact ⟨by decide +kernel, by decide +kernel⟩) (by rintro ⟨⟩))
  refine ⟨congrArg Prod.fst hreference, ?_⟩
  refine hreaches ⟨⟨.little⟩, fun _ => none⟩ ORB.addConnection ORB.addConnection 6
    (cString (ascii "add")) [.ulong 258, .ulong 3] [.ulong, .ulong] [.ulong] addCode (by decide)
    (@adder_implements ⟨.big⟩ _) ?_ ?_ (by decide) (by decide +kernel) (by decide +kernel)
  · exact .cons ⟨by decide, .inr trivial⟩ (.cons ⟨by decide, .inr trivial⟩ .nil)
  · rintro _ ⟨⟩
    exact .cons ⟨by decide, .inr trivial⟩ .nil

end Corba
