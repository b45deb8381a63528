/-
The naming service from far away.

`NamingContextExtImpl` of `src/corba/naming.cc` is a servant like any other.  Its operations resolve a
name and write a reference to the object, or throw what `resolve` throws.  A stub at another host reads
the reference, which tells the host and the port at which the ORB of the object listens, and the key
under which the ORB finds the object.

Main definitions:

* `Corba.NamingContextExtImpl.servant` — the naming service as a servant of an ORB;
* `Corba.World.host` — an ORB with all its servants, the naming service among them;
* `Corba.NamingContextExtStub.resolve_str` — the call, from the stub to the naming service and back;
* `Corba.ServantRef.resolved` — what the caller gets.

Main results:

* `Corba.ORB.thenOrCatch_written` — a reply with whatever has been written;
* `Corba.GIOPDecoder.readReference_run` — a reference that is laid out is read;
* `Corba.resolve_str_far` — **a name is resolved to a reference to what is bound to it, and a name that
  is not bound is answered with an exception.**
-/

import Corba.BoundNames
import Corba.References
import Corba.RemoteCall

set_option relaxedAutoImplicit false
set_option autoImplicit false

namespace Corba

open Layout ByteOrder Placed Exec

variable {ω σ : Type}

/-! ### The servant -/

/-- What the code of a servant, which is a coroutine, comes to.  What is undefined is not answered. -/
def Dispatch.of : Except Fault (List WriteCall) → Dispatch
  | .ok calls => { writing := ⟨calls, .returns⟩ }
  | .error (.thrown t) => { writing := ⟨[], .throws t⟩ }
  | .error (.undefined _) => { writing := ⟨[], .throws .other⟩ }

namespace NamingContextExtImpl

def rid : Octets := ascii "IDL:omg.org/CosNaming/NamingContext:1.0"

def badOperation (operation : Octets) : String :=
  "bad operation: '" ++ text operation ++ "' does not exist"

end NamingContextExtImpl

/-- `repository_id`.  The code of what is not a naming context is given. -/
def ServantRef.repositoryId (impl : σ → Servant) : ServantRef σ → Octets
  | .impl s => (impl s).repositoryId
  | .namingContext _ => NamingContextExtImpl.rid

/-- What `writeObject` is given for a servant. -/
def World.skeleton (impl : σ → Servant) (w : World ω σ) (s : ServantRef σ) : Skeleton :=
  ⟨s.repositoryId impl, w.objectKey s⟩

namespace NamingContextExtImpl

section Code

variable [Platform] (impl : σ → Servant) (w : World ω σ) (self : ServantRef σ)

/-- The name among the arguments of `resolve`.  About the others there is a warning at most. -/
def resolveArgument : ScanM Octets := do
  let _entries ← GIOPDecoder.readUlong
  let name ← GIOPDecoder.readString
  let _key ← GIOPDecoder.readString
  return name

def _orb_resolve (d : GIOPDecoder) : Except Fault (List WriteCall) := do
  let name ← resultOf (resolveArgument d)
  let result ← resultOf (ORB.resolveName self name w)
  return [.object (some (.skeleton (w.skeleton impl result)))]

def _orb_resolve_str (d : GIOPDecoder) : Except Fault (List WriteCall) := do
  let name ← resultOf (GIOPDecoder.readString d)
  let result ← resultOf (ORB.resolveName self name w)
  return [.object (some (.skeleton (w.skeleton impl result)))]

def _dispatch (operation : Octets) (d : GIOPDecoder) : Except Fault (List WriteCall) :=
  if operation = ascii "resolve" then _orb_resolve impl w self d
  else if operation = ascii "resolve_str" then _orb_resolve_str impl w self d
  else .error (.thrown (.runtimeError (badOperation operation)))

def servant : Servant where
  repositoryId := rid
  dispatch operation d := .of (_dispatch impl w self operation d)

end Code

end NamingContextExtImpl

/-- The code of all servants. -/
def World.code [Platform] (impl : σ → Servant) (w : World ω σ) : ServantRef σ → Servant
  | .impl s => impl s
  | .namingContext n => NamingContextExtImpl.servant impl w (.namingContext n)

/-- An ORB on a host of its own. -/
def World.host (w : World ω σ) (platform : Platform) (impl : Platform → σ → Servant) (o : ω) :
    Host :=
  ⟨platform, ORB.servants o (@World.code ω σ platform (impl platform) w) w⟩

/-! ### The stub -/

/-- `readReference`, which reads the length of the type itself when it is not given. -/
def GIOPDecoder.readReferenceHere [Platform] : ScanM IOR := do
  readReference (← readUlong).toNat

/-- A call of `resolve_str` at the near host, for a naming service at the far one. -/
def NamingContextExtStub.resolve_str (near far : Host) (connection accepted : Connection)
    (requestId : UInt32) (objectKey name : Octets) : Option (Except Fault IOR) :=
  remoteCallOf near far connection accepted requestId objectKey (cString (ascii "resolve_str"))
    ⟨[.value (.string name)], .returns⟩ (@GIOPDecoder.readReferenceHere near.platform)

/-! ### References in replies -/

section References

variable [Platform] {D : Octets} {o : ℕ} {e : Endian} {d d' : GIOPDecoder}

/-- An object is a reference behind the length of its type. -/
theorem GIOPDecoder.readObject_some {r : IOR} (h : readObject true d = .ok (some r) d') :
    readReferenceHere d = .ok r d' := by
  rw [readObject, bind_eq_ok] at h
  obtain ⟨code, d₁, hcode, h⟩ := h
  by_cases hnull : code = 0
  · rw [if_pos hnull] at h
    cases h
  by_cases hvalue : code &&& 0xffffff00 = 0x7fffff00
  · rw [if_neg hnull, if_pos hvalue] at h
    cases h
  by_cases hpointer : code = 0xffffffff
  · rw [if_neg hnull, if_neg hvalue, if_pos hpointer] at h
    cases h
  by_cases hlength : code < 0x7fffff00
  · rw [if_neg hnull, if_neg hvalue, if_neg hpointer, if_pos hlength] at h
    obtain ⟨ref, d₂, href, hpure⟩ := (bind_eq_ok (x := readReference code.toNat)).1 h
    cases hpure
    rw [readReferenceHere, bind_ok hcode, href]
  · rw [if_neg hnull, if_neg hvalue, if_neg hpointer, if_neg hlength] at h
    cases h

/-- **A reference that is laid out is read.** -/
theorem GIOPDecoder.readReference_run {major minor : ℕ} {repositoryId objectKey : Octets}
    {a : HostAndPort}
    (h : Laid D o (Giop.reference e o major minor repositoryId a objectKey))
    (href : Giop.Referable major minor repositoryId a objectKey) (hD : D.length < 2 ^ 63) :
    readReferenceHere (d.on D o e) = .ok ⟨repositoryId, a.host, a.port, objectKey⟩
      (d.on D (extent o (Giop.reference e o major minor repositoryId a objectKey)) e) :=
  readObject_some (readObject_run h href hD)

/-- **A reply with whatever has been written.** -/
theorem ORB.thenOrCatch_written {request : RequestHeader} {call : Dispatch} {xs : Cdr.Items}
    {c : Option Connection} (hexpected : request.responseExpected = true) (hd : d.Speaks 1 2)
    (hwrites : GIOPEncoder.Writes call.writing.run (replyRoom d) xs c) (r : Reception) :
    ∃ message, thenOrCatch request (replyRoom d) call r =
        .ok () { r with events := r.events ++ [.send message] } ∧
      IsReply 1 2 request.requestId .noException message ∧ message.length = extent 24 xs ∧
      Laid message 24 xs := by
  obtain ⟨b, hrun, hwrote⟩ := hwrites
  have hcontinues := call.writing.preserves_continues _ (replyRoom_continues d)
  rw [hrun] at hcontinues
  obtain ⟨message, hsend, hreply, hlength, hkeep⟩ :=
    sendReply_run hcontinues request.requestId .noException r
  rw [hd.1, hd.2] at hreply
  have hoffset : b.offset = extent 24 xs := hwrote.offset
  refine ⟨message, ?_, hreply, hlength.trans hoffset, ?_⟩
  · rw [thenOrCatch, hrun]
    simp only [onReturn, hexpected, if_true]
    exact hsend
  · exact hwrote.laid.keep hkeep le_rfl hoffset.ge

/-- User code that writes an object and returns. -/
theorem Writing.writes_object {o : Option Object} {g : GIOPEncoder} {xs : Cdr.Items}
    {c : Option Connection} (h : GIOPEncoder.Writes (GIOPEncoder.writeObject o) g xs c) :
    GIOPEncoder.Writes (Writing.run ⟨[.object o], .returns⟩) g xs c := by
  obtain ⟨b, hrun, hwrote⟩ := h
  have hcall : (WriteCall.object o).run g = .ok () { g with buffer := b, connection := c } := hrun
  have hall : WriteCall.runAll [.object o] g = .ok () { g with buffer := b, connection := c } := by
    rw [WriteCall.runAll, bind_ok hcall]
    rfl
  refine ⟨b, ?_, hwrote⟩
  rw [Writing.run, bind_ok hall]
  rfl

end References

/-! ### From one host to the other -/

/-- The body of the reply about a name. -/
def World.resolution [Platform] (impl : σ → Servant) (w : World ω σ) (self : ServantRef σ)
    (accepted : Connection) (name : Octets) : Cdr.Items :=
  match w.name2Object self name with
  | some obj =>
      Giop.reference native 24 1 2 (obj.repositoryId impl) accepted.protocolLocal (w.objectKey obj)
  | none => (Ending.throws (.runtimeError (ORB.notBound name))).body

/-- What the caller gets: a reference that leads to where the ORB of the object listens, or what becomes
of the exception. -/
def World.resolved (impl : σ → Servant) (w : World ω σ) (self : ServantRef σ)
    (connection accepted : Connection) (name : Octets) : Option (Except Fault IOR) :=
  match w.name2Object self name with
  | some obj =>
      some (.ok ⟨obj.repositoryId impl, accepted.protocolLocal.host, accepted.protocolLocal.port,
        w.objectKey obj⟩)
  | none =>
      (Thrown.crossed connection (.runtimeError (ORB.notBound name))).map fun t =>
        .error (.thrown t)

section Far

variable [Platform] {impl : σ → Servant} {w : World ω σ} {self : ServantRef σ} {D : Octets} {o : ℕ}
  {e : Endian} {d : GIOPDecoder} {name : Octets}

/-- What the naming service makes of a call of `resolve_str`. -/
theorem NamingContextExtImpl.dispatch_resolve_str {d' : GIOPDecoder}
    (hname : GIOPDecoder.readString d = .ok name d') :
    (servant impl w self).dispatch (ascii "resolve_str") d =
      match w.name2Object self name with
      | some obj => { writing := ⟨[.object (some (.skeleton (w.skeleton impl obj)))], .returns⟩ }
      | none => (Ending.throws (.runtimeError (ORB.notBound name))).dispatch := by
  have hother : ascii "resolve_str" ≠ ascii "resolve" := by decide
  have hdispatch : (servant impl w self).dispatch (ascii "resolve_str") d =
      .of (_orb_resolve_str impl w self d) := by
    show Dispatch.of (_dispatch impl w self (ascii "resolve_str") d) = _
    rw [_dispatch, if_neg hother, if_pos rfl]
  have hresult : _orb_resolve_str impl w self d = (do
      let result ← resultOf (ORB.resolveName self name w)
      return [.object (some (.skeleton (w.skeleton impl result)))]) := by
    rw [_orb_resolve_str, hname]
    rfl
  rw [hdispatch, hresult, ORB.resolveName, get_bind]
  cases w.name2Object self name with
  | some obj => rfl
  | none => rfl

/-- The status of the reply about a name. -/
def World.resolutionStatus (w : World ω σ) (self : ServantRef σ) (name : Octets) : ReplyStatus :=
  if (w.name2Object self name).isSome then .noException else .systemException

/-- **The reply of the naming service.** -/
theorem NamingContextExtImpl.handle_resolve_str {servants : Servants} {request : RequestHeader}
    {objectKey : Octets} {accepted : Connection}
    (hservant : servants objectKey = some (servant impl w self))
    (hexpected : request.responseExpected = true) (hspeaks : d.Speaks 1 2) (hfrom : d.From accepted)
    (hbuffer : d.buffer = ⟨D, o, some e⟩) (hD : D.length < 2 ^ 32) (hlength : name.length < 2 ^ 32 - 1)
    (h : Laid D o (Cdr.string e name)) :
    ∃ reply, (State (ORB.handle servants request objectKey (cString (ascii "resolve_str"))
        ⟨d, []⟩)).events = [.send reply] ∧
      ORB.IsReply 1 2 request.requestId (w.resolutionStatus self name) reply ∧
      reply.length = extent 24 (w.resolution impl self accepted name) ∧
      Laid reply 24 (w.resolution impl self accepted name) := by
  have hname : GIOPDecoder.readString d = .ok name
      (d.on D (roundUp 4 o + 4 + (name.length + 1)) e) := by
    have hread := GIOPDecoder.readString_on (d := d) h (by omega) (by omega)
    rwa [GIOPDecoder.on, ← hbuffer] at hread
  have hoperation : (cString (ascii "resolve_str") : Octets) = ascii "resolve_str" := by decide
  rw [ORB.handle_servant hservant (by decide), ORB.dispatch_run, hoperation,
    dispatch_resolve_str hname, World.resolution, World.resolutionStatus]
  cases w.name2Object self name with
  | some obj =>
      obtain ⟨c, hc, hlocal⟩ := hfrom
      have hwritten := Writing.writes_object
        (GIOPEncoder.writes_servant (ORB.replyRoom d) hc (w.skeleton impl obj))
      have hanswer : ∃ message, ORB.thenOrCatch request (ORB.replyRoom d)
          { writing := ⟨[.object (some (.skeleton (w.skeleton impl obj)))], .returns⟩ } ⟨d, []⟩ =
            .ok () ⟨d, [] ++ [.send message]⟩ ∧ _ :=
        ORB.thenOrCatch_written hexpected hspeaks hwritten ⟨d, []⟩
      obtain ⟨reply, hsend, hreply⟩ := hanswer
      have hversion : (ORB.replyRoom d).majorVersion = 1 ∧ (ORB.replyRoom d).minorVersion = 2 :=
        hspeaks
      rw [hversion.1, hversion.2, hlocal] at hreply
      dsimp only
      rw [hsend]
      exact ⟨reply, rfl, hreply⟩
  | none =>
      have hcaught : Ending.throws (.runtimeError (ORB.notBound name)) ≠ .throws .other := by simp
      obtain ⟨reply, hsend, hreply⟩ := ORB.sendReply_ending hspeaks
        (.throws (.runtimeError (ORB.notBound name))) request.requestId ⟨d, []⟩
      dsimp only
      rw [ORB.thenOrCatch_dispatch hexpected _ hcaught, hsend]
      exact ⟨reply, rfl, hreply⟩

end Far

/-- What is found on the ORB of the host. -/
theorem World.host_servants (w : World ω σ) (platform : Platform) (impl : Platform → σ → Servant)
    (o : ω) (key : Octets) : (w.host platform impl o).servants key =
      (w.find o key).map (@World.code ω σ platform (impl platform) w) := rfl

/-- **A name is resolved from far away.**  When it is bound, the caller gets a reference with the type
and the key of the bound object and the address at which its ORB listens; when it is not, an exception
that says so. -/
theorem resolve_str_far (near : Host) (w : World ω σ) (platform : Platform)
    (impl : Platform → σ → Servant) (o : ω) (connection accepted : Connection) (requestId : UInt32)
    (objectKey name : Octets) (n : ℕ) (hservice : w.find o objectKey = some (.namingContext n))
    (href : ∀ obj ∈ w.name2Object (.namingContext n) name,
      Giop.Referable 1 2 (obj.repositoryId (impl platform)) accepted.protocolLocal
        (w.objectKey obj))
    (hrequest : extent 12 (Giop.request near.platform.native false (some connection) objectKey
      (cString (ascii "resolve_str")) requestId true ++
        Value.itemsAll near.platform.native [.string name]) < 2 ^ 32)
    (hreply : extent 24 (@World.resolution ω σ platform (impl platform) w (.namingContext n) accepted
      name) < 2 ^ 32) :
    NamingContextExtStub.resolve_str near (w.host platform impl o) connection accepted requestId
        objectKey name =
      w.resolved (impl platform) (.namingContext n) connection accepted name := by
  obtain ⟨request, d, message, start, hid, hexpected, hspeaks, hfrom, hbuffer, hsize,
    hlaid, hcall⟩ := remoteCallOf_values near (w.host platform impl o) connection accepted requestId
      objectKey (cString (ascii "resolve_str")) [.string name]
      (@GIOPDecoder.readReferenceHere near.platform) hrequest
  have hlength : name.length < 2 ^ 32 - 1 := by
    rw [extent_append] at hrequest
    exact Value.fits_of_extent_all_lt hrequest (.string name) (List.mem_singleton_self _)
  have hservant : (w.host platform impl o).servants objectKey = some
      (@NamingContextExtImpl.servant ω σ platform (impl platform) w (.namingContext n)) := by
    rw [World.host_servants, hservice]
    rfl
  obtain ⟨reply, hevents, hisReply, hsize₂, hbody⟩ := @NamingContextExtImpl.handle_resolve_str ω σ
    platform (impl platform) w (.namingContext n) message start near.platform.native d name _ request
    objectKey accepted hservant hexpected hspeaks hfrom hbuffer hsize hlength
    (laid_append.1 hlaid).1
  have hroom := le_extent 24
    (@World.resolution ω σ platform (impl platform) w (.namingContext n) accepted name)
  have hsize₃ : reply.length < 2 ^ 32 := hsize₂ ▸ hreply
  rw [hid] at hisReply
  obtain ⟨d₂, hbuffer₂, hstatus, hresumed⟩ := near.resumed_isReply ⟨platform, fun _ => none⟩
    { connection with didSendBiDirIIOP := true } hisReply (by omega) (by omega)
    (@GIOPDecoder.readReferenceHere near.platform)
  have hcalled : NamingContextExtStub.resolve_str near (w.host platform impl o) connection accepted
      requestId objectKey name = near.resumed { connection with didSendBiDirIIOP := true } requestId
        (@GIOPDecoder.readReferenceHere near.platform) reply := by
    have hmatch : (State (@ORB.handle (w.host platform impl o).platform
        (w.host platform impl o).servants request objectKey (cString (ascii "resolve_str"))
        ⟨d, []⟩)).events = [.send reply] := hevents
    rw [hmatch] at hcall
    exact hcall
  rw [hcalled, hresumed]
  rw [World.resolutionStatus] at hstatus
  rw [World.resolution] at hbody hsize₂
  rw [World.resolved]
  cases hfound : w.name2Object (.namingContext n) name with
  | some obj =>
      rw [hfound] at hstatus hbody
      have hread := @GIOPDecoder.readReference_run near.platform reply 24 platform.native d₂ _ _ _ _ _
        hbody (href obj hfound) (by omega)
      have hon : d₂.on reply 24 platform.native = d₂ := by
        rw [GIOPDecoder.on, ← hbuffer₂]
      rw [hon] at hread
      have hok := @stubResult_ok near.platform d₂ _ { connection with didSendBiDirIIOP := true }
        (@GIOPDecoder.readReferenceHere near.platform) hstatus
      rw [hok, hread]
      rfl
  | none =>
      rw [hfound] at hstatus hbody hsize₂
      exact @stubResult_throws near.platform reply d₂ _ ⟨platform, fun _ => none⟩
        (.runtimeError (ORB.notBound name)) { connection with didSendBiDirIIOP := true } _ (by simp)
        hbuffer₂ hstatus hbody hsize₂ (by omega)

end Corba
