/-
The servants of an ORB.

`ORB::activate_object`, `ORB::activate_object_with_id` and `ORB::bind` of `src/corba/orb.cc` put
servants into a map, in which requests look them up by their object key.  A key is made from a
counter, chosen by the application, or that of the naming service.  `std::map::emplace` keeps an
entry that is already there, and nobody looks at what it returns.

Main definitions:

* `Corba.ServantRef`, `Corba.World` — the servants of a program and its ORBs;
* `Corba.ORB.activateObject`, `Corba.ORB.activateObjectWithId`, `Corba.ORB.bind` — what a program
  does with them;
* `Corba.World.WellRegistered` — a request with the key of a servant reaches it.

Main results:

* `Corba.World.activated_wellRegistered_iff` — what one activation does;
* `Corba.wellRegistered_always_iff` — exactly when all servants can be reached all along.
-/

import Corba.Orb
import Corba.Runs
import Mathlib.Logic.Function.Basic

set_option relaxedAutoImplicit false
set_option autoImplicit false

namespace Corba

open Layout ByteOrder Placed Exec

/-! ### Servants -/

/-- The servants of a program: those of the application, and the naming contexts its ORBs create,
which are counted. -/
inductive ServantRef (σ : Type) where
  | impl (s : σ)
  | namingContext (n : ℕ)
  deriving DecidableEq

/-- The members of an ORB that concern its servants. -/
structure Registry (ρ : Type) where
  servants : Octets → Option ρ := fun _ => none
  servantIdCounter : UInt64 := 0
  namingService : Option ρ := none

/-- The ORBs of a program and its servants: the ORB and the object key of a servant, and for a
naming context, what is bound to its names. -/
structure World (ω σ : Type) where
  orb : ServantRef σ → Option ω := fun _ => none
  objectKey : ServantRef σ → Octets := fun _ => []
  name2Object : ServantRef σ → Octets → Option (ServantRef σ) := fun _ _ => none
  registry : ω → Registry (ServantRef σ) := fun _ => {}
  namingContexts : ℕ := 0

/-- Programs that work with servants. -/
abbrev OrbM (ω σ : Type) := EStateM Fault (World ω σ)

variable {ω σ : Type}

/-- A program only has references to naming contexts that have been created. -/
def World.Exists (w : World ω σ) : ServantRef σ → Prop
  | .impl _ => True
  | .namingContext n => n < w.namingContexts

instance (w : World ω σ) (s : ServantRef σ) : Decidable (w.Exists s) :=
  match s with
  | .impl _ => isTrue trivial
  | .namingContext n => inferInstanceAs (Decidable (n < w.namingContexts))

namespace ORB

variable [DecidableEq ω] [DecidableEq σ]

/-- `servants.emplace(key, servant)`: an entry that is already there is kept. -/
def emplace (o : ω) (key : Octets) (servant : ServantRef σ) : OrbM ω σ Unit :=
  modify fun w =>
    let r := w.registry o
    let servants := if (r.servants key).isSome then r.servants
      else Function.update r.servants key (some servant)
    { w with registry := Function.update w.registry o { r with servants } }

/-- The key of the entry is that of the servant. -/
def activateObjectWithId (o : ω) (objectKey : Octets) (servant : ServantRef σ) :
    OrbM ω σ Unit := do
  modify fun w => { w with orb := Function.update w.orb servant (some o) }
  emplace o objectKey servant
  modify fun w => { w with objectKey := Function.update w.objectKey servant objectKey }

/-- `format("OID:{:x}", servantId)`. -/
def servantKey (servantId : UInt64) : Octets :=
  ascii "OID:" ++ ascii (String.ofList (Nat.toDigits 16 servantId.toNat))

def activateObject (o : ω) (servant : ServantRef σ) : OrbM ω σ Unit := do
  modify fun w =>
    let r := w.registry o
    { w with
      registry := Function.update w.registry o
        { r with servantIdCounter := r.servantIdCounter + 1 } }
  let w ← get
  activateObjectWithId o (servantKey (w.registry o).servantIdCounter) servant

def alreadyBound (name : Octets) : String :=
  "name \"" ++ text name ++ "\" is already bound to object"

/-- `NamingContextExtImpl::bind`. -/
def bindName (o : ServantRef σ) (name : Octets) (servant : ServantRef σ) :
    OrbM ω σ Unit := do
  let w ← get
  if (w.name2Object o name).isSome then
    throw (.thrown (.runtimeError (alreadyBound name)))
  set { w with
    name2Object := Function.update w.name2Object o
      (Function.update (w.name2Object o) name (some servant)) }

/-- The naming service of the ORB, which is created when it is needed for the first time. -/
def theNamingService (o : ω) : OrbM ω σ (ServantRef σ) := do
  let w ← get
  match (w.registry o).namingService with
  | some namingService => return namingService
  | none => do
      let namingService := .namingContext w.namingContexts
      set { w with
        namingContexts := w.namingContexts + 1
        registry := Function.update w.registry o
          { w.registry o with namingService := some namingService } }
      activateObjectWithId o (ascii "NameService") namingService
      return namingService

def bind (o : ω) (id : Octets) (obj : ServantRef σ) : OrbM ω σ Unit := do
  let w ← get
  if (w.orb obj).isNone then
    activateObject o obj
  let namingService ← theNamingService o
  bindName namingService id obj

/-- The map in which a request looks its servant up, where the code of the servants is given. -/
def servants (o : ω) (code : ServantRef σ → Servant) (w : World ω σ) : Servants :=
  fun key => ((w.registry o).servants key).map code

end ORB

/-- The calls a program makes to an ORB. -/
inductive ServantCall (σ : Type) where
  | activateObject (servant : ServantRef σ)
  | activateObjectWithId (objectKey : Octets) (servant : ServantRef σ)
  | bind (id : Octets) (obj : ServantRef σ)
  deriving DecidableEq

namespace ServantCall

variable [DecidableEq ω] [DecidableEq σ]

def servant : ServantCall σ → ServantRef σ
  | activateObject servant => servant
  | activateObjectWithId _ servant => servant
  | bind _ obj => obj

def run (o : ω) : ServantCall σ → OrbM ω σ Unit
  | activateObject servant => ORB.activateObject o servant
  | activateObjectWithId objectKey servant => ORB.activateObjectWithId o objectKey servant
  | bind id obj => ORB.bind o id obj

/-- A call.  Without a reference to the servant, it cannot be made. -/
def step (o : ω) (w : World ω σ) (call : ServantCall σ) : World ω σ :=
  if w.Exists call.servant then State (call.run o w) else w

end ServantCall

/-! ### Registered servants -/

section Registered

variable {o : ω}

/-- What is found under a key. -/
def World.find (w : World ω σ) (o : ω) (key : Octets) : Option (ServantRef σ) :=
  (w.registry o).servants key

/-- Under the key of a servant of the ORB, it is found itself. -/
def World.AllFound (o : ω) (w : World ω σ) : Prop :=
  ∀ s, w.orb s = some o → w.find o (w.objectKey s) = some s

/-- Nobody else is registered under the key. -/
def World.Free (w : World ω σ) (o : ω) (key : Octets) (s : ServantRef σ) : Prop :=
  ∀ t ∈ w.find o key, t = s

section Dispatches

variable [Platform]

/-- A request with this key is handled by this servant. -/
def ORB.Dispatches (servants : Servants) (key : Octets) (servant : Servant) : Prop :=
  ∀ (r r₁ r₂ r₃ : Reception) (request : RequestHeader) (operation : Octets),
    ORB.scan GIOPDecoder.scanRequestHeader r = .ok request r₁ →
    ORB.scan (GIOPDecoder.octets request.objectKey) r₁ = .ok key r₂ →
    ORB.scan (GIOPDecoder.octets request.operation) r₂ = .ok operation r₃ →
    ORB.onRequest servants r =
      if operation = ascii "_is_a" then ORB.is_a servant request r₃
      else ORB.dispatch servant request operation r₃

theorem ORB.dispatches_of_find {servants : Servants} {key : Octets} {servant : Servant}
    (h : servants key = some servant) : ORB.Dispatches servants key servant := by
  intro r r₁ r₂ r₃ request operation hrequest hkey hoperation
  rw [ORB.onRequest, bind_ok hrequest, bind_ok hkey, bind_ok hoperation, h]
  dsimp only
  split <;> rfl

/-- A request with the key of a servant reaches this servant and no other. -/
structure World.WellRegistered (o : ω) (code : ServantRef σ → Servant) (w : World ω σ) :
    Prop where
  found : ∀ s, w.orb s = some o → w.find o (w.objectKey s) = some s
  dispatched : ∀ s, w.orb s = some o →
    ORB.Dispatches (ORB.servants o code w) (w.objectKey s) (code s)
  distinct : ∀ s t, w.orb s = some o → w.orb t = some o →
    w.objectKey s = w.objectKey t → s = t

theorem World.wellRegistered_iff {code : ServantRef σ → Servant} {w : World ω σ} :
    w.WellRegistered o code ↔ w.AllFound o := by
  constructor
  · intro h
    exact h.found
  · intro h
    refine ⟨h, ?_, ?_⟩
    · intro s hs
      refine ORB.dispatches_of_find ?_
      have hfind : (w.registry o).servants (w.objectKey s) = some s := h s hs
      rw [ORB.servants, hfind, Option.map_some]
    · intro s t hs ht hkey
      have hs' := h s hs
      rw [hkey, h t ht] at hs'
      exact (Option.some.inj hs').symm

end Dispatches

variable [DecidableEq ω] [DecidableEq σ]

/-! ### One activation -/

/-- The world after a servant has been activated. -/
def World.activated (w : World ω σ) (o : ω) (key : Octets) (s : ServantRef σ) : World ω σ :=
  State (ORB.activateObjectWithId o key s w)

@[simp] theorem World.activated_orb (w : World ω σ) (key : Octets) (s : ServantRef σ) :
    (w.activated o key s).orb = Function.update w.orb s (some o) := rfl

@[simp] theorem World.activated_objectKey (w : World ω σ) (key : Octets) (s : ServantRef σ) :
    (w.activated o key s).objectKey = Function.update w.objectKey s key := rfl

@[simp] theorem World.activated_namingContexts (w : World ω σ) (key : Octets)
    (s : ServantRef σ) : (w.activated o key s).namingContexts = w.namingContexts := rfl

/-- The entry of the key is kept when there is one. -/
theorem World.activated_find_self (w : World ω σ) (key : Octets) (s : ServantRef σ) :
    (w.activated o key s).find o key = some ((w.find o key).getD s) := by
  simp only [World.activated, ORB.activateObjectWithId, ORB.emplace, World.find, modify_bind,
    modify_run, State_ok, Function.update_self]
  cases h : (w.registry o).servants key with
  | none => simp
  | some t => simpa using h

/-- The entries of other keys are not touched. -/
theorem World.activated_find_of_ne (w : World ω σ) {key key' : Octets} (s : ServantRef σ)
    (h : key' ≠ key) : (w.activated o key s).find o key' = w.find o key' := by
  simp only [World.activated, ORB.activateObjectWithId, ORB.emplace, World.find, modify_bind,
    modify_run, State_ok, Function.update_self]
  split
  · rfl
  · exact Function.update_of_ne h _ _

/-- What is found stays. -/
theorem World.activated_find_of_some {w : World ω σ} {key key' : Octets} {s t : ServantRef σ}
    (h : w.find o key' = some t) : (w.activated o key s).find o key' = some t := by
  by_cases hkey : key' = key
  · subst hkey
    rw [activated_find_self, h, Option.getD_some]
  · rw [activated_find_of_ne w s hkey, h]

/-- **All servants are found after an activation exactly when the key was free.** -/
theorem World.activated_allFound_iff {w : World ω σ} {key : Octets} {s : ServantRef σ}
    (h : w.AllFound o) : (w.activated o key s).AllFound o ↔ w.Free o key s := by
  constructor
  · intro hall t ht
    have hs := hall s (by simp)
    rw [activated_objectKey, Function.update_self, activated_find_self, Option.mem_def.1 ht] at hs
    exact Option.some.inj hs
  · intro hfree t ht
    by_cases hts : t = s
    · subst hts
      rw [activated_objectKey, Function.update_self, activated_find_self]
      cases hfind : w.find o key with
      | none => rfl
      | some u => rw [hfree u hfind, Option.getD_some]
    · rw [activated_orb, Function.update_of_ne hts] at ht
      rw [activated_objectKey, Function.update_of_ne hts]
      exact activated_find_of_some (h t ht)

/-- A servant that is not found cannot be found after another one has been activated. -/
theorem World.not_allFound_activated {w : World ω σ} {key : Octets} {s t u : ServantRef σ}
    (hs : w.orb s = some o) (hfind : w.find o (w.objectKey s) = some u) (hu : u ≠ s)
    (hst : s ≠ t) : ¬ (w.activated o key t).AllFound o := by
  intro hall
  have h := hall s (by rw [activated_orb, Function.update_of_ne hst, hs])
  rw [activated_objectKey, Function.update_of_ne hst, activated_find_of_some hfind] at h
  exact hu (Option.some.inj h)

end Registered

/-! ### One call -/

section Calls

variable [DecidableEq ω] [DecidableEq σ] {o : ω}

/-- The key the ORB makes for the next servant. -/
def World.nextKey (w : World ω σ) (o : ω) : Octets :=
  ORB.servantKey ((w.registry o).servantIdCounter + 1)

/-- The world after a key has been made. -/
def World.counted (w : World ω σ) (o : ω) : World ω σ :=
  { w with
    registry := Function.update w.registry o
      { w.registry o with servantIdCounter := (w.registry o).servantIdCounter + 1 } }

/-- The world after a naming context has been created. -/
def World.named (w : World ω σ) (o : ω) : World ω σ :=
  { w with
    namingContexts := w.namingContexts + 1
    registry := Function.update w.registry o
      { w.registry o with namingService := some (.namingContext w.namingContexts) } }

omit [DecidableEq σ] in
@[simp] theorem World.counted_find (w : World ω σ) : (w.counted o).find o = w.find o := by
  funext key
  simp [World.counted, World.find]

omit [DecidableEq σ] in
@[simp] theorem World.named_find (w : World ω σ) : (w.named o).find o = w.find o := by
  funext key
  simp [World.named, World.find]

omit [DecidableEq σ] in
theorem World.counted_allFound_iff {w : World ω σ} : (w.counted o).AllFound o ↔ w.AllFound o := by
  simp only [World.AllFound, counted_find]
  exact Iff.rfl

omit [DecidableEq σ] in
theorem World.named_allFound_iff {w : World ω σ} : (w.named o).AllFound o ↔ w.AllFound o := by
  simp only [World.AllFound, named_find]
  exact Iff.rfl

theorem ORB.activateObject_run (w : World ω σ) (s : ServantRef σ) :
    ORB.activateObject o s w = .ok () ((w.counted o).activated o (w.nextKey o) s) := by
  rw [ORB.activateObject, modify_bind, get_bind, World.nextKey]
  dsimp only
  rw [Function.update_self]
  rfl

theorem ORB.theNamingService_run (w : World ω σ) :
    ORB.theNamingService o w =
      match (w.registry o).namingService with
      | some namingService => .ok namingService w
      | none => .ok (.namingContext w.namingContexts)
          ((w.named o).activated o (ascii "NameService") (.namingContext w.namingContexts)) := by
  rw [ORB.theNamingService, get_bind]
  cases (w.registry o).namingService with
  | some namingService => rfl
  | none => rfl

omit [DecidableEq ω] in
/-- Binding a name does not touch the servants. -/
theorem ORB.bindName_allFound_iff (w : World ω σ) (namingService : ServantRef σ) (id : Octets)
    (obj : ServantRef σ) :
    (State (ORB.bindName namingService id obj w)).AllFound o ↔ w.AllFound o := by
  rw [ORB.bindName, get_bind]
  split
  · exact Iff.rfl
  · exact Iff.rfl

omit [DecidableEq ω] [DecidableEq σ] in
/-- No key that is made for a servant is that of the naming service. -/
theorem ORB.servantKey_ne (servantId : UInt64) : ascii "NameService" ≠ ORB.servantKey servantId := by
  intro h
  have hhead := congrArg List.head? h
  simp [ORB.servantKey, ascii] at hhead

/-- The key a call uses is free, or taken by the servant the call is about. -/
def ServantCall.KeyFree (o : ω) (w : World ω σ) (call : ServantCall σ) : Prop :=
  w.Exists call.servant →
    match call with
    | .activateObject servant => w.Free o (w.nextKey o) servant
    | .activateObjectWithId objectKey servant => w.Free o objectKey servant
    | .bind _ obj =>
        (w.orb obj = none → w.Free o (w.nextKey o) obj) ∧
        ((w.registry o).namingService = none →
          w.Free o (ascii "NameService") (.namingContext w.namingContexts))

theorem ORB.activateObject_allFound_iff {w : World ω σ} {s : ServantRef σ} (h : w.AllFound o) :
    (State (ORB.activateObject o s w)).AllFound o ↔ w.Free o (w.nextKey o) s := by
  rw [ORB.activateObject_run, State_ok,
    World.activated_allFound_iff (World.counted_allFound_iff.2 h), World.Free, World.counted_find]
  exact Iff.rfl

/-- What looking up the naming service does to the servants. -/
theorem ORB.theNamingService_allFound_iff {w : World ω σ} (h : w.AllFound o) :
    (State (ORB.theNamingService o w)).AllFound o ↔
      ((w.registry o).namingService = none →
        w.Free o (ascii "NameService") (.namingContext w.namingContexts)) := by
  rw [ORB.theNamingService_run]
  cases hns : (w.registry o).namingService with
  | some namingService => simpa using h
  | none =>
      rw [State_ok, World.activated_allFound_iff (World.named_allFound_iff.2 h), World.Free,
        World.named_find]
      simp only [true_imp_iff]
      exact Iff.rfl

/-- A servant that cannot be found is not found after the naming service has been looked up. -/
theorem ORB.not_allFound_theNamingService {w : World ω σ} {s u : ServantRef σ}
    (hs : w.orb s = some o) (hfind : w.find o (w.objectKey s) = some u) (hu : u ≠ s)
    (hexists : w.Exists s) : ¬ (State (ORB.theNamingService o w)).AllFound o := by
  rw [ORB.theNamingService_run]
  cases hns : (w.registry o).namingService with
  | some namingService =>
      intro hall
      have h := hall s hs
      rw [State_ok, hfind] at h
      exact hu (Option.some.inj h)
  | none =>
      refine World.not_allFound_activated (w := w.named o) hs ?_ hu ?_
      · rw [World.named_find]
        exact hfind
      · rintro rfl
        exact absurd hexists (Nat.lt_irrefl _)

theorem ORB.bind_state (w : World ω σ) (id : Octets) (obj : ServantRef σ) :
    (State (ORB.bind o id obj w)).AllFound o ↔
      (State (ORB.theNamingService o
        (if (w.orb obj).isNone then State (ORB.activateObject o obj w) else w))).AllFound o := by
  have hrest : ∀ w' : World ω σ,
      (State ((ORB.theNamingService o >>= fun ns => ORB.bindName ns id obj) w')).AllFound o ↔
        (State (ORB.theNamingService o w')).AllFound o := by
    intro w'
    cases hrun : ORB.theNamingService o w' with
    | ok ns w'' => rw [bind_ok hrun, ORB.bindName_allFound_iff, State_ok]
    | error f w'' => rw [bind_error hrun, State_error, State_error]
  rw [ORB.bind, get_bind]
  by_cases horb : (w.orb obj).isNone = true
  · rw [if_pos horb, if_pos horb, ← hrest]
    exact Iff.rfl
  · rw [if_neg horb, if_neg horb, ← hrest]

/-- What the naming service is looked up in after a servant has been activated. -/
theorem ORB.activateObject_naming (w : World ω σ) (s : ServantRef σ) :
    let w' := State (ORB.activateObject o s w)
    (w'.registry o).namingService = (w.registry o).namingService ∧
      w'.namingContexts = w.namingContexts ∧
      w'.find o (ascii "NameService") = w.find o (ascii "NameService") := by
  rw [ORB.activateObject_run, State_ok]
  refine ⟨?_, rfl, ?_⟩
  · simp [World.activated, ORB.activateObjectWithId, ORB.emplace, World.counted]
  · have hne : ascii "NameService" ≠ w.nextKey o := ORB.servantKey_ne _
    rw [World.activated_find_of_ne _ _ hne, World.counted_find]

/-- When its key is taken, an activated servant is not found. -/
theorem ORB.activateObject_not_free {w : World ω σ} {s : ServantRef σ}
    (h : ¬ w.Free o (w.nextKey o) s) :
    let w' := State (ORB.activateObject o s w)
    w'.orb s = some o ∧ ∃ u, w'.find o (w'.objectKey s) = some u ∧ u ≠ s := by
  rw [World.Free] at h
  push Not at h
  obtain ⟨u, hu, hne⟩ := h
  rw [ORB.activateObject_run, State_ok]
  refine ⟨by simp, u, ?_, hne⟩
  rw [World.activated_objectKey, Function.update_self]
  exact World.activated_find_of_some (by rw [World.counted_find, Option.mem_def.1 hu])

theorem ORB.bind_allFound_iff {w : World ω σ} {id : Octets} {obj : ServantRef σ}
    (h : w.AllFound o) (hexists : w.Exists obj) :
    (State (ORB.bind o id obj w)).AllFound o ↔
      (w.orb obj = none → w.Free o (w.nextKey o) obj) ∧
      ((w.registry o).namingService = none →
        w.Free o (ascii "NameService") (.namingContext w.namingContexts)) := by
  rw [ORB.bind_state]
  by_cases horb : w.orb obj = none
  · rw [if_pos (by rw [horb]; rfl)]
    obtain ⟨hservice, hcontexts, hfind⟩ := ORB.activateObject_naming (o := o) w obj
    by_cases hfree : w.Free o (w.nextKey o) obj
    · have hall := (ORB.activateObject_allFound_iff h).2 hfree
      rw [ORB.theNamingService_allFound_iff hall, hservice, hcontexts, World.Free, hfind]
      exact ⟨fun hname => ⟨fun _ => hfree, hname⟩, fun hboth => hboth.2⟩
    · obtain ⟨hs, u, hu, hne⟩ := ORB.activateObject_not_free hfree
      have hexists' : (State (ORB.activateObject o obj w)).Exists obj := by
        cases obj with
        | impl s => trivial
        | namingContext n => exact hexists
      constructor
      · intro hall
        exact absurd hall (ORB.not_allFound_theNamingService hs hu hne hexists')
      · rintro ⟨hkey, -⟩
        exact absurd (hkey horb) hfree
  · rw [if_neg (by simpa using horb), ORB.theNamingService_allFound_iff h]
    exact ⟨fun hname => ⟨fun hnone => absurd hnone horb, hname⟩, fun hboth => hboth.2⟩

/-- **All servants are found after a call exactly when its key was free.** -/
theorem ServantCall.step_allFound_iff {w : World ω σ} (call : ServantCall σ) (h : w.AllFound o) :
    (call.step o w).AllFound o ↔ call.KeyFree o w := by
  by_cases hexists : w.Exists call.servant
  · unfold KeyFree
    rw [step, if_pos hexists]
    simp only [hexists, true_imp_iff]
    cases call with
    | activateObject servant => exact ORB.activateObject_allFound_iff h
    | activateObjectWithId objectKey servant => exact World.activated_allFound_iff h
    | bind id obj => exact ORB.bind_allFound_iff h hexists
  · rw [step, if_neg hexists]
    exact ⟨fun _ hyes => absurd hyes hexists, fun _ => h⟩

end Calls

/-! ### All calls -/

variable [Platform] [DecidableEq ω] [DecidableEq σ]

/-- **Every activated servant can be reached all along exactly when no call uses a key under which
another servant is registered.** -/
theorem wellRegistered_always_iff (o : ω) (code : ServantRef σ → Servant)
    (calls : List (ServantCall σ)) :
    Runs.Always (ServantCall.step o) (World.WellRegistered o code) {} calls ↔
      Runs.Meets (ServantCall.step o) (fun w call => call.KeyFree o w) {} calls := by
  simp only [Runs.Always, World.wellRegistered_iff]
  exact Runs.always_iff_meets (I := fun _ => True) (fun _ _ _ => trivial)
    (fun w call _ h => call.step_allFound_iff h) trivial (fun s hs => nomatch hs)

omit [Platform] [DecidableEq ω] [DecidableEq σ] in
/-- The second of two servants that are activated with one key cannot be reached: requests with its
key go to the first. -/
theorem key_taken_not_wellRegistered :
    letI : Platform := ⟨.little⟩
    ∃ calls : List (ServantCall Bool),
      let w := calls.foldl (ServantCall.step ()) {}
      w.orb (.impl true) = some () ∧ w.objectKey (.impl true) = ascii "backend" ∧
        w.find () (w.objectKey (.impl true)) = some (.impl false) ∧
        ¬ w.WellRegistered () fun _ => ⟨[], fun _ _ => ⟨.coroutine, ⟨[], .returns⟩⟩⟩ := by
  refine ⟨[.activateObjectWithId (ascii "backend") (.impl false),
    .activateObjectWithId (ascii "backend") (.impl true)], rfl, rfl, by decide, ?_⟩
  intro h
  let : Platform := ⟨.little⟩
  exact absurd (h.found (.impl true) rfl) (by decide)

end Corba
