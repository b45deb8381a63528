/-
The names of the naming service.

`ORB::bind` of `src/corba/orb.cc` activates a servant that does not have an ORB yet, creates the
naming service when it is needed for the first time, and binds the name there.  A servant that has an
ORB already is taken to be activated on this one.  `ORB::shutdown` forgets the servants and the naming
service, but the servants do not forget the ORB.

Main definitions:

* `Corba.ORB.resolveName`, `Corba.ORB.shutdown` — the other functions a name goes through;
* `Corba.NamingCall`, `Corba.Named` — the calls of a program with any number of ORBs, and the world
  together with the names that have been bound since an ORB was last shut down;
* `Corba.Named.Led` — a bound name leads to the bound object, which can be called.

Main results:

* `Corba.NamingCall.step_led_iff` — one call;
* `Corba.led_always_iff` — exactly when all bound names lead to their objects all along.
-/

import Corba.Registry

set_option relaxedAutoImplicit false
set_option autoImplicit false

namespace Corba

open Layout ByteOrder Placed Exec

variable {ω σ : Type}

namespace ORB

def notBound (name : Octets) : String :=
  "NamingContextExtImpl::resolve(\"" ++ text name ++ "\"): name is not bound to an object"

/-- `NamingContextExtImpl::resolve`. -/
def resolveName (o : ServantRef σ) (name : Octets) : OrbM ω σ (ServantRef σ) := do
  let w ← get
  match w.name2Object o name with
  | some servant => return servant
  | none => throw (.thrown (.runtimeError (notBound name)))

/-- The servants keep their ORB and their object key. -/
def shutdown [DecidableEq ω] (o : ω) : OrbM ω σ Unit :=
  modify fun w =>
    { w with
      registry := Function.update w.registry o
        { w.registry o with servants := fun _ => none, namingService := none } }

end ORB

/-- The calls a program makes to its ORBs. -/
inductive NamingCall (ω σ : Type) where
  | activateObject (o : ω) (servant : ServantRef σ)
  | bind (o : ω) (id : Octets) (obj : ServantRef σ)
  | shutdown (o : ω)

/-- The world, and for each ORB the names with the objects for which `bind` has returned normally
since it was last shut down. -/
structure Named (ω σ : Type) where
  world : World ω σ := {}
  bound : ω → List (Octets × ServantRef σ) := fun _ => []

section Steps

variable [DecidableEq ω] [DecidableEq σ]

/-- What a call of `bind` leaves behind. -/
def Named.afterBind (s : Named ω σ) (o : ω) (id : Octets) (obj : ServantRef σ) :
    EStateM.Result Fault (World ω σ) Unit → Named ω σ
  | .ok _ w => { world := w, bound := Function.update s.bound o ((id, obj) :: s.bound o) }
  | .error _ w => { s with world := w }

/-- A call.  Without a reference to the servant, it cannot be made. -/
def NamingCall.step (s : Named ω σ) : NamingCall ω σ → Named ω σ
  | activateObject o servant =>
      if s.world.Exists servant then
        { s with world := State (ORB.activateObject o servant s.world) }
      else s
  | bind o id obj =>
      if s.world.Exists obj then s.afterBind o id obj (ORB.bind o id obj s.world) else s
  | shutdown o =>
      { world := State (ORB.shutdown o s.world), bound := Function.update s.bound o [] }

end Steps

/-! ### Names that lead to their objects -/

/-- The name is resolved by the naming service of the ORB. -/
def World.Resolves (w : World ω σ) (o : ω) (id : Octets) (obj : ServantRef σ) : Prop :=
  ∃ namingService, (w.registry o).namingService = some namingService ∧
    ORB.resolveName namingService id w = .ok obj w

theorem World.resolves_iff {w : World ω σ} {o : ω} {id : Octets} {obj : ServantRef σ} :
    w.Resolves o id obj ↔ ∃ namingService, (w.registry o).namingService = some namingService ∧
      w.name2Object namingService id = some obj := by
  have hresolve : ∀ namingService,
      ORB.resolveName namingService id w = .ok obj w ↔
        w.name2Object namingService id = some obj := by
    intro namingService
    rw [ORB.resolveName, get_bind]
    cases w.name2Object namingService id with
    | some servant => simp
    | none => simp
  simp only [World.Resolves, hresolve]

/-- A name of the ORB leads to the object: the naming service resolves it to the object, and a
request with the key of the object is handled by the object. -/
structure World.Leads [Platform] (code : ServantRef σ → Servant) (w : World ω σ) (o : ω)
    (id : Octets) (obj : ServantRef σ) : Prop where
  resolved : w.Resolves o id obj
  found : w.find o (w.objectKey obj) = some obj
  dispatched : ORB.Dispatches (ORB.servants o code w) (w.objectKey obj) (code obj)

/-- **Every bound name leads to the bound object.** -/
def Named.Led [Platform] (code : ServantRef σ → Servant) (s : Named ω σ) : Prop :=
  ∀ o id obj, (id, obj) ∈ s.bound o → s.world.Leads code o id obj

/-- What has to be shown for that. -/
def Named.Kept (s : Named ω σ) : Prop :=
  ∀ o id obj, (id, obj) ∈ s.bound o →
    s.world.Resolves o id obj ∧ s.world.find o (s.world.objectKey obj) = some obj

theorem Named.led_iff [Platform] {code : ServantRef σ → Servant} {s : Named ω σ} :
    s.Led code ↔ s.Kept := by
  constructor
  · intro h o id obj hmem
    exact ⟨(h o id obj hmem).resolved, (h o id obj hmem).found⟩
  · intro h o id obj hmem
    obtain ⟨hresolved, hfound⟩ := h o id obj hmem
    refine ⟨hresolved, hfound, ORB.dispatches_of_find ?_⟩
    have hfind : (s.world.registry o).servants (s.world.objectKey obj) = some obj := hfound
    rw [ORB.servants, hfind, Option.map_some]

/-- The naming services have been created, and nothing is bound in a naming context before. -/
structure World.Sound (w : World ω σ) : Prop where
  service : ∀ o, ∀ namingService ∈ (w.registry o).namingService, w.Exists namingService
  fresh : ∀ c, ¬ w.Exists c → ∀ id, w.name2Object c id = none

/-- What holds whatever is called. -/
structure Named.Sound (s : Named ω σ) : Prop where
  world : s.world.Sound
  known : ∀ o id obj, (id, obj) ∈ s.bound o → s.world.Exists obj ∧ s.world.orb obj ≠ none

section Activation

variable [DecidableEq ω] [DecidableEq σ] {o o' : ω}

/-! ### Activations -/

/-- The servants of other ORBs are not touched. -/
theorem World.activated_find_other (w : World ω σ) (key : Octets) (s : ServantRef σ)
    (h : o' ≠ o) : (w.activated o key s).find o' = w.find o' := by
  funext key'
  simp [World.activated, ORB.activateObjectWithId, ORB.emplace, World.find, h]

@[simp] theorem World.activated_namingService (w : World ω σ) (key : Octets)
    (s : ServantRef σ) :
    ((w.activated o key s).registry o').namingService = (w.registry o').namingService := by
  by_cases h : o' = o
  · subst h
    simp [World.activated, ORB.activateObjectWithId, ORB.emplace]
  · simp [World.activated, ORB.activateObjectWithId, ORB.emplace, h]

@[simp] theorem World.activated_name2Object (w : World ω σ) (key : Octets) (s : ServantRef σ) :
    (w.activated o key s).name2Object = w.name2Object := rfl

@[simp] theorem World.activated_exists (w : World ω σ) (key : Octets) (s t : ServantRef σ) :
    (w.activated o key s).Exists t ↔ w.Exists t := by
  cases t <;> exact Iff.rfl

theorem World.activated_resolves (w : World ω σ) (key : Octets) (s : ServantRef σ)
    {id : Octets} {obj : ServantRef σ} :
    (w.activated o key s).Resolves o' id obj ↔ w.Resolves o' id obj := by
  simp [World.resolves_iff]

/-- What is found on any ORB stays. -/
theorem World.activated_found {w : World ω σ} {key key' : Octets} {s t : ServantRef σ}
    (h : w.find o' key' = some t) : (w.activated o key s).find o' key' = some t := by
  by_cases ho : o' = o
  · subst ho
    exact activated_find_of_some h
  · rw [activated_find_other w key s ho, h]

/-- Under this key, the ORB `o'` finds the servant once it has been activated on `o`. -/
def World.KeyLeads (w : World ω σ) (o : ω) (key : Octets) (s : ServantRef σ) (o' : ω) : Prop :=
  if o' = o then w.Free o key s else w.find o' key = some s

theorem World.activated_find_iff {w : World ω σ} {key : Octets} {s : ServantRef σ} :
    (w.activated o key s).find o' key = some s ↔ w.KeyLeads o key s o' := by
  rw [World.KeyLeads]
  by_cases ho : o' = o
  · subst ho
    rw [if_pos rfl, activated_find_self, World.Free]
    cases w.find o' key with
    | none => simp
    | some t => simp
  · rw [if_neg ho, activated_find_other w key s ho]

/-- An object that is found under its key stays so when another servant is activated. -/
theorem World.activated_found_of_ne {w : World ω σ} {key : Octets} {s obj : ServantRef σ}
    (hne : obj ≠ s) (h : w.find o' (w.objectKey obj) = some obj) :
    (w.activated o key s).find o' ((w.activated o key s).objectKey obj) = some obj := by
  rw [activated_objectKey, Function.update_of_ne hne]
  exact activated_found h

/-- Another servant is found after an activation only where it has been found before. -/
theorem World.found_of_activated {w : World ω σ} {key key' : Octets} {s obj : ServantRef σ}
    (hne : obj ≠ s) (h : (w.activated o key s).find o' key' = some obj) :
    w.find o' key' = some obj := by
  by_cases ho : o' = o
  · subst ho
    by_cases hkey : key' = key
    · subst hkey
      rw [activated_find_self] at h
      cases hfind : w.find o' key' with
      | none =>
          rw [hfind, Option.getD_none, Option.some.injEq] at h
          exact absurd h.symm hne
      | some t => rwa [hfind, Option.getD_some] at h
    · rwa [activated_find_of_ne w s hkey] at h
  · rwa [activated_find_other w key s ho] at h

omit [DecidableEq σ] in
theorem World.counted_find' (w : World ω σ) : (w.counted o).find o' = w.find o' := by
  by_cases ho : o' = o
  · subst ho
    exact counted_find w
  · funext key
    simp [World.counted, World.find, ho]

omit [DecidableEq σ] in
theorem World.named_find' (w : World ω σ) : (w.named o).find o' = w.find o' := by
  by_cases ho : o' = o
  · subst ho
    exact named_find w
  · funext key
    simp [World.named, World.find, ho]

omit [DecidableEq σ] in
@[simp] theorem World.counted_namingService (w : World ω σ) :
    ((w.counted o).registry o').namingService = (w.registry o').namingService := by
  by_cases ho : o' = o
  · subst ho
    simp [World.counted]
  · simp [World.counted, ho]

omit [DecidableEq σ] in
theorem World.counted_resolves {w : World ω σ} {id : Octets} {obj : ServantRef σ} :
    (w.counted o).Resolves o' id obj ↔ w.Resolves o' id obj := by
  simp only [World.resolves_iff, counted_namingService]
  exact Iff.rfl

/-! ### Before a name is bound -/

/-- The world in which the object has been activated if it does not have an ORB. -/
def World.entered (w : World ω σ) (o : ω) (obj : ServantRef σ) : World ω σ :=
  if (w.orb obj).isNone then (w.counted o).activated o (w.nextKey o) obj else w

/-- The naming service of the ORB, or the one that is created for it. -/
def World.context (w : World ω σ) (o : ω) : ServantRef σ :=
  (w.registry o).namingService.getD (.namingContext w.namingContexts)

/-- The world in which the ORB has a naming service. -/
def World.serving (w : World ω σ) (o : ω) : World ω σ :=
  State (ORB.theNamingService o w)

theorem World.serving_of_some {w : World ω σ} {ns : ServantRef σ}
    (h : (w.registry o).namingService = some ns) : w.serving o = w := by
  rw [World.serving, ORB.theNamingService_run, h, State_ok]

theorem World.serving_of_none {w : World ω σ} (h : (w.registry o).namingService = none) :
    w.serving o =
      (w.named o).activated o (ascii "NameService") (.namingContext w.namingContexts) := by
  rw [World.serving, ORB.theNamingService_run, h, State_ok]

theorem ORB.theNamingService_ok (w : World ω σ) :
    ORB.theNamingService o w = .ok (w.context o) (w.serving o) := by
  rw [World.serving, World.context, ORB.theNamingService_run]
  cases (w.registry o).namingService with
  | some ns => rfl
  | none => rfl

/-- The object is activated if it does not have an ORB, the naming service is created if the ORB does
not have one, and the name is bound there. -/
theorem ORB.bind_run (w : World ω σ) (id : Octets) (obj : ServantRef σ) :
    ORB.bind o id obj w =
      ORB.bindName ((w.entered o obj).context o) id obj ((w.entered o obj).serving o) := by
  rw [ORB.bind, get_bind, World.entered]
  by_cases horb : (w.orb obj).isNone = true
  · rw [if_pos horb, if_pos horb, bind_ok (ORB.activateObject_run w obj)]
    exact bind_ok (ORB.theNamingService_ok _) _
  · rw [if_neg horb, if_neg horb]
    exact bind_ok (ORB.theNamingService_ok _) _

@[simp] theorem World.entered_namingService (w : World ω σ) (obj : ServantRef σ) :
    ((w.entered o obj).registry o').namingService = (w.registry o').namingService := by
  rw [World.entered]
  split
  · rw [activated_namingService, counted_namingService]
  · rfl

@[simp] theorem World.entered_name2Object (w : World ω σ) (obj : ServantRef σ) :
    (w.entered o obj).name2Object = w.name2Object := by
  rw [World.entered]
  split <;> rfl

@[simp] theorem World.entered_namingContexts (w : World ω σ) (obj : ServantRef σ) :
    (w.entered o obj).namingContexts = w.namingContexts := by
  rw [World.entered]
  split <;> rfl

theorem World.entered_exists (w : World ω σ) (obj t : ServantRef σ) :
    (w.entered o obj).Exists t ↔ w.Exists t := by
  cases t with
  | impl s => exact Iff.rfl
  | namingContext n =>
      show n < (w.entered o obj).namingContexts ↔ n < w.namingContexts
      rw [entered_namingContexts]

@[simp] theorem World.serving_name2Object (w : World ω σ) :
    (w.serving o).name2Object = w.name2Object := by
  cases h : (w.registry o).namingService with
  | some ns => rw [serving_of_some h]
  | none =>
      rw [serving_of_none h, activated_name2Object]
      rfl

/-- The ORB has this naming service then. -/
theorem World.serving_namingService (w : World ω σ) :
    ((w.serving o).registry o).namingService = some (w.context o) := by
  cases h : (w.registry o).namingService with
  | some ns => rw [serving_of_some h, World.context, h, Option.getD_some]
  | none =>
      rw [serving_of_none h, activated_namingService, World.context, h, Option.getD_none]
      simp [World.named]

/-- A naming service is kept. -/
theorem World.serving_of_mem {w : World ω σ} {ns : ServantRef σ}
    (hns : (w.registry o').namingService = some ns) :
    ((w.serving o).registry o').namingService = some ns := by
  cases h : (w.registry o).namingService with
  | some _ => rw [serving_of_some h, hns]
  | none =>
      have ho : o' ≠ o := by
        rintro rfl
        rw [h] at hns
        cases hns
      rw [serving_of_none h, activated_namingService]
      simpa [World.named, ho] using hns

omit [DecidableEq ω] [DecidableEq σ] in
theorem World.ne_namingContext {w : World ω σ} {obj : ServantRef σ} (h : w.Exists obj) :
    obj ≠ .namingContext w.namingContexts := by
  rintro rfl
  exact absurd h (Nat.lt_irrefl _)

/-- The naming service is none of the objects that exist before. -/
theorem World.serving_found_iff {w : World ω σ} {obj : ServantRef σ} (hexists : w.Exists obj) :
    (w.serving o).find o' ((w.serving o).objectKey obj) = some obj ↔
      w.find o' (w.objectKey obj) = some obj := by
  cases h : (w.registry o).namingService with
  | some ns => rw [serving_of_some h]
  | none =>
      have hne := ne_namingContext hexists
      rw [serving_of_none h, activated_objectKey, Function.update_of_ne hne]
      constructor
      · intro hfound
        have hnamed := found_of_activated hne hfound
        rw [named_find'] at hnamed
        exact hnamed
      · intro hfound
        refine activated_found ?_
        rw [named_find']
        exact hfound

/-- Whether the object is found when the name is bound. -/
theorem World.entered_found_iff {w : World ω σ} {obj : ServantRef σ} :
    (w.entered o obj).find o ((w.entered o obj).objectKey obj) = some obj ↔
      (w.orb obj = none → w.Free o (w.nextKey o) obj) ∧
        (w.orb obj ≠ none → w.find o (w.objectKey obj) = some obj) := by
  rw [World.entered]
  by_cases horb : w.orb obj = none
  · have hnone : (w.orb obj).isNone = true := by rw [horb, Option.isNone_none]
    rw [if_pos hnone, activated_objectKey, Function.update_self, activated_find_iff,
      World.KeyLeads, if_pos rfl, World.Free, counted_find']
    simp only [horb, true_imp_iff, ne_eq, not_true_eq_false, false_imp_iff, and_true]
    exact Iff.rfl
  · have hsome : ¬ (w.orb obj).isNone = true := by simpa using horb
    rw [if_neg hsome]
    simp [horb]

/-- The objects that have an ORB are not touched. -/
theorem World.entered_found {w : World ω σ} {obj t : ServantRef σ} (horb : w.orb t ≠ none)
    (h : w.find o' (w.objectKey t) = some t) :
    (w.entered o obj).find o' ((w.entered o obj).objectKey t) = some t := by
  rw [World.entered]
  by_cases hobj : (w.orb obj).isNone = true
  · have hne : t ≠ obj := by
      rintro rfl
      exact horb (Option.isNone_iff_eq_none.1 hobj)
    rw [if_pos hobj]
    refine activated_found_of_ne hne ?_
    rw [counted_find']
    exact h
  · rw [if_neg hobj]
    exact h

theorem World.serving_exists {w : World ω σ} {t : ServantRef σ} (h : w.Exists t) :
    (w.serving o).Exists t := by
  cases hns : (w.registry o).namingService with
  | some ns => rwa [serving_of_some hns]
  | none =>
      rw [serving_of_none hns, activated_exists]
      cases t with
      | impl s => trivial
      | namingContext n => exact Nat.lt_succ_of_lt h

/-- A servant keeps having an ORB. -/
theorem World.activated_orb_ne {w : World ω σ} {key : Octets} {s t : ServantRef σ}
    (h : w.orb t ≠ none) : (w.activated o key s).orb t ≠ none := by
  rw [activated_orb]
  by_cases hts : t = s
  · subst hts
    simp
  · rwa [Function.update_of_ne hts]

theorem World.serving_orb_ne {w : World ω σ} {t : ServantRef σ} (h : w.orb t ≠ none) :
    (w.serving o).orb t ≠ none := by
  cases hns : (w.registry o).namingService with
  | some ns => rwa [serving_of_some hns]
  | none =>
      rw [serving_of_none hns]
      exact activated_orb_ne h

theorem World.entered_orb_ne {w : World ω σ} {obj t : ServantRef σ}
    (h : t = obj ∨ w.orb t ≠ none) : (w.entered o obj).orb t ≠ none := by
  rw [World.entered]
  by_cases hobj : (w.orb obj).isNone = true
  · rw [if_pos hobj]
    obtain rfl | horb := h
    · simp
    · exact activated_orb_ne horb
  · rw [if_neg hobj]
    obtain rfl | horb := h
    · simpa using hobj
    · exact horb

/-! ### What holds whatever is called -/

theorem World.Sound.activated {w : World ω σ} (h : w.Sound) (key : Octets) (s : ServantRef σ) :
    (w.activated o key s).Sound := by
  constructor
  · intro o' ns hns
    rw [activated_namingService] at hns
    exact (activated_exists w key s ns).2 (h.service o' ns hns)
  · intro c hc
    rw [activated_exists] at hc
    exact h.fresh c hc

omit [DecidableEq σ] in
theorem World.Sound.counted {w : World ω σ} (h : w.Sound) : (w.counted o).Sound := by
  constructor
  · intro o' ns hns
    rw [counted_namingService] at hns
    exact h.service o' ns hns
  · exact h.fresh

theorem World.Sound.entered {w : World ω σ} (h : w.Sound) (obj : ServantRef σ) :
    (w.entered o obj).Sound := by
  rw [World.entered]
  split
  · exact h.counted.activated _ _
  · exact h

omit [DecidableEq σ] in
theorem World.Sound.named {w : World ω σ} (h : w.Sound) : (w.named o).Sound := by
  have hmono : ∀ c, w.Exists c → (w.named o).Exists c := by
    intro c hc
    cases c with
    | impl s => trivial
    | namingContext n => exact Nat.lt_succ_of_lt hc
  constructor
  · intro o' ns hns
    by_cases ho : o' = o
    · subst ho
      simp only [World.named, Function.update_self, Option.mem_def, Option.some.injEq] at hns
      subst hns
      exact Nat.lt_succ_self _
    · simp only [World.named, Function.update_of_ne ho] at hns
      exact hmono ns (h.service o' ns hns)
  · intro c hc
    exact h.fresh c (mt (hmono c) hc)

theorem World.Sound.serving {w : World ω σ} (h : w.Sound) : (w.serving o).Sound := by
  cases hns : (w.registry o).namingService with
  | some ns => rwa [serving_of_some hns]
  | none =>
      rw [serving_of_none hns]
      exact h.named.activated _ _

/-- The naming service of the ORB exists once it is needed. -/
theorem World.Sound.context_exists {w : World ω σ} (h : w.Sound) :
    (w.serving o).Exists (w.context o) :=
  h.serving.service o _ (serving_namingService w)

/-! ### Binding a name -/

/-- The name is not bound in the naming service of the ORB, if it has one. -/
def World.NameFree (w : World ω σ) (o : ω) (id : Octets) : Prop :=
  ∀ namingService ∈ (w.registry o).namingService, w.name2Object namingService id = none

omit [DecidableEq ω] [DecidableEq σ] in
theorem World.nameFree_iff {w : World ω σ} (h : w.Sound) {id : Octets} :
    w.NameFree o id ↔ w.name2Object (w.context o) id = none := by
  rw [World.NameFree, World.context]
  cases hns : (w.registry o).namingService with
  | some ns => simp
  | none =>
      have hfresh := h.fresh (.namingContext w.namingContexts) (Nat.lt_irrefl _) id
      simpa using hfresh

/-- The world in which the name has been bound. -/
def World.withName (w : World ω σ) (c : ServantRef σ) (id : Octets) (obj : ServantRef σ) :
    World ω σ :=
  { w with
    name2Object := Function.update w.name2Object c
      (Function.update (w.name2Object c) id (some obj)) }

omit [DecidableEq ω] in
theorem World.withName_resolves_self {w : World ω σ} {c obj : ServantRef σ} {id : Octets}
    (h : (w.registry o).namingService = some c) : (w.withName c id obj).Resolves o id obj := by
  rw [resolves_iff]
  refine ⟨c, h, ?_⟩
  simp [World.withName]

omit [DecidableEq ω] in
/-- A name that has been bound stays so. -/
theorem World.withName_resolves {w : World ω σ} {c obj t : ServantRef σ} {id id' : Octets}
    (hfree : w.name2Object c id = none) (h : w.Resolves o' id' t) :
    (w.withName c id obj).Resolves o' id' t := by
  rw [resolves_iff] at h ⊢
  obtain ⟨ns, hns, hobj⟩ := h
  refine ⟨ns, hns, ?_⟩
  rw [World.withName]
  dsimp only
  by_cases hc : ns = c
  · subst hc
    have hid : id' ≠ id := by
      rintro rfl
      rw [hfree] at hobj
      cases hobj
    rw [Function.update_self, Function.update_of_ne hid, hobj]
  · rw [Function.update_of_ne hc, hobj]

omit [DecidableEq ω] in
theorem World.Sound.withName {w : World ω σ} (h : w.Sound) {c : ServantRef σ} (hc : w.Exists c)
    (id : Octets) (obj : ServantRef σ) : (w.withName c id obj).Sound := by
  constructor
  · exact h.service
  · intro c' hc' id'
    have hne : c' ≠ c := by
      rintro rfl
      exact hc' hc
    rw [World.withName]
    dsimp only
    rw [Function.update_of_ne hne]
    exact h.fresh c' hc' id'

/-- Before the name is bound: the object has an ORB, and the ORB a naming service. -/
def World.ready (w : World ω σ) (o : ω) (obj : ServantRef σ) : World ω σ :=
  (w.entered o obj).serving o

theorem World.entered_context (w : World ω σ) (obj : ServantRef σ) :
    (w.entered o obj).context o = w.context o := by
  rw [World.context, World.context, entered_namingService, entered_namingContexts]

/-- A name that is free is bound. -/
theorem ORB.bind_entered {w : World ω σ} (h : w.Sound) {id : Octets} (obj : ServantRef σ)
    (hfree : w.NameFree o id) :
    ORB.bind o id obj w = .ok () ((w.ready o obj).withName (w.context o) id obj) := by
  have hnone : ¬ (((w.entered o obj).serving o).name2Object (w.context o) id).isSome = true := by
    rw [World.serving_name2Object, World.entered_name2Object, (World.nameFree_iff h).1 hfree]
    exact Bool.false_ne_true
  rw [ORB.bind_run, World.entered_context, ORB.bindName, get_bind, if_neg hnone]
  rfl

/-- A name that is bound already is not bound again. -/
theorem ORB.bind_taken {w : World ω σ} (h : w.Sound) {id : Octets} (obj : ServantRef σ)
    (hbound : ¬ w.NameFree o id) :
    ORB.bind o id obj w = .error (.thrown (.runtimeError (alreadyBound id))) (w.ready o obj) := by
  have hsome : (((w.entered o obj).serving o).name2Object (w.context o) id).isSome = true := by
    rw [World.serving_name2Object, World.entered_name2Object, Option.isSome_iff_ne_none]
    exact mt (World.nameFree_iff h).2 hbound
  rw [ORB.bind_run, World.entered_context, ORB.bindName, get_bind, if_pos hsome]
  rfl

theorem World.ready_orb_ne {w : World ω σ} {obj t : ServantRef σ}
    (h : t = obj ∨ w.orb t ≠ none) : (w.ready o obj).orb t ≠ none :=
  serving_orb_ne (entered_orb_ne h)

theorem World.ready_exists {w : World ω σ} {obj t : ServantRef σ} (h : w.Exists t) :
    (w.ready o obj).Exists t :=
  serving_exists ((entered_exists w obj t).2 h)

theorem World.Sound.ready {w : World ω σ} (h : w.Sound) (obj : ServantRef σ) :
    (w.ready o obj).Sound :=
  (h.entered obj).serving

theorem World.Sound.ready_context {w : World ω σ} (h : w.Sound) (obj : ServantRef σ) :
    (w.ready o obj).Exists (w.context o) := by
  have hcontext := World.Sound.context_exists (o := o) (h.entered (o := o) obj)
  rwa [entered_context] at hcontext

theorem World.ready_namingService (w : World ω σ) (obj : ServantRef σ) :
    ((w.ready o obj).registry o).namingService = some (w.context o) := by
  rw [World.ready, serving_namingService, entered_context]

theorem World.ready_name2Object (w : World ω σ) (obj : ServantRef σ) :
    (w.ready o obj).name2Object = w.name2Object := by
  rw [World.ready, serving_name2Object, entered_name2Object]

/-- What is bound is kept when something else is to be bound. -/
theorem World.ready_kept {w : World ω σ} {obj t : ServantRef σ} {id : Octets}
    (hexists : w.Exists t) (horb : w.orb t ≠ none) (hresolves : w.Resolves o' id t)
    (hfound : w.find o' (w.objectKey t) = some t) :
    (w.ready o obj).Resolves o' id t ∧
      (w.ready o obj).find o' ((w.ready o obj).objectKey t) = some t := by
  constructor
  · rw [resolves_iff] at hresolves ⊢
    obtain ⟨ns, hns, hobj⟩ := hresolves
    refine ⟨ns, serving_of_mem (by rw [entered_namingService, hns]), ?_⟩
    rw [ready_name2Object, hobj]
  · have hentered := (entered_exists (o := o) w obj t).2 hexists
    exact (serving_found_iff hentered).2 (entered_found horb hfound)

end Activation

/-! ### One call -/

section Calls

variable [DecidableEq ω] [DecidableEq σ]

/-- What a call has to meet for the bound names to lead to their objects afterwards.  A bound object
that is activated again is found under its new key by all ORBs on which it is bound.  An object that
is bound to a free name gets a key that is free, or is found by this ORB already. -/
def NamingCall.Leads (s : Named ω σ) : NamingCall ω σ → Prop
  | activateObject o servant => s.world.Exists servant →
      ∀ o' id, (id, servant) ∈ s.bound o' →
        s.world.KeyLeads o (s.world.nextKey o) servant o'
  | bind o id obj => s.world.Exists obj → s.world.NameFree o id →
      (s.world.orb obj = none → s.world.Free o (s.world.nextKey o) obj) ∧
        (s.world.orb obj ≠ none → s.world.find o (s.world.objectKey obj) = some obj)
  | shutdown _ => True

omit [DecidableEq σ] in
/-- What is bound when nothing is taken away. -/
theorem mem_update_cons {bound : ω → List (Octets × ServantRef σ)} {o o' : ω}
    {entry entry' : Octets × ServantRef σ} :
    entry' ∈ Function.update bound o (entry :: bound o) o' ↔
      (o' = o ∧ entry' = entry) ∨ entry' ∈ bound o' := by
  by_cases ho : o' = o
  · subst ho
    simp
  · simp [ho]

omit [DecidableEq ω] [DecidableEq σ] in
/-- Nothing has been called. -/
theorem Named.sound_initial : ({} : Named ω σ).Sound := by
  refine ⟨⟨?_, ?_⟩, ?_⟩
  · intro o ns hns
    cases hns
  · intro c _ id
    rfl
  · intro o id obj hmem
    cases hmem

theorem Named.Sound.activateObject {s : Named ω σ} (h : s.Sound) (o : ω)
    (servant : ServantRef σ) :
    ({ s with world := State (ORB.activateObject o servant s.world) } : Named ω σ).Sound := by
  rw [ORB.activateObject_run, State_ok]
  refine ⟨h.world.counted.activated _ _, ?_⟩
  intro o' id obj hmem
  obtain ⟨hexists, horb⟩ := h.known o' id obj hmem
  exact ⟨(World.activated_exists _ _ _ obj).2 hexists, World.activated_orb_ne horb⟩

/-- Everything that is bound still exists when something else is to be bound. -/
theorem Named.Sound.ready {s : Named ω σ} (h : s.Sound) (o : ω) (obj : ServantRef σ) :
    ({ s with world := s.world.ready o obj } : Named ω σ).Sound := by
  refine ⟨h.world.ready obj, ?_⟩
  intro o' id t hmem
  obtain ⟨hexists, horb⟩ := h.known o' id t hmem
  exact ⟨World.ready_exists hexists, World.ready_orb_ne (.inr horb)⟩

theorem Named.Sound.bind {s : Named ω σ} (h : s.Sound) (o : ω) (id : Octets)
    {obj : ServantRef σ} (hexists : s.world.Exists obj) :
    (s.afterBind o id obj (ORB.bind o id obj s.world)).Sound := by
  by_cases hfree : s.world.NameFree o id
  · rw [ORB.bind_entered h.world obj hfree, Named.afterBind]
    refine ⟨(h.world.ready obj).withName (h.world.ready_context obj) id obj, ?_⟩
    intro o' id' t hmem
    obtain ⟨-, hnew⟩ | hold := mem_update_cons.1 hmem
    · obtain ⟨rfl, rfl⟩ := Prod.mk.inj hnew
      exact ⟨World.ready_exists hexists, World.ready_orb_ne (.inl rfl)⟩
    · exact (h.ready o obj).known o' id' t hold
  · rw [ORB.bind_taken h.world obj hfree, Named.afterBind]
    exact h.ready o obj

/-- What an ORB forgets when it is shut down. -/
theorem Named.mem_shutdown {s : Named ω σ} {o o' : ω} {entry : Octets × ServantRef σ}
    (h : entry ∈ ((NamingCall.shutdown o).step s).bound o') : o' ≠ o ∧ entry ∈ s.bound o' := by
  by_cases ho : o' = o
  · subst ho
    simp [NamingCall.step] at h
  · simp only [NamingCall.step, Function.update_of_ne ho] at h
    exact ⟨ho, h⟩

omit [DecidableEq σ] in
/-- The other ORBs are not touched. -/
theorem World.shutdown_registry {w : World ω σ} {o o' : ω} (ho : o' ≠ o) :
    (State (ORB.shutdown o w)).registry o' = w.registry o' := by
  simp [ORB.shutdown, ho]

theorem Named.Sound.shutdown {s : Named ω σ} (h : s.Sound) (o : ω) :
    ((NamingCall.shutdown o).step s).Sound := by
  refine ⟨⟨?_, h.world.fresh⟩, ?_⟩
  · intro o' ns hns
    by_cases ho : o' = o
    · subst ho
      simp [NamingCall.step, ORB.shutdown] at hns
    · rw [NamingCall.step, World.shutdown_registry ho] at hns
      exact h.world.service o' ns hns
  · intro o' id obj hmem
    exact h.known o' id obj (mem_shutdown hmem).2

/-- **What holds whatever is called.** -/
theorem NamingCall.step_sound {s : Named ω σ} (h : s.Sound) (call : NamingCall ω σ) :
    (call.step s).Sound := by
  cases call with
  | activateObject o servant =>
      rw [step]
      split
      · exact h.activateObject o servant
      · exact h
  | bind o id obj =>
      rw [step]
      split
      next hexists => exact h.bind o id hexists
      next => exact h
  | shutdown o => exact h.shutdown o

/-- **It holds in every world a program can get to.** -/
theorem Named.sound_run (calls : List (NamingCall ω σ)) :
    (calls.foldl NamingCall.step {} : Named ω σ).Sound := by
  induction calls using List.reverseRecOn with
  | nil => exact Named.sound_initial
  | append_singleton calls call ih =>
      rw [List.foldl_concat]
      exact call.step_sound ih

/-- Activating a servant keeps the bound names when it is found under its new key wherever it is
bound. -/
theorem Named.kept_activateObject_iff {s : Named ω σ} (h : s.Kept) (o : ω)
    (servant : ServantRef σ) :
    ({ s with world := State (ORB.activateObject o servant s.world) } : Named ω σ).Kept ↔
      ∀ o' id, (id, servant) ∈ s.bound o' →
        s.world.KeyLeads o (s.world.nextKey o) servant o' := by
  have hkey : ∀ o', ((s.world.counted o).activated o (s.world.nextKey o) servant).find o'
      (s.world.nextKey o) = some servant ↔
        s.world.KeyLeads o (s.world.nextKey o) servant o' := by
    intro o'
    rw [World.activated_find_iff, World.KeyLeads, World.KeyLeads, World.Free, World.Free,
      World.counted_find', World.counted_find']
  rw [ORB.activateObject_run, State_ok]
  constructor
  · intro hafter o' id hmem
    have hfound := (hafter o' id servant hmem).2
    rw [World.activated_objectKey, Function.update_self] at hfound
    exact (hkey o').1 hfound
  · intro hleads o' id obj hmem
    obtain ⟨hresolves, hfound⟩ := h o' id obj hmem
    refine ⟨(World.activated_resolves _ _ _).2 (World.counted_resolves.2 hresolves), ?_⟩
    by_cases hobj : obj = servant
    · -- the servant has a name already, which leads to it under its new key
      subst hobj
      dsimp only
      rw [World.activated_objectKey, Function.update_self]
      exact (hkey o').2 (hleads o' id hmem)
    · refine World.activated_found_of_ne hobj ?_
      rw [World.counted_find']
      exact hfound

theorem Named.Kept.ready {s : Named ω σ} (hsound : s.Sound) (h : s.Kept) (o : ω)
    (obj : ServantRef σ) : ({ s with world := s.world.ready o obj } : Named ω σ).Kept := by
  intro o' id t hmem
  obtain ⟨hexists, horb⟩ := hsound.known o' id t hmem
  obtain ⟨hresolves, hfound⟩ := h o' id t hmem
  exact World.ready_kept hexists horb hresolves hfound

/-- Binding a name keeps the bound names when the name is not free, or the object is found. -/
theorem Named.kept_bind_iff {s : Named ω σ} (hsound : s.Sound) (h : s.Kept) (o : ω) (id : Octets)
    {obj : ServantRef σ} (hexists : s.world.Exists obj) :
    (s.afterBind o id obj (ORB.bind o id obj s.world)).Kept ↔
      (s.world.NameFree o id →
        (s.world.orb obj = none → s.world.Free o (s.world.nextKey o) obj) ∧
          (s.world.orb obj ≠ none → s.world.find o (s.world.objectKey obj) = some obj)) := by
  have hready := h.ready hsound o obj
  have hentered := (World.entered_exists (o := o) s.world obj obj).2 hexists
  by_cases hfree : s.world.NameFree o id
  · rw [ORB.bind_entered hsound.world obj hfree, Named.afterBind, ← World.entered_found_iff,
      ← World.serving_found_iff (o := o) hentered]
    constructor
    · intro hafter _
      exact (hafter o id obj (mem_update_cons.2 (.inl ⟨rfl, rfl⟩))).2
    · intro hfound o' id' t hmem
      -- the name that has just been bound, and the names that were bound before
      obtain ⟨rfl, hnew⟩ | hold := mem_update_cons.1 hmem
      · obtain ⟨rfl, rfl⟩ := Prod.mk.inj hnew
        exact ⟨World.withName_resolves_self (World.ready_namingService _ _), hfound hfree⟩
      · obtain ⟨hresolves, hkept⟩ := hready o' id' t hold
        refine ⟨World.withName_resolves ?_ hresolves, hkept⟩
        rw [World.ready_name2Object]
        exact (World.nameFree_iff hsound.world).1 hfree
  · rw [ORB.bind_taken hsound.world obj hfree, Named.afterBind]
    exact iff_of_true hready fun hyes => absurd hyes hfree

theorem Named.Kept.shutdown {s : Named ω σ} (h : s.Kept) (o : ω) :
    ((NamingCall.shutdown o).step s).Kept := by
  intro o' id obj hmem
  obtain ⟨ho, hold⟩ := mem_shutdown hmem
  obtain ⟨hresolves, hfound⟩ := h o' id obj hold
  -- the names of the ORB that is shut down are gone, and no other ORB is touched
  have hregistry := World.shutdown_registry (w := s.world) ho
  refine ⟨?_, ?_⟩
  · rw [World.resolves_iff] at hresolves ⊢
    obtain ⟨ns, hns, hobj⟩ := hresolves
    refine ⟨ns, ?_, hobj⟩
    rw [NamingCall.step, hregistry, hns]
  · rw [NamingCall.step, World.find, hregistry]
    exact hfound

/-- **All bound names lead to their objects after a call exactly when it meets the condition.** -/
theorem NamingCall.step_kept_iff {s : Named ω σ} (hsound : s.Sound) (h : s.Kept)
    (call : NamingCall ω σ) : (call.step s).Kept ↔ call.Leads s := by
  cases call with
  | activateObject o servant =>
      rw [step, Leads]
      by_cases hexists : s.world.Exists servant
      · rw [if_pos hexists, Named.kept_activateObject_iff h]
        simp only [hexists, true_imp_iff]
      · rw [if_neg hexists]
        exact iff_of_true h fun hyes => absurd hyes hexists
  | bind o id obj =>
      rw [step, Leads]
      by_cases hexists : s.world.Exists obj
      · rw [if_pos hexists, Named.kept_bind_iff hsound h o id hexists]
        simp only [hexists, true_imp_iff]
      · rw [if_neg hexists]
        exact iff_of_true h fun hyes => absurd hyes hexists
  | shutdown o => exact iff_of_true (h.shutdown o) trivial

end Calls

/-! ### All calls -/

variable [Platform] [DecidableEq ω] [DecidableEq σ]

/-- **Every bound name leads to the bound object all along exactly when no name is bound to an object
that has an ORB and is not found by this one, no bound object is activated again in a way that it is not
found under its new key, and no key that is made is taken.** -/
theorem led_always_iff (code : ServantRef σ → Servant) (calls : List (NamingCall ω σ)) :
    Runs.Always NamingCall.step (Named.Led code) {} calls ↔
      Runs.Meets NamingCall.step (fun s call => call.Leads s) {} calls := by
  have hkept : (({} : Named ω σ)).Kept := by
    intro o id obj hmem
    cases hmem
  simp only [Runs.Always, Named.led_iff]
  exact Runs.always_iff_meets (I := Named.Sound) (fun _ call h => call.step_sound h)
    (fun _ call hsound h => call.step_kept_iff hsound h) Named.sound_initial hkept

omit [Platform] [DecidableEq ω] [DecidableEq σ] in
/-- A servant that has been activated on one ORB is bound on another one, where nobody finds it: the
name is resolved, and the request with its key is for nobody. -/
theorem activated_elsewhere_not_led :
    letI : Platform := ⟨.little⟩
    ∃ calls : List (NamingCall Bool Unit),
      let s := calls.foldl NamingCall.step {}
      (ascii "Backend", .impl ()) ∈ s.bound true ∧
        s.world.Resolves true (ascii "Backend") (.impl ()) ∧
        s.world.find true (s.world.objectKey (.impl ())) = none ∧
        ¬ s.Led fun _ => ⟨[], fun _ _ => ⟨.coroutine, ⟨[], .returns⟩⟩⟩ := by
  let : Platform := ⟨.little⟩
  refine ⟨[.activateObject false (.impl ()), .bind true (ascii "Backend") (.impl ())], ?_, ?_, ?_, ?_⟩
  · decide
  · rw [World.resolves_iff]
    exact ⟨.namingContext 0, by decide, by decide⟩
  · decide
  · intro h
    have hfound := (h true (ascii "Backend") (.impl ()) (by decide)).found
    exact absurd hfound (by decide)

end Corba
