/-
The naming service is a table of names.

Whatever a program calls, an ORB has a naming service exactly when a name has been bound on it since it
was last shut down.  The ORB finds it under `NameService`, unless the program has taken this key for a
servant of its own, and what it holds are the names for which `ORB::bind` of `src/corba/orb.cc` has
returned.

Main definitions:

* `Corba.NamingEvent` — the calls of a program, also those with a key of its own;
* `Corba.World.Tables` — the naming services of a world are the tables of what has been bound.

Main results:

* `Corba.NamingEvent.step_tables` — one call;
* `Corba.Named.tables_run` — **the naming services are tables in every world a program can get to**;
* `Corba.World.find_run` — what an ORB finds under a key, it finds until it is shut down.
-/

import Corba.BoundNames

set_option relaxedAutoImplicit false
set_option autoImplicit false

namespace Corba

open Exec

variable {ω σ : Type}

/-- The calls of a program: those of before, and `activate_object_with_id`, which is public. -/
inductive NamingEvent (ω σ : Type) where
  | call (call : NamingCall ω σ)
  | activateObjectWithId (o : ω) (objectKey : Octets) (servant : ServantRef σ)

namespace NamingEvent

/-- The key of the naming service is not given to another servant. -/
def Ordinary : NamingEvent ω σ → Prop
  | call _ => True
  | activateObjectWithId _ objectKey _ => ascii "NameService" ≠ objectKey

/-- The ORB is not shut down. -/
def Spares (o : ω) : NamingEvent ω σ → Prop
  | call (.shutdown o') => o' ≠ o
  | _ => True

def step [DecidableEq ω] [DecidableEq σ] (s : Named ω σ) : NamingEvent ω σ → Named ω σ
  | call c => c.step s
  | activateObjectWithId o objectKey servant =>
      if s.world.Exists servant then
        { s with world := State (ORB.activateObjectWithId o objectKey servant s.world) }
      else s

end NamingEvent

/-- The naming services are the tables of what has been bound, each for its own ORB. -/
structure World.Tables (w : World ω σ) (bound : ω → List (Octets × ServantRef σ)) : Prop where
  found : ∀ o, w.find o (ascii "NameService") = (w.registry o).namingService
  apart : ∀ o o' ns, (w.registry o).namingService = some ns →
    (w.registry o').namingService = some ns → o' = o
  created : ∀ o ns, (w.registry o).namingService = some ns → ∃ n, ns = .namingContext n
  unused : ∀ o, (w.registry o).namingService = none → bound o = []
  names : ∀ o ns, (w.registry o).namingService = some ns →
    bound o ≠ [] ∧ ∀ id, w.name2Object ns id = (bound o).lookup id

section Tables

variable [DecidableEq ω] [DecidableEq σ] {o o' : ω} {w : World ω σ}
  {bound : ω → List (Octets × ServantRef σ)}

/-! ### Activations -/

theorem World.Tables.activated (h : w.Tables bound) {key : Octets}
    (hkey : ascii "NameService" ≠ key) (s : ServantRef σ) : (w.activated o key s).Tables bound where
  found o' := by
    rw [activated_namingService, ← h.found o']
    by_cases ho : o' = o
    · subst ho
      exact activated_find_of_ne w s hkey
    · rw [activated_find_other w key s ho]
  apart a b ns ha hb := by
    rw [activated_namingService] at ha hb
    exact h.apart a b ns ha hb
  created a ns ha := by
    rw [activated_namingService] at ha
    exact h.created a ns ha
  unused a ha := by
    rw [activated_namingService] at ha
    exact h.unused a ha
  names a ns ha := by
    rw [activated_namingService] at ha
    exact h.names a ns ha

omit [DecidableEq σ] in
theorem World.Tables.counted (h : w.Tables bound) : (w.counted o).Tables bound where
  found o' := by rw [counted_namingService, counted_find', h.found o']
  apart a b ns ha hb := by
    rw [counted_namingService] at ha hb
    exact h.apart a b ns ha hb
  created a ns ha := by
    rw [counted_namingService] at ha
    exact h.created a ns ha
  unused a ha := by
    rw [counted_namingService] at ha
    exact h.unused a ha
  names a ns ha := by
    rw [counted_namingService] at ha
    exact h.names a ns ha

theorem World.Tables.entered (h : w.Tables bound) (obj : ServantRef σ) :
    (w.entered o obj).Tables bound := by
  rw [World.entered]
  split
  · exact h.counted.activated (ORB.servantKey_ne _) obj
  · exact h

/-! ### The naming service -/

/-- The naming services of the other ORBs are not touched. -/
theorem World.serving_namingService_other (w : World ω σ) (ho : o' ≠ o) :
    ((w.serving o).registry o').namingService = (w.registry o').namingService := by
  cases h : (w.registry o).namingService with
  | some ns => rw [serving_of_some h]
  | none =>
      rw [serving_of_none h, activated_namingService]
      simp [World.named, ho]

/-- What an ORB finds stays when a naming service is created. -/
theorem World.serving_find {key : Octets} {t : ServantRef σ} (h : w.find o' key = some t) :
    (w.serving o).find o' key = some t := by
  cases hns : (w.registry o).namingService with
  | some ns => rwa [serving_of_some hns]
  | none =>
      rw [serving_of_none hns]
      refine activated_found ?_
      rw [named_find', h]

/-- The naming service is found. -/
theorem World.Tables.serving_found (h : w.Tables bound) (o' : ω) :
    (w.serving o).find o' (ascii "NameService") = ((w.serving o).registry o').namingService := by
  by_cases ho : o' = o
  · subst ho
    rw [serving_namingService, World.context]
    cases hns : (w.registry o').namingService with
    | some ns => rw [serving_of_some hns, h.found, hns, Option.getD_some]
    | none =>
        rw [serving_of_none hns, activated_find_self, named_find, h.found, hns, Option.getD_none]
  · rw [serving_namingService_other w ho, ← h.found o']
    cases hns : (w.registry o).namingService with
    | some ns => rw [serving_of_some hns]
    | none => rw [serving_of_none hns, activated_find_other _ _ _ ho, named_find']

omit [DecidableEq ω] [DecidableEq σ] in
/-- What is bound on the ORB, before a naming service is needed and behind that. -/
theorem World.Tables.context_names (h : w.Tables bound) (hsound : w.Sound) (id : Octets) :
    w.name2Object (w.context o) id = (bound o).lookup id := by
  rw [World.context]
  cases hns : (w.registry o).namingService with
  | some ns => exact (h.names o ns hns).2 id
  | none =>
      rw [Option.getD_none, h.unused o hns]
      exact hsound.fresh _ (Nat.lt_irrefl _) id

omit [DecidableEq ω] [DecidableEq σ] in
/-- The naming service of an ORB is that of no other. -/
theorem World.Tables.context_ne (h : w.Tables bound) (hsound : w.Sound) (ho : o' ≠ o)
    {ns : ServantRef σ} (hns : (w.registry o').namingService = some ns) : ns ≠ w.context o := by
  rintro rfl
  cases hmine : (w.registry o).namingService with
  | some ns =>
      rw [World.context, hmine, Option.getD_some] at hns
      exact ho (h.apart o o' ns hmine hns)
  | none =>
      rw [World.context, hmine, Option.getD_none] at hns
      exact ne_namingContext (hsound.service o' _ hns) rfl

/-! ### Binding a name -/

/-- The naming services once the ORB has one. -/
theorem World.serving_service {ns : ServantRef σ}
    (h : ((w.serving o).registry o').namingService = some ns) :
    (o' = o ∧ ns = w.context o) ∨ (o' ≠ o ∧ (w.registry o').namingService = some ns) := by
  by_cases ho : o' = o
  · subst ho
    rw [serving_namingService, Option.some.injEq] at h
    exact .inl ⟨rfl, h.symm⟩
  · rw [serving_namingService_other w ho] at h
    exact .inr ⟨ho, h⟩

omit [DecidableEq ω] in
/-- What is bound to the names of a naming context behind a binding. -/
theorem World.withName_name2Object (w : World ω σ) (c obj : ServantRef σ) (id : Octets) :
    (w.withName c id obj).name2Object =
      Function.update w.name2Object c (Function.update (w.name2Object c) id (some obj)) := rfl

/-- **A name that is bound is put into the table.** -/
theorem World.Tables.withName (h : w.Tables bound) (hsound : w.Sound) (id : Octets)
    (obj : ServantRef σ) :
    ((w.serving o).withName (w.context o) id obj).Tables
      (Function.update bound o ((id, obj) :: bound o)) where
  found o' := h.serving_found o'
  apart a b ns ha hb := by
    obtain ⟨rfl, hnew⟩ | ⟨hao, hold⟩ := serving_service ha
    · obtain ⟨rfl, -⟩ | ⟨hbo, hold⟩ := serving_service hb
      · rfl
      · exact absurd hnew (h.context_ne hsound hbo hold)
    · obtain ⟨rfl, hnew⟩ | ⟨-, hold'⟩ := serving_service hb
      · exact absurd hnew (h.context_ne hsound hao hold)
      · exact h.apart a b ns hold hold'
  created a ns ha := by
    obtain ⟨rfl, rfl⟩ | ⟨-, ha⟩ := serving_service ha
    · rw [World.context]
      cases hmine : (w.registry a).namingService with
      | some ns => exact h.created a ns hmine
      | none => exact ⟨_, rfl⟩
    · exact h.created a ns ha
  unused a ha := by
    have hao : a ≠ o := by
      rintro rfl
      rw [World.withName, serving_namingService] at ha
      cases ha
    rw [Function.update_of_ne hao]
    rw [World.withName, serving_namingService_other w hao] at ha
    exact h.unused a ha
  names a ns ha := by
    rw [withName_name2Object, serving_name2Object]
    obtain ⟨rfl, rfl⟩ | ⟨hao, ha⟩ := serving_service ha
    · -- the name that has just been bound is the first one
      rw [Function.update_self, Function.update_self]
      refine ⟨by simp, fun id' => ?_⟩
      rw [List.lookup_cons]
      by_cases hid : id' = id
      · subst hid
        simp
      · rw [Function.update_of_ne hid, h.context_names hsound, beq_eq_false_iff_ne.2 hid]
    · rw [Function.update_of_ne (h.context_ne hsound hao ha), Function.update_of_ne hao]
      exact h.names a ns ha

/-! ### All calls -/

theorem Named.Sound.activateObjectWithId {s : Named ω σ} (h : s.Sound) (o : ω) (key : Octets)
    (servant : ServantRef σ) :
    ({ s with world := s.world.activated o key servant } : Named ω σ).Sound := by
  refine ⟨h.world.activated _ _, ?_⟩
  intro o' id obj hmem
  obtain ⟨hexists, horb⟩ := h.known o' id obj hmem
  exact ⟨(World.activated_exists _ _ _ obj).2 hexists, World.activated_orb_ne horb⟩

theorem NamingEvent.step_named_sound {s : Named ω σ} (h : s.Sound) (event : NamingEvent ω σ) :
    (event.step s).Sound := by
  cases event with
  | call call => exact call.step_sound h
  | activateObjectWithId o key servant =>
      rw [step]
      split
      · exact h.activateObjectWithId o key servant
      · exact h

/-- **The naming services are tables after a call when they were so before.** -/
theorem NamingEvent.step_tables {s : Named ω σ} (hsound : s.Sound) (h : s.world.Tables s.bound)
    (event : NamingEvent ω σ) (hordinary : event.Ordinary) :
    (event.step s).world.Tables (event.step s).bound := by
  cases event with
  | activateObjectWithId o key servant =>
      rw [step]
      split
      · exact h.activated hordinary servant
      · exact h
  | call call =>
      cases call with
      | activateObject o servant =>
          rw [step, NamingCall.step]
          split
          · rw [ORB.activateObject_run, State_ok]
            exact h.counted.activated (ORB.servantKey_ne _) servant
          · exact h
      | bind o id obj =>
          rw [step, NamingCall.step]
          split
          next hexists =>
            by_cases hfree : s.world.NameFree o id
            · rw [ORB.bind_entered hsound.world obj hfree, Named.afterBind, World.ready,
                ← World.entered_context s.world obj]
              exact (h.entered obj).withName (hsound.world.entered obj) id obj
            · -- there is a naming service, in which the name is bound
              rw [ORB.bind_taken hsound.world obj hfree, Named.afterBind, World.ready]
              obtain ⟨ns, hns⟩ : ∃ ns, (s.world.registry o).namingService = some ns := by
                by_contra hnone
                refine hfree fun ns hns => ?_
                exact absurd ⟨ns, hns⟩ hnone
              rw [World.serving_of_some (by rw [World.entered_namingService, hns])]
              exact h.entered obj
          next => exact h
      | shutdown o =>
          have hself : ((State (ORB.shutdown o s.world)).registry o).servants = (fun _ => none) ∧
              ((State (ORB.shutdown o s.world)).registry o).namingService = none := by
            simp [ORB.shutdown]
          have hother : ∀ a ns, ((State (ORB.shutdown o s.world)).registry a).namingService = some ns →
              a ≠ o ∧ (s.world.registry a).namingService = some ns := by
            intro a ns ha
            have hao : a ≠ o := by
              rintro rfl
              rw [hself.2] at ha
              cases ha
            exact ⟨hao, by rwa [World.shutdown_registry hao] at ha⟩
          rw [step, NamingCall.step]
          refine ⟨fun a => ?_, fun a b ns ha hb => ?_, fun a ns ha => ?_, fun a ha => ?_,
            fun a ns ha => ?_⟩
          · by_cases hao : a = o
            · subst hao
              rw [World.find, hself.1, hself.2]
            · rw [World.find, World.shutdown_registry hao]
              exact h.found a
          · exact h.apart a b ns (hother a ns ha).2 (hother b ns hb).2
          · exact h.created a ns (hother a ns ha).2
          · by_cases hao : a = o
            · subst hao
              exact Function.update_self ..
            · dsimp only
              rw [Function.update_of_ne hao]
              rw [World.shutdown_registry hao] at ha
              exact h.unused a ha
          · obtain ⟨hao, hns⟩ := hother a ns ha
            dsimp only
            rw [Function.update_of_ne hao]
            exact h.names a ns hns

omit [DecidableEq ω] [DecidableEq σ] in
/-- Nothing has been called. -/
theorem Named.tables_initial : ({} : Named ω σ).world.Tables ({} : Named ω σ).bound where
  found _ := rfl
  apart _ _ _ h := by cases h
  created _ _ h := by cases h
  unused _ _ := rfl
  names _ _ h := by cases h

/-- **The naming services are tables in every world a program can get to** that leaves their key to
them. -/
theorem Named.tables_run (events : List (NamingEvent ω σ)) (h : ∀ e ∈ events, e.Ordinary) :
    (events.foldl NamingEvent.step {} : Named ω σ).Sound ∧
      (events.foldl NamingEvent.step {} : Named ω σ).world.Tables
        (events.foldl NamingEvent.step {} : Named ω σ).bound := by
  induction events using List.reverseRecOn with
  | nil => exact ⟨Named.sound_initial, Named.tables_initial⟩
  | append_singleton events event ih =>
      obtain ⟨hsound, htables⟩ := ih fun e he => h e (by simp [he])
      rw [List.foldl_concat]
      exact ⟨event.step_named_sound hsound, event.step_tables hsound htables (h event (by simp))⟩

/-! ### Keys -/

/-- What an ORB finds under a key stays when a name is bound. -/
theorem World.ready_find {key : Octets} {t : ServantRef σ} (h : w.find o' key = some t)
    (obj : ServantRef σ) : (w.ready o obj).find o' key = some t := by
  rw [World.ready]
  refine serving_find ?_
  rw [World.entered]
  split
  · refine activated_found ?_
    rw [counted_find', h]
  · exact h

theorem Named.afterBind_find {s : Named ω σ} {id key : Octets} {obj t : ServantRef σ}
    (h : s.world.find o' key = some t) :
    (s.afterBind o id obj (ORB.bind o id obj s.world)).world.find o' key = some t := by
  have hready : ((s.world.entered o obj).serving o).find o' key = some t :=
    World.ready_find h obj
  rw [ORB.bind_run, ORB.bindName, get_bind]
  split
  · exact hready
  · exact hready

/-- **What an ORB finds under a key, it finds after a call that does not shut it down.** -/
theorem NamingEvent.step_find {s : Named ω σ} {key : Octets} {t : ServantRef σ}
    (event : NamingEvent ω σ) (hspares : event.Spares o) (h : s.world.find o key = some t) :
    (event.step s).world.find o key = some t := by
  cases event with
  | activateObjectWithId o' key' servant =>
      rw [step]
      split
      · exact World.activated_found h
      · exact h
  | call call =>
      cases call with
      | activateObject o' servant =>
          rw [step, NamingCall.step]
          split
          · rw [ORB.activateObject_run, State_ok]
            refine World.activated_found ?_
            rw [World.counted_find', h]
          · exact h
      | bind o' id obj =>
          rw [step, NamingCall.step]
          split
          · exact Named.afterBind_find h
          · exact h
      | shutdown o' =>
          have ho : o ≠ o' := fun heq => hspares heq.symm
          rw [step, NamingCall.step, World.find, World.shutdown_registry ho]
          exact h

/-- **What an ORB finds under a key, it finds until it is shut down.** -/
theorem World.find_run {s : Named ω σ} {key : Octets} {t : ServantRef σ}
    (events : List (NamingEvent ω σ)) (hspares : ∀ e ∈ events, e.Spares o)
    (h : s.world.find o key = some t) :
    (events.foldl NamingEvent.step s).world.find o key = some t := by
  induction events generalizing s with
  | nil => exact h
  | cons event events ih =>
      have hstep := event.step_find (hspares event (by simp)) h
      exact ih (fun e he => hspares e (by simp [he])) hstep

end Tables

end Corba
