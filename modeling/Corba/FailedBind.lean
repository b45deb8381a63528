/-
What a failed bind leaves behind.

`ORB::bind` of `src/corba/orb.cc` activates the servant before `NamingContextExtImpl::bind` of
`src/corba/naming.cc` finds out that the name is bound already.  The naming service is not created
then, as it is there when something has been bound.

Main definitions:

* `Corba.World.Untouched` — the servants, the ORB and key of a servant, the counter and the names are
  as they were.

Main results:

* `Corba.ORB.bind_failed` — the servant has been activated if it did not have an ORB, and that is all;
* `Corba.failed_bind_untouched_iff` — exactly when a failed bind changes nothing.
-/

import Corba.BoundNames

set_option relaxedAutoImplicit false
set_option autoImplicit false

namespace Corba

open Layout ByteOrder Placed Exec

variable {ω σ : Type}

/-- The servants of the ORB, the ORB and the key of the servant, the counter of the ORB and all names
are as they were. -/
structure World.Untouched (w w' : World ω σ) (o : ω) (obj : ServantRef σ) : Prop where
  servants : (w'.registry o).servants = (w.registry o).servants
  orb : w'.orb obj = w.orb obj
  objectKey : w'.objectKey obj = w.objectKey obj
  servantIdCounter : (w'.registry o).servantIdCounter = (w.registry o).servantIdCounter
  name2Object : w'.name2Object = w.name2Object

variable [DecidableEq ω] [DecidableEq σ] {o : ω}

/-- A servant that has an ORB is not activated. -/
theorem World.entered_of_orb {w : World ω σ} {obj : ServantRef σ} (h : w.orb obj ≠ none) :
    w.entered o obj = w := by
  rw [World.entered, if_neg]
  intro hnone
  exact h (Option.isNone_iff_eq_none.1 hnone)

omit [DecidableEq ω] [DecidableEq σ] in
/-- Where a name is bound, there is a naming service. -/
theorem World.serves_of_bound {w : World ω σ} {id : Octets} (h : ¬ w.NameFree o id) :
    ∃ namingService, (w.registry o).namingService = some namingService := by
  by_contra hnone
  refine h fun namingService hns => ?_
  exact absurd ⟨namingService, hns⟩ hnone

theorem World.ready_of_bound {w : World ω σ} {id : Octets} (obj : ServantRef σ)
    (h : ¬ w.NameFree o id) : w.ready o obj = w.entered o obj := by
  obtain ⟨namingService, hns⟩ := World.serves_of_bound h
  exact World.serving_of_some ((World.entered_namingService w obj).trans hns)

/-- **The servant has been activated if it did not have an ORB, and that is all.** -/
theorem ORB.bind_failed {w w' : World ω σ} (h : w.Sound) {id : Octets} {obj : ServantRef σ}
    {f : Fault} (hfailed : ORB.bind o id obj w = .error f w') :
    ¬ w.NameFree o id ∧ f = .thrown (.runtimeError (alreadyBound id)) ∧
      w' = w.entered o obj := by
  by_cases hfree : w.NameFree o id
  · rw [ORB.bind_entered h obj hfree] at hfailed
    cases hfailed
  · rw [ORB.bind_taken h obj hfree] at hfailed
    cases hfailed
    exact ⟨hfree, rfl, World.ready_of_bound obj hfree⟩

/-- **A bind that fails changes nothing exactly when the servant has an ORB already.** -/
theorem failed_bind_untouched_iff {w w' : World ω σ} (h : w.Sound) {id : Octets}
    {obj : ServantRef σ} {f : Fault} (hfailed : ORB.bind o id obj w = .error f w') :
    w.Untouched w' o obj ↔ w.orb obj ≠ none := by
  obtain ⟨-, -, rfl⟩ := ORB.bind_failed h hfailed
  constructor
  · intro hsame hnone
    have hactivated : (w.entered o obj).orb obj ≠ none := World.entered_orb_ne (.inl rfl)
    exact hactivated (hsame.orb.trans hnone)
  · intro horb
    rw [World.entered_of_orb horb]
    exact ⟨rfl, rfl, rfl, rfl, rfl⟩

omit [DecidableEq ω] [DecidableEq σ]

/-- The name has been bound to this servant before. -/
theorem failed_bind_untouched_again :
    let s : Named Unit Bool := [.bind () (ascii "Backend") (.impl true)].foldl NamingCall.step {}
    s.world.Untouched (State (ORB.bind () (ascii "Backend") (.impl true) s.world)) ()
      (.impl true) := by
  intro s
  have hsound : s.world.Sound := (Named.sound_run _).world
  have htaken : ¬ s.world.NameFree () (ascii "Backend") := by
    rw [World.nameFree_iff hsound]
    decide
  have hfailed := ORB.bind_taken hsound (.impl true) htaken
  have hstate : State (ORB.bind () (ascii "Backend") (.impl true) s.world) =
      s.world.ready () (.impl true) := by
    rw [hfailed]
    rfl
  rw [hstate]
  exact (failed_bind_untouched_iff hsound hfailed).2 (by decide)

/-- The name has been bound to another servant before.  This one is activated all the same. -/
theorem failed_bind_activates :
    ∃ (s : Named Unit Bool) (f : Fault) (w' : World Unit Bool), s.world.Sound ∧
      ORB.bind () (ascii "Backend") (.impl true) s.world = .error f w' ∧
      s.world.orb (.impl true) = none ∧ w'.orb (.impl true) = some () ∧
      w'.objectKey (.impl true) = ascii "OID:2" ∧
      (w'.registry ()).servants (ascii "OID:2") = some (.impl true) ∧
      (s.world.registry ()).servantIdCounter = 1 ∧ (w'.registry ()).servantIdCounter = 2 ∧
      ¬ s.world.Untouched w' () (.impl true) := by
  let calls : List (NamingCall Unit Bool) := [.bind () (ascii "Backend") (.impl false)]
  let s : Named Unit Bool := calls.foldl NamingCall.step {}
  have hsound : s.world.Sound := (Named.sound_run calls).world
  have htaken : ¬ s.world.NameFree () (ascii "Backend") := by
    rw [World.nameFree_iff hsound]
    decide
  refine ⟨s, _, _, hsound, ORB.bind_taken hsound (.impl true) htaken, ?_, ?_, ?_, ?_, ?_, ?_, ?_⟩
  · decide
  · decide
  · decide
  · decide
  · decide
  · decide
  · intro hsame
    exact absurd hsame.orb (by decide)

end Corba
