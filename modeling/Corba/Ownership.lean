/-
Resources and their owners.

A table hands out resources and takes them back.  A program gets at it with calls, and what it gives
back it must have got, and must not have given back before.  Nothing in the table says who has got
what: that is known when each part of the program only gives back what is its own.  The rule for a
part leaves room for a frame, so that the parts are looked at one by one.

Main definitions:

* `Ownership.Call`, `Ownership.Table` — the calls, and the table;
* `Ownership.Proper` — the calls of a part, from what it owns before to what it owns afterwards;
* `Ownership.Balanced` — what is out is what is owned, and everything has one owner.

Main results:

* `Ownership.Proper.append`, `Ownership.Proper.frame` — calls one after the other, and what the other
  parts own;
* `Ownership.Proper.set_part`, `erase_part`, `add_part` — a part changes, goes, or comes;
* `Ownership.Balanced.run` — proper calls keep the table balanced.
-/

import Corba.Runs
import Mathlib.Data.List.Perm.Basic
import Mathlib.Data.List.Nodup

set_option relaxedAutoImplicit false
set_option autoImplicit false

namespace Ownership

/-- A resource is handed out, or given back.  What is no resource can be given back in vain. -/
inductive Call (ρ : Type) where
  | acquire (r : ρ)
  | release (r : Option ρ)
  deriving DecidableEq, Repr

/-- The resources that are out, and those that have been given back without being out. -/
structure Table (ρ : Type) where
  held : List ρ
  stray : List ρ := []
  deriving DecidableEq, Repr

variable {ρ : Type} [DecidableEq ρ]

namespace Table

def call (t : Table ρ) : Call ρ → Table ρ
  | .acquire r => { t with held := r :: t.held }
  | .release none => t
  | .release (some r) =>
      if r ∈ t.held then { t with held := t.held.erase r } else { t with stray := r :: t.stray }

/-- Nothing is handed out twice. -/
def Grants (t : Table ρ) : Call ρ → Prop
  | .acquire r => r ∉ t.held
  | .release _ => True

instance (t : Table ρ) : (c : Call ρ) → Decidable (t.Grants c)
  | .acquire r => inferInstanceAs (Decidable (r ∉ t.held))
  | .release _ => inferInstanceAs (Decidable True)

end Table

/-- With these calls, who owns the first resources owns the last ones in the end, and only gives back
what is its own. -/
inductive Proper : List ρ → List (Call ρ) → List ρ → Prop
  | nil {mine mine' : List ρ} : mine.Perm mine' → Proper mine [] mine'
  | acquire {mine mine' : List ρ} {r : ρ} {calls : List (Call ρ)} :
      Proper (r :: mine) calls mine' → Proper mine (.acquire r :: calls) mine'
  | release {mine mine' : List ρ} {r : ρ} {calls : List (Call ρ)} :
      r ∈ mine → Proper (mine.erase r) calls mine' → Proper mine (.release (some r) :: calls) mine'
  | vain {mine mine' : List ρ} {calls : List (Call ρ)} :
      Proper mine calls mine' → Proper mine (.release none :: calls) mine'

namespace Proper

variable {mine mine' mine'' : List ρ} {calls calls' : List (Call ρ)}

theorem refl (mine : List ρ) : Proper mine [] mine := .nil (.refl mine)

/-- It does not matter in which order they are counted. -/
theorem perm (h : Proper mine calls mine') (hmine : mine''.Perm mine) :
    Proper mine'' calls mine' := by
  induction h generalizing mine'' with
  | nil hperm => exact .nil (hmine.trans hperm)
  | acquire _ ih => exact .acquire (ih (hmine.cons _))
  | release hmem _ ih => exact .release (hmine.mem_iff.2 hmem) (ih (hmine.erase _))
  | vain _ ih => exact .vain (ih hmine)

theorem append (h : Proper mine calls mine') (h' : Proper mine' calls' mine'') :
    Proper mine (calls ++ calls') mine'' := by
  induction h with
  | nil hperm => exact h'.perm hperm
  | acquire _ ih => exact .acquire (ih h')
  | release hmem _ ih => exact .release hmem (ih h')
  | vain _ ih => exact .vain (ih h')

theorem perm_right (h : Proper mine calls mine') (hmine : mine'.Perm mine'') :
    Proper mine calls mine'' := by
  have hboth := h.append (.nil hmine)
  rwa [List.append_nil] at hboth

/-- **What the others own is out of reach.** -/
theorem frame (h : Proper mine calls mine') (others : List ρ) :
    Proper (mine ++ others) calls (mine' ++ others) := by
  induction h with
  | nil hperm => exact .nil (hperm.append_right others)
  | acquire _ ih => exact .acquire ih
  | @release mine _ r _ hmem _ ih =>
      refine .release (List.mem_append_left _ hmem) ?_
      rw [List.erase_append_left _ hmem]
      exact ih
  | vain _ ih => exact .vain ih

theorem frame_left (h : Proper mine calls mine') (others : List ρ) :
    Proper (others ++ mine) calls (others ++ mine') :=
  ((h.frame others).perm List.perm_append_comm).perm_right List.perm_append_comm

/-- All of it is given back. -/
theorem releaseAll (mine : List ρ) : Proper mine (mine.map fun r => .release (some r)) [] := by
  induction mine with
  | nil => exact .refl []
  | cons r mine ih =>
      refine .release (List.mem_cons_self ..) ?_
      rw [List.erase_cons_head]
      exact ih

/-- One resource at most. -/
theorem releaseOne (r : Option ρ) : Proper r.toList [.release r] [] := by
  cases r with
  | none => exact .vain (.refl [])
  | some r => exact releaseAll [r]

/-! ### Parts of a program -/

section Parts

variable {σ : Type} (owns : σ → List ρ) {parts : List σ} {part part' : σ} {i : ℕ}

omit [DecidableEq ρ] in
/-- What a part owns, and what all others own. -/
theorem perm_part (hpart : parts[i]? = some part) : ∃ others,
    (parts.flatMap owns).Perm (owns part ++ others) ∧
      (∀ part', ((parts.set i part').flatMap owns).Perm (owns part' ++ others)) ∧
      ((parts.eraseIdx i).flatMap owns).Perm others := by
  obtain ⟨hlt, rfl⟩ := List.getElem?_eq_some_iff.1 hpart
  refine ⟨(parts.take i).flatMap owns ++ (parts.drop (i + 1)).flatMap owns, ?_, fun part' => ?_, ?_⟩
  · conv_lhs => rw [← List.take_append_drop i parts, List.drop_eq_getElem_cons hlt]
    rw [List.flatMap_append, List.flatMap_cons]
    exact List.perm_append_comm_assoc _ _ _
  · rw [List.set_eq_take_append_cons_drop, if_pos hlt, List.flatMap_append, List.flatMap_cons]
    exact List.perm_append_comm_assoc _ _ _
  · rw [List.eraseIdx_eq_take_drop_succ, List.flatMap_append]

/-- **One part after the other**: what a part does is done by the program. -/
theorem set_part (hpart : parts[i]? = some part) (h : Proper (owns part) calls (owns part')) :
    Proper (parts.flatMap owns) calls ((parts.set i part').flatMap owns) := by
  obtain ⟨others, hbefore, hafter, -⟩ := perm_part owns hpart
  exact ((h.frame others).perm hbefore).perm_right (hafter part').symm

/-- A part that is not there any more has given back everything. -/
theorem erase_part (hpart : parts[i]? = some part) (h : Proper (owns part) calls []) :
    Proper (parts.flatMap owns) calls ((parts.eraseIdx i).flatMap owns) := by
  obtain ⟨others, hbefore, -, hafter⟩ := perm_part owns hpart
  exact ((h.frame others).perm hbefore).perm_right hafter.symm

/-- A new part. -/
theorem add_part (h : Proper [] calls (owns part')) :
    Proper (parts.flatMap owns) calls ((parts ++ [part']).flatMap owns) := by
  have hboth := h.frame_left (parts.flatMap owns)
  rw [List.append_nil] at hboth
  rwa [List.flatMap_append, List.flatMap_singleton]

end Parts

end Proper

/-- What is out is what is owned, everything has one owner, and nothing has been given back that was
not out. -/
structure Balanced (t : Table ρ) (owned : List ρ) : Prop where
  perm : t.held.Perm owned
  nodup : t.held.Nodup
  stray : t.stray = []

namespace Balanced

variable {t : Table ρ} {owned owned' : List ρ} {calls : List (Call ρ)}

omit [DecidableEq ρ] in
theorem nodup_owned (h : Balanced t owned) : owned.Nodup := h.perm.nodup_iff.1 h.nodup

omit [DecidableEq ρ] in
theorem mem_iff (h : Balanced t owned) (r : ρ) : r ∈ t.held ↔ r ∈ owned := h.perm.mem_iff

theorem acquire (h : Balanced t owned) {r : ρ} (hr : r ∉ t.held) :
    Balanced (t.call (.acquire r)) (r :: owned) where
  perm := h.perm.cons r
  nodup := List.nodup_cons.2 ⟨hr, h.nodup⟩
  stray := h.stray

theorem release (h : Balanced t owned) {r : ρ} (hr : r ∈ owned) :
    Balanced (t.call (.release (some r))) (owned.erase r) := by
  rw [Table.call, if_pos ((h.mem_iff r).2 hr)]
  exact ⟨h.perm.erase r, h.nodup.erase r, h.stray⟩

/-- **Proper calls keep the table balanced**, as long as nothing is handed out twice. -/
theorem run (h : Balanced t owned) (hproper : Proper owned calls owned')
    (hgrants : Runs.Meets Table.call Table.Grants t calls) :
    Balanced (calls.foldl Table.call t) owned' := by
  induction hproper generalizing t with
  | nil hperm => exact ⟨h.perm.trans hperm, h.nodup, h.stray⟩
  | acquire _ ih =>
      obtain ⟨hfresh, hrest⟩ := Runs.meets_cons.1 hgrants
      exact ih (h.acquire hfresh) hrest
  | release hmem _ ih =>
      obtain ⟨-, hrest⟩ := Runs.meets_cons.1 hgrants
      exact ih (h.release hmem) hrest
  | vain _ ih =>
      obtain ⟨-, hrest⟩ := Runs.meets_cons.1 hgrants
      exact ih h hrest

end Balanced

end Ownership
