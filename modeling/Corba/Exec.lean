/-
Running programs that may throw.

The programs of the model are functions of a state that end with a value or with a fault, and with
the state they have reached either way.  The lemmas below run such a program one step at a time:
the run of the first part decides what the rest starts from.

Main definitions:

* `Exec.State` — the state a result ends in;
* `Exec.Preserves` — a property of the state that every run of a program keeps;
* `Exec.Yields` — a property of every value a program can end with;
* `Exec.Throws` — a property of everything a program can throw;
* `Exec.Triple` — what a program leads to from a state with some property;
* `Exec.times`, `Exec.repeated` — a loop that repeats its body a given number of times;
* `Exec.rounds` — the states its rounds begin in;
* `Exec.Loop`, `Exec.RunsTo` — the run of a loop whose body says when it is over.

Main results:

* `Exec.bind_ok`, `Exec.bind_error` — the run of a sequence from the run of its first part;
* `Exec.bind_eq_ok` — a sequence ends normally exactly when both of its parts do;
* `Exec.Preserves.bind`, `Exec.Yields.bind`, `Exec.Preserves.times` — what the parts preserve, the whole preserves;
* `Exec.Climbs.length_rounds_le` — a loop that makes progress has few rounds, however many it is asked
  for.
-/

import Mathlib.Data.List.Basic
import Mathlib.Data.Nat.Notation

set_option relaxedAutoImplicit false
set_option autoImplicit false

namespace Exec

variable {ε σ α β : Type}

instance decidableEqResult [DecidableEq ε] [DecidableEq σ] [DecidableEq α] :
    DecidableEq (EStateM.Result ε σ α)
  | .ok a s, .ok b t =>
      decidable_of_iff (a = b ∧ s = t)
        ⟨fun h => by rw [h.1, h.2], fun h => EStateM.Result.ok.inj h⟩
  | .error a s, .error b t =>
      decidable_of_iff (a = b ∧ s = t)
        ⟨fun h => by rw [h.1, h.2], fun h => EStateM.Result.error.inj h⟩
  | .ok _ _, .error _ _ => isFalse nofun
  | .error _ _, .ok _ _ => isFalse nofun

/-- The state a result ends in. -/
def State : EStateM.Result ε σ α → σ
  | .ok _ s => s
  | .error _ s => s

@[simp] theorem State_ok (a : α) (s : σ) :
    State (.ok a s : EStateM.Result ε σ α) = s := rfl

@[simp] theorem State_error (e : ε) (s : σ) :
    State (.error e s : EStateM.Result ε σ α) = s := rfl

@[simp] theorem pure_run (a : α) (s : σ) : (pure a : EStateM ε σ α) s = .ok a s := rfl

@[simp] theorem get_run (s : σ) : (get : EStateM ε σ σ) s = .ok s s := rfl

@[simp] theorem set_run (t s : σ) : (set t : EStateM ε σ PUnit) s = .ok ⟨⟩ t := rfl

@[simp] theorem modify_run (f : σ → σ) (s : σ) :
    (modify f : EStateM ε σ PUnit) s = .ok ⟨⟩ (f s) := rfl

@[simp] theorem throw_run (e : ε) (s : σ) : (throw e : EStateM ε σ α) s = .error e s := rfl

/-- After a first part that ends normally, the rest runs on its value and state. -/
theorem bind_ok {x : EStateM ε σ α} {s s' : σ} {a : α} (h : x s = .ok a s')
    (f : α → EStateM ε σ β) : (x >>= f) s = f a s' := by
  show EStateM.bind x f s = f a s'
  rw [EStateM.bind, h]

/-- After a first part that throws, nothing else runs. -/
theorem bind_error {x : EStateM ε σ α} {s s' : σ} {e : ε} (h : x s = .error e s')
    (f : α → EStateM ε σ β) : (x >>= f) s = .error e s' := by
  show EStateM.bind x f s = .error e s'
  rw [EStateM.bind, h]

@[simp] theorem get_bind (f : σ → EStateM ε σ β) (s : σ) :
    ((get : EStateM ε σ σ) >>= f) s = f s s := rfl

@[simp] theorem set_bind (t : σ) (f : PUnit → EStateM ε σ β) (s : σ) :
    ((set t : EStateM ε σ PUnit) >>= f) s = f ⟨⟩ t := rfl

@[simp] theorem modify_bind (g : σ → σ) (f : PUnit → EStateM ε σ β) (s : σ) :
    ((modify g : EStateM ε σ PUnit) >>= f) s = f ⟨⟩ (g s) := rfl

@[simp] theorem throw_bind (e : ε) (f : α → EStateM ε σ β) (s : σ) :
    ((throw e : EStateM ε σ α) >>= f) s = .error e s := rfl

/-- A sequence ends normally exactly when its parts do, one after the other. -/
theorem bind_eq_ok {x : EStateM ε σ α} {f : α → EStateM ε σ β} {s t : σ} {b : β} :
    (x >>= f) s = .ok b t ↔ ∃ a s', x s = .ok a s' ∧ f a s' = .ok b t := by
  cases hx : x s with
  | ok a s' =>
      rw [bind_ok hx]
      constructor
      · intro h
        exact ⟨a, s', rfl, h⟩
      · rintro ⟨a', s'', h, h'⟩
        cases h
        exact h'
  | error e s' =>
      rw [bind_error hx]
      constructor
      · intro h
        cases h
      · rintro ⟨a, s'', h, _⟩
        cases h

theorem map_ok {x : EStateM ε σ α} {s s' : σ} {a : α} (h : x s = .ok a s') (f : α → β) :
    (f <$> x) s = .ok (f a) s' := by
  show EStateM.map f x s = .ok (f a) s'
  rw [EStateM.map, h]

/-! ### What a program preserves -/

/-- Whatever the program ends with, the state it ends in has the property if the first one has. -/
def Preserves (P : σ → Prop) (x : EStateM ε σ α) : Prop := ∀ s, P s → P (State (x s))

section Preserves

variable {P : σ → Prop}

protected theorem Preserves.pure (a : α) : Preserves P (pure a : EStateM ε σ α) :=
  fun _ hs => hs

protected theorem Preserves.throw (e : ε) : Preserves P (throw e : EStateM ε σ α) :=
  fun _ hs => hs

protected theorem Preserves.set {t : σ} (ht : P t) :
    Preserves P (set t : EStateM ε σ PUnit) :=
  fun _ _ => ht

protected theorem Preserves.modify {f : σ → σ} (h : ∀ s, P s → P (f s)) :
    Preserves P (modify f : EStateM ε σ PUnit) :=
  fun s hs => h s hs

/-- What the first part has led to is kept by the rest. -/
theorem Preserves.after {x : EStateM ε σ α} {f : α → EStateM ε σ β} {s : σ}
    (hf : ∀ a, Preserves P (f a)) (hs : P (State (x s))) : P (State ((x >>= f) s)) := by
  cases hrun : x s with
  | ok a s' =>
      rw [bind_ok hrun]
      rw [hrun] at hs
      exact hf a s' hs
  | error e s' =>
      rw [bind_error hrun]
      rwa [hrun] at hs

protected theorem Preserves.bind {x : EStateM ε σ α} {f : α → EStateM ε σ β}
    (hx : Preserves P x) (hf : ∀ a, Preserves P (f a)) : Preserves P (x >>= f) :=
  fun s hs => Preserves.after hf (hx s hs)

/-- What follows a look at the state may rely on the property of the state it has seen. -/
protected theorem Preserves.get_bind {f : σ → EStateM ε σ β}
    (hf : ∀ s, P s → Preserves P (f s)) : Preserves P ((get : EStateM ε σ σ) >>= f) := by
  intro s hs
  rw [bind_ok (get_run s)]
  exact hf s hs s hs

end Preserves

/-! ### What a program yields -/

/-- Whatever state the program starts in, a value it ends with has the property. -/
def Yields (Q : α → Prop) (x : EStateM ε σ α) : Prop := ∀ s a s', x s = .ok a s' → Q a

section Yields

variable {Q : α → Prop}

protected theorem Yields.pure {a : α} (h : Q a) : Yields Q (pure a : EStateM ε σ α) := by
  intro s b s' hrun
  cases hrun
  exact h

protected theorem Yields.throw (e : ε) : Yields Q (throw e : EStateM ε σ α) := by
  intro s a s' hrun
  cases hrun

/-- What the first part yields can be used for the second. -/
protected theorem Yields.bind {R : β → Prop} {x : EStateM ε σ α} {f : α → EStateM ε σ β}
    (hx : Yields Q x) (hf : ∀ a, Q a → Yields R (f a)) : Yields R (x >>= f) := by
  intro s b t hrun
  obtain ⟨a, s', hfirst, hrest⟩ := bind_eq_ok.1 hrun
  exact hf a (hx s a s' hfirst) s' b t hrest

/-- Nothing is known about what the first part yields. -/
protected theorem Yields.of_rest {R : β → Prop} {x : EStateM ε σ α} {f : α → EStateM ε σ β}
    (hf : ∀ a, Yields R (f a)) : Yields R (x >>= f) := by
  intro s b t hrun
  obtain ⟨a, s', _, hrest⟩ := bind_eq_ok.1 hrun
  exact hf a s' b t hrest

/-- What a first part yields can be used for what the second preserves. -/
protected theorem Yields.preserves_bind {P : σ → Prop} {x : EStateM ε σ α}
    {f : α → EStateM ε σ β} (hx : Yields Q x) (hp : Preserves P x)
    (hf : ∀ a, Q a → Preserves P (f a)) : Preserves P (x >>= f) := by
  intro s hs
  have hstep := hp s hs
  cases hrun : x s with
  | ok a s' =>
      rw [bind_ok hrun]
      rw [hrun] at hstep
      exact hf a (hx s a s' hrun) s' hstep
  | error e s' =>
      rw [bind_error hrun]
      rwa [hrun] at hstep

protected theorem Yields.throw_bind (e : ε) (f : β → EStateM ε σ α) :
    Yields Q ((throw e : EStateM ε σ β) >>= f) := by
  intro s a s' hrun
  cases hrun

end Yields

/-! ### What a program throws -/

/-- Whatever state the program starts in, what it throws has the property. -/
def Throws (Q : ε → Prop) (x : EStateM ε σ α) : Prop := ∀ s e s', x s = .error e s' → Q e

section Throws

variable {Q : ε → Prop}

protected theorem Throws.pure (a : α) : Throws Q (pure a : EStateM ε σ α) := by
  intro s e s' hrun
  cases hrun

protected theorem Throws.modify (f : σ → σ) : Throws Q (modify f : EStateM ε σ PUnit) := by
  intro s e s' hrun
  cases hrun

protected theorem Throws.set (t : σ) : Throws Q (set t : EStateM ε σ PUnit) := by
  intro s e s' hrun
  cases hrun

protected theorem Throws.throw {e : ε} (h : Q e) : Throws Q (throw e : EStateM ε σ α) := by
  intro s e' s' hrun
  cases hrun
  exact h

/-- A sequence throws what one of its parts throws. -/
protected theorem Throws.bind {x : EStateM ε σ α} {f : α → EStateM ε σ β} (hx : Throws Q x)
    (hf : ∀ a, Throws Q (f a)) : Throws Q (x >>= f) := by
  intro s e t hrun
  cases hfirst : x s with
  | ok a s' =>
      rw [bind_ok hfirst] at hrun
      exact hf a s' e t hrun
  | error e' s' =>
      rw [bind_error hfirst] at hrun
      cases hrun
      exact hx s _ _ hfirst

protected theorem Throws.get_bind {f : σ → EStateM ε σ α} (hf : ∀ s, Throws Q (f s)) :
    Throws Q ((get : EStateM ε σ σ) >>= f) := by
  intro s e t hrun
  exact hf s s e t hrun

protected theorem Throws.throw_bind {e : ε} (h : Q e) (f : β → EStateM ε σ α) :
    Throws Q ((throw e : EStateM ε σ β) >>= f) := by
  intro s e' t hrun
  cases hrun
  exact h

end Throws

/-! ### What a program leads to -/

/-- From a state with the first property, the program can end normally only with a value and a state
that have the second one. -/
def Triple (P : σ → Prop) (x : EStateM ε σ α) (Q : α → σ → Prop) : Prop :=
  ∀ s a s', P s → x s = .ok a s' → Q a s'

section Triple

variable {P : σ → Prop} {Q : α → σ → Prop}

theorem Triple.mono {P' : σ → Prop} {Q' : α → σ → Prop} {x : EStateM ε σ α} (h : Triple P x Q)
    (hP : ∀ s, P' s → P s) (hQ : ∀ a s, Q a s → Q' a s) : Triple P' x Q' := by
  intro s a s' hs hrun
  exact hQ a s' (h s a s' (hP s hs) hrun)

protected theorem Triple.pure {a : α} (h : ∀ s, P s → Q a s) :
    Triple P (pure a : EStateM ε σ α) Q := by
  intro s b s' hs hrun
  cases hrun
  exact h s hs

protected theorem Triple.throw (e : ε) : Triple P (throw e : EStateM ε σ α) Q := by
  intro s a s' hs hrun
  cases hrun

protected theorem Triple.modify {f : σ → σ} {Q : PUnit → σ → Prop} (h : ∀ s, P s → Q ⟨⟩ (f s)) :
    Triple P (modify f : EStateM ε σ PUnit) Q := by
  intro s a s' hs hrun
  cases hrun
  exact h s hs

/-- The second part starts where the first one has led to. -/
protected theorem Triple.bind {R : β → σ → Prop} {x : EStateM ε σ α} {f : α → EStateM ε σ β}
    (hx : Triple P x Q) (hf : ∀ a, Triple (Q a) (f a) R) : Triple P (x >>= f) R := by
  intro s b t hs hrun
  obtain ⟨a, s', hfirst, hrest⟩ := bind_eq_ok.1 hrun
  exact hf a s' b t (hx s a s' hs hfirst) hrest

/-- What follows a look at the state may rely on the property of the state it has seen. -/
protected theorem Triple.get_bind {f : σ → EStateM ε σ α} (hf : ∀ s, P s → Triple P (f s) Q) :
    Triple P ((get : EStateM ε σ σ) >>= f) Q := by
  intro s a t hs hrun
  exact hf s hs s a t hs hrun

/-- A fact that does not depend on the state is known from the beginning. -/
theorem Triple.of_fact {p : Prop} {x : EStateM ε σ α} (h : p → Triple P x Q) :
    Triple (fun s => P s ∧ p) x Q := by
  intro s a s' hs hrun
  exact h hs.2 s a s' hs.1 hrun

protected theorem Triple.throw_bind (e : ε) (f : β → EStateM ε σ α) :
    Triple P ((throw e : EStateM ε σ β) >>= f) Q := by
  intro s a s' hs hrun
  cases hrun

end Triple

/-- Repeat the body `n` times. -/
def times (body : EStateM ε σ Unit) : ℕ → EStateM ε σ Unit
  | 0 => pure ()
  | n + 1 => do
      body
      times body n

/-- A body that leads back to where it started can be repeated. -/
protected theorem Triple.times {P : σ → Prop} {body : EStateM ε σ Unit}
    (hbody : Triple P body fun _ => P) (n : ℕ) : Triple P (times body n) fun _ => P := by
  induction n with
  | zero => exact Triple.pure fun _ hs => hs
  | succ n ih => exact hbody.bind fun _ => ih

protected theorem Throws.times {Q : ε → Prop} {body : EStateM ε σ Unit} (hbody : Throws Q body)
    (n : ℕ) : Throws Q (times body n) := by
  induction n with
  | zero => exact Throws.pure ()
  | succ n ih => exact hbody.bind fun _ => ih

protected theorem Preserves.throw_bind {P : σ → Prop} (e : ε) (f : β → EStateM ε σ α) :
    Preserves P ((throw e : EStateM ε σ β) >>= f) := fun _ hs => hs

/-- A first part that is left out under some condition. -/
protected theorem Preserves.guarded_bind {P : σ → Prop} {c : Prop} [Decidable c]
    {x : EStateM ε σ Unit} {f : Unit → EStateM ε σ α} (hx : Preserves P x)
    (hf : ∀ u, Preserves P (f u)) : Preserves P (if c then x >>= f else f ()) := by
  split
  · exact hx.bind hf
  · exact hf ()

protected theorem Preserves.times {P : σ → Prop} {body : EStateM ε σ Unit} (hbody : Preserves P body)
    (n : ℕ) : Preserves P (times body n) := by
  induction n with
  | zero => exact Preserves.pure ()
  | succ n ih => exact hbody.bind fun _ => ih

/-! ### Rounds of a loop -/

/-- Repeat the body `n` times, where each round hands something on to the next one. -/
def repeated (body : α → EStateM ε σ α) : ℕ → α → EStateM ε σ α
  | 0, a => pure a
  | n + 1, a => do repeated body n (← body a)

theorem times_eq_repeated (body : EStateM ε σ Unit) (n : ℕ) :
    times body n = repeated (fun _ => body) n () := by
  induction n with
  | zero => rfl
  | succ n ih => rw [times, repeated, ih]

/-- The states in which the rounds of a loop begin.  A round that throws is the last one. -/
def rounds (body : α → EStateM ε σ α) : ℕ → α → σ → List σ
  | 0, _, _ => []
  | n + 1, a, s =>
      s :: match body a s with
        | .ok a' s' => rounds body n a' s'
        | .error _ _ => []

section Rounds

variable {body : α → EStateM ε σ α} {a a' : α} {s s' : σ} {e : ε}

theorem rounds_ok (h : body a s = .ok a' s') (n : ℕ) :
    rounds body (n + 1) a s = s :: rounds body n a' s' := by rw [rounds, h]

theorem rounds_error (h : body a s = .error e s') (n : ℕ) : rounds body (n + 1) a s = [s] := by
  rw [rounds, h]

/-- More rounds than there are need not be asked for. -/
theorem repeated_rounds (n : ℕ) (a : α) (s : σ) :
    repeated body n a s = repeated body (rounds body n a s).length a s := by
  induction n generalizing a s with
  | zero => rfl
  | succ n ih =>
      cases h : body a s with
      | ok a' s' =>
          rw [rounds_ok h, List.length_cons, repeated, repeated, bind_ok h, bind_ok h]
          exact ih a' s'
      | error e s' =>
          rw [rounds_error h, List.length_singleton, repeated, repeated, bind_error h, bind_error h]

end Rounds

/-- Between a bound and the states with some property, a round that does not throw gets on by `k`. -/
def Climbs (P : σ → Prop) (height : σ → ℕ) (k bound : ℕ) (body : α → EStateM ε σ α) : Prop :=
  ∀ a s a' s', P s → body a s = .ok a' s' →
    P s' ∧ height s + k ≤ height s' ∧ height s + k ≤ bound

section Climbs

variable {P : σ → Prop} {height : σ → ℕ} {k bound : ℕ} {body : α → EStateM ε σ α}

/-- **A loop that makes progress has few rounds**, however many it is asked for. -/
theorem Climbs.length_rounds_le (h : Climbs P height k bound body) (hk : 0 < k) (n : ℕ) (a : α)
    {s : σ} (hs : P s) : (rounds body n a s).length ≤ (bound - height s) / k + 1 := by
  induction n generalizing a s with
  | zero => exact Nat.zero_le _
  | succ n ih =>
      cases hrun : body a s with
      | ok a' s' =>
          obtain ⟨hs', hup, hbound⟩ := h a s a' s' hs hrun
          have hrest := ih a' hs'
          -- the round has used up `k` of what was left
          have hstep : (bound - height s) / k = (bound - height s - k) / k + 1 :=
            Nat.div_eq_sub_div hk (by omega)
          have hless : (bound - height s') / k ≤ (bound - height s - k) / k :=
            Nat.div_le_div_right (by omega)
          rw [rounds_ok hrun, List.length_cons]
          omega
      | error e s' =>
          rw [rounds_error hrun, List.length_singleton]
          exact Nat.le_add_left 1 _

/-- Each round begins above the one before it. -/
theorem Climbs.isChain_rounds (h : Climbs P height k bound body) (hk : 0 < k) (n : ℕ) (a : α)
    {s : σ} (hs : P s) : (rounds body n a s).IsChain fun s s' => height s < height s' := by
  induction n generalizing a s with
  | zero => exact .nil
  | succ n ih =>
      cases hrun : body a s with
      | ok a' s' =>
          obtain ⟨hs', hup, -⟩ := h a s a' s' hs hrun
          have hrest := ih a' hs'
          rw [rounds_ok hrun]
          cases n with
          | zero => exact .singleton s
          | succ n =>
              rw [rounds] at hrest ⊢
              exact .cons_cons (by omega) hrest
      | error e s' =>
          rw [rounds_error hrun]
          exact .singleton s

end Climbs

/-! ### Loops that are not known to end -/

/-- The run of a loop.  The body is given what the last round has left, and leaves something for the
next round on the left, or the outcome of the loop on the right. -/
inductive Loop (body : α → EStateM ε σ (α ⊕ β)) : α → σ → EStateM.Result ε σ β → Prop
  | done {a : α} {s s' : σ} {b : β} (h : body a s = .ok (.inr b) s') : Loop body a s (.ok b s')
  | fault {a : α} {s s' : σ} {e : ε} (h : body a s = .error e s') : Loop body a s (.error e s')
  | next {a a' : α} {s s' : σ} {r : EStateM.Result ε σ β} (h : body a s = .ok (.inl a') s')
      (hrest : Loop body a' s' r) : Loop body a s r

/-- A loop has one run at most. -/
theorem Loop.unique {body : α → EStateM ε σ (α ⊕ β)} {a : α} {s : σ} {r r' : EStateM.Result ε σ β}
    (h : Loop body a s r) (h' : Loop body a s r') : r = r' := by
  induction h with
  | done h =>
      cases h' with
      | done h' =>
          rw [h] at h'
          cases h'
          rfl
      | fault h' => rw [h] at h'; cases h'
      | next h' => rw [h] at h'; cases h'
  | fault h =>
      cases h' with
      | done h' => rw [h] at h'; cases h'
      | fault h' =>
          rw [h] at h'
          cases h'
          rfl
      | next h' => rw [h] at h'; cases h'
  | next h _ ih =>
      cases h' with
      | done h' => rw [h] at h'; cases h'
      | fault h' => rw [h] at h'; cases h'
      | next h' hrest' =>
          rw [h] at h'
          cases h'
          exact ih hrest'

/-- The loop has a run, and it is this one. -/
def RunsTo (body : α → EStateM ε σ (α ⊕ β)) (a : α) (s : σ) (r : EStateM.Result ε σ β) : Prop :=
  ∀ r', Loop body a s r' ↔ r' = r

theorem Loop.runsTo {body : α → EStateM ε σ (α ⊕ β)} {a : α} {s : σ} {r : EStateM.Result ε σ β}
    (h : Loop body a s r) : RunsTo body a s r :=
  fun _ => ⟨fun h' => h'.unique h, fun heq => heq ▸ h⟩

end Exec
