/-
Logs of messages that answer the messages of another log.

Each of two parties keeps a log of what it has posted.  A message is a question, or it answers the
question at some index of the other log; an answer can be ready for a while before it is posted.

Main definitions:

* `Posts.Post`, `Posts.Outbox` — a message, and what a party has posted and is about to post;
* `Posts.Outbox.questions`, `Posts.Outbox.answers` — what it has asked, and what it has answered;
* `Posts.Outbox.ask`, `Posts.Outbox.answer`, `Posts.Outbox.prepare`, `Posts.Outbox.release` — posting.

Main results:

* `Posts.Outbox.answers_release_perm` — posting an answer that is ready keeps the answers there are;
* `Posts.Outbox.question_index`, `Posts.Outbox.answer_index` — a message is found at one index.
-/

import Mathlib.Data.List.Basic
import Mathlib.Data.List.Nodup
import Mathlib.Data.Nat.Notation

set_option relaxedAutoImplicit false
set_option autoImplicit false

namespace Posts

variable {M : Type}

/-- A message, and the index of the question it answers. -/
structure Post (M : Type) where
  message : M
  answers : Option ℕ
  deriving DecidableEq

/-- What has been posted, and the answers that are ready. -/
structure Outbox (M : Type) where
  posted : List (Post M) := []
  pending : List (ℕ × M) := []
  deriving DecidableEq

namespace Post

/-- The question, if it is one. -/
def question? (p : Post M) : Option M := if p.answers.isNone then some p.message else none

/-- The answer, if it is one. -/
def answer? (p : Post M) : Option (ℕ × M) := p.answers.map fun k => (k, p.message)

@[simp] theorem question?_none (m : M) : question? ⟨m, none⟩ = some m := rfl

@[simp] theorem question?_some (m : M) (k : ℕ) : question? ⟨m, some k⟩ = none := rfl

@[simp] theorem answer?_none (m : M) : answer? (⟨m, none⟩ : Post M) = none := rfl

@[simp] theorem answer?_some (m : M) (k : ℕ) : answer? ⟨m, some k⟩ = some (k, m) := rfl

theorem eq_of_question? {p : Post M} {m : M} (h : p.question? = some m) : p = ⟨m, none⟩ := by
  obtain ⟨m', _ | k⟩ := p
  · cases h
    rfl
  · cases h

theorem eq_of_answer? {p : Post M} {k : ℕ} {m : M} (h : p.answer? = some (k, m)) :
    p = ⟨m, some k⟩ := by
  obtain ⟨m', _ | k'⟩ := p
  · cases h
  · cases h
    rfl

end Post

namespace Outbox

/-! ### Posting -/

/-- A question. -/
def ask (m : M) (o : Outbox M) : Outbox M := { o with posted := o.posted ++ [⟨m, none⟩] }

/-- An answer. -/
def answer (k : ℕ) (m : M) (o : Outbox M) : Outbox M :=
  { o with posted := o.posted ++ [⟨m, some k⟩] }

/-- An answer that is posted later. -/
def prepare (k : ℕ) (m : M) (o : Outbox M) : Outbox M := { o with pending := o.pending ++ [(k, m)] }

/-- One of the answers that are ready is posted. -/
def release (i : ℕ) (o : Outbox M) : Outbox M :=
  match o.pending[i]? with
  | none => o
  | some a => { posted := o.posted ++ [⟨a.2, some a.1⟩], pending := o.pending.eraseIdx i }

/-! ### What has been posted -/

def questions (o : Outbox M) : List M := o.posted.filterMap Post.question?

/-- The answers that have been posted or are ready. -/
def answers (o : Outbox M) : List (ℕ × M) := o.posted.filterMap Post.answer? ++ o.pending

section Simp

variable (o : Outbox M) (m : M) (k i : ℕ)

@[simp] theorem posted_ask : (o.ask m).posted = o.posted ++ [⟨m, none⟩] := rfl

@[simp] theorem posted_answer : (o.answer k m).posted = o.posted ++ [⟨m, some k⟩] := rfl

@[simp] theorem posted_prepare : (o.prepare k m).posted = o.posted := rfl

@[simp] theorem questions_ask : (o.ask m).questions = o.questions ++ [m] := by
  simp [questions]

@[simp] theorem questions_answer : (o.answer k m).questions = o.questions := by
  simp [questions]

@[simp] theorem questions_prepare : (o.prepare k m).questions = o.questions := rfl

@[simp] theorem answers_ask : (o.ask m).answers = o.answers := by
  simp [answers, ask]

end Simp

theorem answers_answer_perm (o : Outbox M) (k : ℕ) (m : M) :
    (o.answer k m).answers.Perm ((k, m) :: o.answers) := by
  simp only [answers, answer, List.filterMap_append, List.filterMap_cons, Post.answer?_some,
    List.filterMap_nil, List.append_assoc, List.singleton_append]
  exact List.perm_middle

theorem answers_prepare_perm (o : Outbox M) (k : ℕ) (m : M) :
    (o.prepare k m).answers.Perm ((k, m) :: o.answers) := by
  simp only [answers, prepare, ← List.append_assoc]
  exact List.perm_append_singleton _ _

section Release

variable (o : Outbox M) (i : ℕ)

/-- What has been posted stays where it is. -/
theorem posted_release : o.posted <+: (o.release i).posted := by
  rw [release]
  split
  · exact List.prefix_rfl
  · exact List.prefix_append _ _

/-- An answer that is ready is posted. -/
theorem release_of_lt (hi : i < o.pending.length) :
    ∃ m k, (o.release i).posted = o.posted ++ [⟨m, some k⟩] ∧
      (o.release i).pending.length + 1 = o.pending.length := by
  rw [release, List.getElem?_eq_getElem hi]
  refine ⟨_, _, rfl, ?_⟩
  rw [List.length_eraseIdx_of_lt hi]
  omega

@[simp] theorem questions_release : (o.release i).questions = o.questions := by
  rw [release]
  split
  · rfl
  · simp [questions]

/-- **Posting an answer that is ready keeps the answers there are.** -/
theorem answers_release_perm : (o.release i).answers.Perm o.answers := by
  rw [release]
  split
  · exact .refl _
  · rename_i a ha
    obtain ⟨hi, rfl⟩ := List.getElem?_eq_some_iff.1 ha
    have hsplit : o.pending = o.pending.take i ++ o.pending[i] :: o.pending.drop (i + 1) := by
      rw [← List.drop_eq_getElem_cons hi, List.take_append_drop]
    have hperm : (o.pending[i] :: o.pending.eraseIdx i).Perm o.pending := by
      conv_rhs => rw [hsplit]
      rw [List.eraseIdx_eq_take_drop_succ]
      exact List.perm_middle.symm
    simp only [answers, List.filterMap_append, List.filterMap_cons, Post.answer?_some,
      List.filterMap_nil, List.append_assoc, List.singleton_append]
    exact hperm.append_left _

end Release

/-! ### Indices -/

/-- What has been posted stays at its index. -/
theorem getElem?_stays {α : Type} {l l' : List α} (h : l <+: l') {i : ℕ} (hi : i < l.length) :
    l'[i]? = l[i]? := by
  obtain ⟨t, rfl⟩ := h
  exact List.getElem?_append_left hi

theorem getElem?_mono {α : Type} {l l' : List α} (h : l <+: l') {i : ℕ} {a : α}
    (hi : l[i]? = some a) : l'[i]? = some a := by
  rw [getElem?_stays h (List.getElem?_eq_some_iff.1 hi).1, hi]

/-- Of two places that yield the same there is only one, if nothing is yielded twice. -/
theorem index_unique {α β : Type} {f : α → Option β} {l : List α} (h : (l.filterMap f).Nodup)
    {i j : ℕ} {a b : α} {c : β} (hi : l[i]? = some a) (hj : l[j]? = some b) (ha : f a = some c)
    (hb : f b = some c) : i = j := by
  have hpair := List.pairwise_iff_getElem.1 (List.pairwise_filterMap.1 h)
  obtain ⟨hi', rfl⟩ := List.getElem?_eq_some_iff.1 hi
  obtain ⟨hj', rfl⟩ := List.getElem?_eq_some_iff.1 hj
  rcases Nat.lt_trichotomy i j with hlt | heq | hgt
  · exact absurd rfl (hpair i j hi' hj' hlt c ha c hb)
  · exact heq
  · exact absurd rfl (hpair j i hj' hi' hgt c hb c ha)

variable {o : Outbox M} {m : M} {i j k : ℕ}

/-- **A question is found at one index.** -/
theorem question_index (h : o.questions.Nodup) (hi : o.posted[i]? = some ⟨m, none⟩)
    (hj : o.posted[j]? = some ⟨m, none⟩) : i = j :=
  index_unique h hi hj rfl rfl

theorem mem_questions (h : o.posted[i]? = some ⟨m, none⟩) : m ∈ o.questions := by
  rw [questions, List.mem_filterMap]
  exact ⟨_, List.mem_of_getElem? h, rfl⟩

theorem exists_of_mem_questions (h : m ∈ o.questions) : ∃ i : ℕ, o.posted[i]? = some ⟨m, none⟩ := by
  obtain ⟨p, hp, hm⟩ := List.mem_filterMap.1 h
  obtain rfl := Post.eq_of_question? hm
  exact List.mem_iff_getElem?.1 hp

theorem mem_answers (h : o.posted[i]? = some ⟨m, some k⟩) : (k, m) ∈ o.answers :=
  List.mem_append_left _ (List.mem_filterMap.2 ⟨_, List.mem_of_getElem? h, rfl⟩)

/-- An answer has been posted or is ready. -/
theorem posted_or_pending (h : (k, m) ∈ o.answers) :
    (∃ i : ℕ, o.posted[i]? = some ⟨m, some k⟩) ∨ (k, m) ∈ o.pending := by
  rcases List.mem_append.1 h with h | h
  · obtain ⟨p, hp, hm⟩ := List.mem_filterMap.1 h
    obtain rfl := Post.eq_of_answer? hm
    exact .inl (List.mem_iff_getElem?.1 hp)
  · exact .inr h

/-- **The answer to a question is found at one index.** -/
theorem answer_index {m' : M} (h : (o.answers.map Prod.fst).Nodup)
    (hi : o.posted[i]? = some ⟨m, some k⟩) (hj : o.posted[j]? = some ⟨m', some k⟩) : i = j := by
  have hposted : (o.posted.filterMap Post.answers).Nodup := by
    have hsub := h.sublist ((List.sublist_append_left (o.posted.filterMap Post.answer?)
      o.pending).map Prod.fst)
    rw [List.map_filterMap] at hsub
    have hsame : (fun p : Post M => p.answer?.map Prod.fst) = Post.answers := by
      funext p
      obtain ⟨m, _ | k⟩ := p <;> rfl
    rwa [hsame] at hsub
  exact index_unique hposted hi hj rfl rfl

end Outbox

end Posts
