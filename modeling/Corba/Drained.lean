/-
What is under way comes to an end.

As long as nobody makes a new call, every message that arrives and every answer that is sent brings
the conversation closer to its end: a request that is handled becomes at most one answer, and an
answer that is handled becomes nothing.  In the end, a caller waits only when the far end has handled
its request and has sent nothing.

Main definitions:

* `Corba.Conversation.Quiet` — a step that only moves on what is under way;
* `Corba.Conversation.weight` — how much is under way.

Main results:

* `Corba.Conversation.Inv.weight_step` — a quiet step makes it less;
* `Corba.conversation_drains` — quiet steps come to an end, and who still waits then.
-/

import Corba.Conversation

set_option relaxedAutoImplicit false
set_option autoImplicit false

namespace Corba

open Layout ByteOrder Placed Exec Interlock Posts

/-! ### What is under way -/

/-- A question can become an answer that is ready, which can become one that is posted. -/
def owes (p : Post Octets) : ℕ := if p.answers.isNone then 3 else 1

/-- What an end still has to handle and to send. -/
def owed (e e' : End) : ℕ :=
  ((e'.outbox.posted.drop e.taken).map owes).sum + 2 * e.outbox.pending.length

/-- The next message is handled. -/
theorem owed_take {e e₁ e' : End} {p : Post Octets} (hp : e'.outbox.posted[e.taken]? = some p)
    (htaken : e₁.taken = e.taken + 1) :
    owed e e' + 2 * e₁.outbox.pending.length =
      owes p + owed e₁ e' + 2 * e.outbox.pending.length := by
  obtain ⟨hlt, rfl⟩ := List.getElem?_eq_some_iff.1 hp
  rw [owed, owed, htaken, List.drop_eq_getElem_cons hlt, List.map_cons, List.sum_cons]
  omega

/-- The far end has sent something. -/
theorem owed_post {e e' e₁' : End} {p : Post Octets} (hle : e.taken ≤ e'.outbox.posted.length)
    (hposted : e₁'.outbox.posted = e'.outbox.posted ++ [p]) :
    owed e e₁' = owed e e' + owes p := by
  rw [owed, owed, hposted, List.drop_append_of_le_length hle, List.map_append, List.sum_append]
  simp only [List.map_cons, List.map_nil, List.sum_cons, List.sum_nil]
  omega

theorem owed_congr {e e' e₁' : End} (hposted : e₁'.outbox.posted = e'.outbox.posted) :
    owed e e₁' = owed e e' := by
  rw [owed, owed, hposted]

/-! ### What a message that arrives leaves behind -/

namespace Ledger

variable {here there : Host} {e e' : End} {m : Octets}

/-- A request becomes at most one answer, which is sent or ready. -/
theorem outbox_question (h' : Ledger there here e' e)
    (hm : e'.outbox.posted[e.taken]? = some ⟨m, none⟩) (hsize : m.length < 2 ^ 32) (later : Bool)
    (reaction : List (Call Unit)) :
    (e.receive here m later reaction).outbox = e.outbox ∨
      (∃ a, (e.receive here m later reaction).outbox = e.outbox.answer e.taken a) ∨
      ∃ a, (e.receive here m later reaction).outbox = e.outbox.prepare e.taken a := by
  obtain ⟨r, -, -, hevents⟩ := h'.question_events hm hsize e.line.side.connection
  rcases hevents with hnil | ⟨a, hsend, -⟩
  · obtain ⟨connection, hreceive⟩ := e.receive_nil later reaction hnil
    rw [hreceive]
    exact .inl rfl
  · obtain ⟨connection, hreceive⟩ := e.receive_send later reaction hsend
    rw [hreceive]
    cases later with
    | false => exact .inr (.inl ⟨a, rfl⟩)
    | true => exact .inr (.inr ⟨a, rfl⟩)

/-- An answer becomes nothing, unless the caller that is resumed goes on with further calls. -/
theorem outbox_answer (h : Ledger here there e e') {k : ℕ}
    (hm : e'.outbox.posted[e.taken]? = some ⟨m, some k⟩) (hsize : m.length < 2 ^ 32)
    (later : Bool) : (e.receive here m later []).outbox = e.outbox := by
  let : Platform := here.platform
  obtain ⟨r, -, hreplies⟩ := h.answer_replies hm hsize e.line.side.connection
  obtain ⟨remote, hstep⟩ := Line.step_of_replies wire here.servants (.handling e.taken later)
    [] hreplies
  have hside : ∀ l : Line (Outbox Octets), (l.resume wire r.requestId []).side = l.side := by
    intro l
    rw [Line.resume]
    split
    · rfl
    · rw [Line.issueAll_nil]
  have hline : (e.receive here m later []).outbox = _ :=
    congrArg (fun l : Line (Outbox Octets) => l.side.transport) hstep
  rw [hline, hside]

end Ledger

/-! ### Quiet steps -/

namespace Conversation

variable {hosts : Bool → Host} {c : Conversation}

/-- A message arrives, and whoever is resumed makes no further calls; or an answer that is ready is
sent. -/
def Quiet (c : Conversation) : ConversationStep → Prop
  | .call _ _ => False
  | .receive s _ reaction => reaction = [] ∧ (c s).taken < (c !s).outbox.posted.length
  | .release s i => i < (c s).outbox.pending.length

/-- What is under way in both directions. -/
def weight (c : Conversation) : ℕ := owed (c false) (c true) + owed (c true) (c false)

theorem weight_eq (c : Conversation) (s : Bool) :
    c.weight = owed (c s) (c !s) + owed (c !s) (c s) := by
  cases s with
  | false => rfl
  | true => exact Nat.add_comm _ _

theorem weight_set (c : Conversation) (s : Bool) (e : End) :
    (c.set s e).weight = owed e (c !s) + owed (c !s) e := by
  rw [weight_eq _ s, set_self, set_not]

/-- **A quiet step leaves less under way.** -/
theorem Inv.weight_step (h : Inv hosts c) (hfits : c.Fits) {a : ConversationStep}
    (hquiet : c.Quiet a) : (c.step hosts a).weight < c.weight := by
  cases a with
  | call s call => exact hquiet.elim
  | receive s later reaction =>
      obtain ⟨rfl, hlt⟩ := hquiet
      obtain ⟨p, hp⟩ : ∃ p, (c !s).outbox.posted[(c s).taken]? = some p :=
        ⟨_, List.getElem?_eq_getElem hlt⟩
      have hsize := (hfits !s).2 p (List.mem_of_getElem? hp)
      have hfar : Ledger (hosts !s) (hosts s) (c !s) (c s) := by
        have hnot := h !s
        rwa [Bool.not_not] at hnot
      rw [Conversation.step, hp]
      dsimp only
      rw [weight_set, weight_eq c s]
      have htake := owed_take hp
        (rfl : ((c s).receive (hosts s) p.message later []).taken = (c s).taken + 1)
      obtain ⟨m, _ | k⟩ := p
      · have hthree : owes ⟨m, none⟩ = 3 := rfl
        rcases hfar.outbox_question hp hsize later [] with hsame | ⟨a, hanswer⟩ | ⟨a, hready⟩
        · rw [owed_congr (congrArg Outbox.posted hsame)]
          rw [hsame] at htake
          omega
        · rw [owed_post (p := ⟨a, some (c s).taken⟩) hfar.arrived_le
            (by rw [hanswer, Outbox.posted_answer])]
          have hpending : ((c s).outbox.answer (c s).taken a).pending = (c s).outbox.pending := rfl
          have hone : owes ⟨a, some (c s).taken⟩ = 1 := rfl
          rw [hanswer, hpending] at htake
          omega
        · have hposted : ((c s).receive (hosts s) m later []).outbox.posted =
              (c s).outbox.posted := by rw [hready, Outbox.posted_prepare]
          rw [owed_congr hposted]
          have hpending : ((c s).outbox.prepare (c s).taken a).pending.length =
              (c s).outbox.pending.length + 1 := by simp [Outbox.prepare]
          rw [hready, hpending] at htake
          omega
      · have hone : owes ⟨m, some k⟩ = 1 := rfl
        have hsame := (h s).outbox_answer hp hsize later
        rw [owed_congr (congrArg Outbox.posted hsame)]
        rw [hsame] at htake
        omega
  | release s i =>
      obtain ⟨m, k, hposted, hpending⟩ := (c s).outbox.release_of_lt i hquiet
      have hone : owes ⟨m, some k⟩ = 1 := rfl
      have hnear : owed ((c s).release i) (c !s) + 2 = owed (c s) (c !s) := by
        have hlength : ((c s).release i).outbox.pending.length + 1 =
            (c s).outbox.pending.length := hpending
        have htaken : ((c s).release i).taken = (c s).taken := rfl
        rw [owed, owed, htaken]
        omega
      have hle : (c !s).taken ≤ (c s).outbox.posted.length := (h s).taken_le
      rw [Conversation.step, weight_set, weight_eq c s, owed_post hle hposted]
      omega

/-- Nothing can be moved on when everything has arrived and has been sent. -/
theorem not_quiet (h : ∀ s, (c !s).outbox.posted.length ≤ (c s).taken ∧
    (c s).outbox.pending.length = 0) (a : ConversationStep) : ¬ c.Quiet a := by
  intro hquiet
  cases a with
  | call s k => exact hquiet
  | receive s later reaction => exact Nat.not_lt.2 (h s).1 hquiet.2
  | release s i =>
      rw [Quiet, (h s).2] at hquiet
      exact Nat.not_lt_zero i hquiet

/-- When nothing can be moved on, everything has arrived and has been sent. -/
theorem rest_of_quiet (h : ∀ a, ¬ c.Quiet a) (s : Bool) :
    (c !s).outbox.posted.length ≤ (c s).taken ∧ (c s).outbox.pending = [] := by
  constructor
  · exact Nat.not_lt.1 fun hlt => h (.receive s false []) ⟨rfl, hlt⟩
  · exact List.length_eq_zero_iff.1 (Nat.eq_zero_of_not_pos fun hpos => h (.release s 0) hpos)

/-- Who still waits then has not been answered. -/
theorem Matched.unanswered (h : c.Matched hosts) (hrest : ∀ a, ¬ c.Quiet a) {s : Bool}
    {x : UInt32 × ℕ} (hx : x ∈ (c s).line.waiting) :
    ∃ r k connection, (c s).Asks k r ∧ r.requestId = x.1 ∧ r.call = x.2 ∧
      ((hosts !s).socketRcvd connection r.message).events = [] := by
  obtain ⟨hnear, -⟩ := rest_of_quiet hrest s
  obtain ⟨hfar, hpending⟩ := rest_of_quiet hrest !s
  rw [Bool.not_not] at hfar
  obtain ⟨r, k, hr, hid, hcall, hplace⟩ := h.under_way s x hx
  rcases hplace with htaken | ⟨m, hm⟩ | ⟨j, m, hj, hm⟩ | ⟨connection, hnone⟩
  · have hlt := (List.getElem?_eq_some_iff.1 hr.2).1
    omega
  · rw [hpending] at hm
    cases hm
  · have hlt := (List.getElem?_eq_some_iff.1 hm).1
    omega
  · exact ⟨r, k, connection, hr, hid, hcall, hnone⟩

end Conversation

/-- **What is under way comes to an end**: after any run, as long as nobody makes a new call, there
are no more steps than there is under way.  When no step is left, a caller only waits if the far end
has handled its request and has sent nothing. -/
theorem conversation_drains (hosts : Bool → Host) (connections : Bool → Connection)
    (run quiet : List ConversationStep)
    (hfits : Runs.Always (Conversation.step hosts) Conversation.Fits
      (Conversation.start connections) (run ++ quiet))
    (hquiet : Runs.Meets (Conversation.step hosts) Conversation.Quiet
      (run.foldl (Conversation.step hosts) (Conversation.start connections)) quiet) :
    let c := run.foldl (Conversation.step hosts) (Conversation.start connections)
    let c' := quiet.foldl (Conversation.step hosts) c
    quiet.length + c'.weight ≤ c.weight ∧
      ((∀ a, ¬ c'.Quiet a) → ∀ s, ∀ x ∈ (c' s).line.waiting, ∃ r k connection,
        (c' s).Asks k r ∧ r.requestId = x.1 ∧ r.call = x.2 ∧
          ((hosts !s).socketRcvd connection r.message).events = []) := by
  intro c c'
  have hinv := conversation_inv hosts connections (run ++ quiet) hfits
  constructor
  · have hall : ∀ as, as <+: quiet → as.length +
        (as.foldl (Conversation.step hosts) c).weight ≤ c.weight := by
      intro as has
      induction as using List.reverseRecOn with
      | nil => simp
      | append_singleton as a ih =>
          have hbefore : as <+: quiet := (List.prefix_append _ _).trans has
          have hrun : run ++ as <+: run ++ quiet := (List.prefix_append_right_inj run).2 hbefore
          have hi := hinv _ hrun
          have hf := hfits _ hrun
          rw [List.foldl_append] at hi hf
          have hstep : (Conversation.step hosts (as.foldl (Conversation.step hosts) c) a).weight <
              (as.foldl (Conversation.step hosts) c).weight := hi.weight_step hf (hquiet as a has)
          have hless := ih hbefore
          rw [List.foldl_append, List.foldl_cons, List.foldl_nil, List.length_append,
            List.length_singleton]
          omega
    exact hall quiet List.prefix_rfl
  · intro hrest s x hx
    have hend : c' = (run ++ quiet).foldl (Conversation.step hosts)
        (Conversation.start connections) := by rw [List.foldl_append]
    have hmatched := hinv.last.matched hfits.last
    rw [← hend] at hmatched
    exact hmatched.unanswered hrest hx

/-- A servant that throws before it has been suspended. -/
def refuses : Servant where
  repositoryId := ascii "IDL:Refuses:1.0"
  dispatch _ _ := { phase := .call, writing := ⟨[], .throws (.runtimeError "refused")⟩ }

/-- One call whose servant is suspended and one that is refused: after four more steps, nothing is
under way, and only the second caller waits. -/
theorem conversation_drains_suspended :
    let hosts : Bool → Host := fun s =>
      ⟨if s then ⟨.big⟩ else ⟨.little⟩, fun key => some (if key = ascii "A" then five else refuses)⟩
    let get : Octets → ConversationStep := fun key =>
      .call false ⟨true, key, cString (ascii "get"), { calls := [] }, ()⟩
    let run := [get (ascii "A"), get (ascii "B")]
    let quiet := [ConversationStep.receive true true [], .receive true false [], .release true 0,
      .receive false false []]
    let c := run.foldl (Conversation.step hosts) (Conversation.start fun _ => ORB.addConnection)
    let c' := quiet.foldl (Conversation.step hosts) c
    quiet.length + c'.weight ≤ c.weight ∧ (c' false).line.completed = [(0, 0)] ∧
      (c' false).line.waiting = [(2, 1)] ∧ ∃ r k connection,
        (c' false).Asks k r ∧ r.requestId = 2 ∧ r.call = 1 ∧
          ((hosts true).socketRcvd connection r.message).events = [] := by
  intro hosts get run quiet
  have hdrains := conversation_drains hosts (fun _ => ORB.addConnection) run quiet
    (by
      simp only [run, quiet, List.cons_append, List.nil_append, Runs.always_cons, Runs.always_nil]
      refine ⟨?_, ?_, ?_, ?_, ?_, ?_, ?_⟩ <;> decide +kernel)
    (by
      simp only [quiet, Runs.meets_cons, Runs.meets_nil, and_true]
      refine ⟨⟨rfl, ?_⟩, ⟨rfl, ?_⟩, (?_ : _ < _), rfl, ?_⟩ <;> decide +kernel)
  refine ⟨hdrains.1, by decide +kernel, by decide +kernel,
    hdrains.2 (Conversation.not_quiet fun s => ⟨?_, ?_⟩) false (2, 1) (by decide +kernel)⟩
  · revert s
    decide +kernel
  · revert s
    decide +kernel

end Corba
