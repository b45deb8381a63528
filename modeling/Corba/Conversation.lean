/-
Two ORBs that call each other.

Both ends of a connection make calls, and both answer the calls of the other end, in any order: a
servant can be suspended and answer later, and a caller that is resumed can make further calls at
once.  The connection delivers what has been sent, in the order in which it has been sent.

Each end keeps a log of what it has sent, in which an answer says at which index of the other log
the request stands that was handled when it was made.

Main definitions:

* `Corba.End`, `Corba.Conversation` — an end with its log, and both of them;
* `Corba.ConversationStep`, `Corba.Conversation.step` — what happens;
* `Corba.Ledger` — what is known about the calls of one end;
* `Corba.Conversation.Matched` — calls and answers belong together.

Main results:

* `Corba.Ledger.call`, `Corba.Ledger.completes`, … — what the steps do to the calls of either end;
* `Corba.Conversation.Inv.step` — every step keeps the ledgers of both ends;
* `Corba.conversation_matched` — in every run, calls and answers belong together.
-/

import Corba.Hosts
import Corba.Posts

set_option relaxedAutoImplicit false
set_option autoImplicit false

namespace Corba

open Layout ByteOrder Placed Exec Interlock Posts

/-! ### Two ends -/

/-- What a message is sent for: by a call, or when a message of the far end, with this index, is
handled.  A servant that has been suspended answers later. -/
inductive Occasion where
  | call
  | handling (k : ℕ) (later : Bool)
  deriving DecidableEq

/-- A connection on which everything is sent. -/
def wire : Transport (Outbox Octets) Occasion where
  send occasion message o :=
    match occasion with
    | .call => (o.ask message, none)
    | .handling k false => (o.answer k message, none)
    | .handling k true => (o.prepare k message, none)

/-- One end of a connection, and how many messages of the far end it has handled. -/
structure End where
  line : Line (Outbox Octets)
  taken : ℕ := 0

namespace End

/-- What has been sent. -/
abbrev outbox (e : End) : Outbox Octets := e.line.side.transport

/-- The requests that have been sent. -/
abbrev requests (e : End) : List SentRequest := e.line.side.requests

/-- A request stands at this index of the log. -/
def Asks (e : End) (k : ℕ) (r : SentRequest) : Prop :=
  r ∈ e.requests ∧ e.outbox.posted[k]? = some ⟨r.message, none⟩

end End

/-- A call of this conversation. -/
def Call.posted (call : Call Unit) : Call Occasion where
  twoway := call.twoway
  objectKey := call.objectKey
  operation := call.operation
  arguments := call.arguments
  input := .call

namespace End

/-- A call is made at the host. -/
def call (h : Host) (call : Call Unit) (e : End) : End :=
  { e with line := @Line.issueAll _ _ h.platform wire [call.posted] e.line }

/-- A message of the far end is handled at the host. -/
def receive (h : Host) (message : Octets) (later : Bool) (reaction : List (Call Unit)) (e : End) :
    End where
  line := @Line.step _ _ h.platform wire h.servants e.line
    (.message message (.handling e.taken later) (reaction.map Call.posted))
  taken := e.taken + 1

/-- A servant that has been suspended answers. -/
def release (i : ℕ) (e : End) : End :=
  { e with line.side.transport := e.outbox.release i }

end End

/-- Both ends. -/
abbrev Conversation := Bool → End

inductive ConversationStep where
  | call (s : Bool) (call : Call Unit)
  | receive (s : Bool) (later : Bool) (reaction : List (Call Unit))
  | release (s : Bool) (i : ℕ)

namespace Conversation

/-- One of the ends changes. -/
def set (c : Conversation) (s : Bool) (e : End) : Conversation := fun t => if t = s then e else c t

@[simp] theorem set_self (c : Conversation) (s : Bool) (e : End) : c.set s e s = e := if_pos rfl

@[simp] theorem set_not (c : Conversation) (s : Bool) (e : End) : c.set s e (!s) = c (!s) :=
  if_neg (by cases s <;> decide)

/-- A call is made at one of the ends, the next message of the far end is handled there, or an
answer that is ready is sent. -/
def step (hosts : Bool → Host) (c : Conversation) : ConversationStep → Conversation
  | .call s call => c.set s ((c s).call (hosts s) call)
  | .receive s later reaction =>
      match (c !s).outbox.posted[(c s).taken]? with
      | none => c
      | some p => c.set s ((c s).receive (hosts s) p.message later reaction)
  | .release s i => c.set s ((c s).release i)

/-- Both ends of a connection before the first call. -/
def start (connections : Bool → Connection) : Conversation := fun s =>
  { line := { side := { connection := connections s, transport := {} } } }

/-- There are no more calls than there are ids, and the messages are not longer than their headers
can tell. -/
def Fits (c : Conversation) : Prop := ∀ s, (c s).line.side.calls ≤ 2 ^ 31 ∧
  ∀ p ∈ (c s).outbox.posted, p.message.length < 2 ^ 32

instance (c : Conversation) : Decidable c.Fits :=
  inferInstanceAs (Decidable (∀ s, (c s).line.side.calls ≤ 2 ^ 31 ∧
    ∀ p ∈ (c s).outbox.posted, p.message.length < 2 ^ 32))

end Conversation

/-! ### The ledger of one end -/

/-- The message answers the request: it has been sent by the far host when that handled it. -/
structure IsAnswer (far : Host) (r : SentRequest) (message : Octets) : Prop where
  sent : ∃ connection, (far.socketRcvd connection r.message).events = [.send message]
  isReply : ∃ status, @ORB.IsReply far.platform 1 2 r.requestId status message
  length : 24 ≤ message.length

/-- What is known about the calls of the end `e` at the host `near`, of which the other end is `e'`
at the host `far`. -/
structure Ledger (near far : Host) (e e' : End) : Prop where
  consistent : @Line.Consistent _ near.platform e.line
  order : (e.requests.map SentRequest.call).Nodup
  questions : e.outbox.questions = e.requests.map SentRequest.message
  encodes : ∀ r ∈ e.requests, ∃ connection objectKey operation,
    @ORB.Encodes near.platform connection r.requestId r.twoway objectKey operation r.message
  taken_le : e'.taken ≤ e.outbox.posted.length
  arrived_le : e.taken ≤ e'.outbox.posted.length
  /-- Only requests that have been handled are answered. -/
  answers : ∀ a ∈ e'.outbox.answers, a.1 < e'.taken ∧ ∃ r, e.Asks a.1 r ∧ IsAnswer far r a.2
  /-- No request is answered twice. -/
  once : (e'.outbox.answers.map Prod.fst).Nodup
  /-- A request that has been handled is answered, unless nothing was sent then. -/
  handled : ∀ k < e'.taken, ∀ r, e.Asks k r → (∃ m, (k, m) ∈ e'.outbox.answers) ∨
    ∃ connection, (far.socketRcvd connection r.message).events = []
  parked : ∀ r ∈ e.requests, r.twoway = true →
    (r.requestId, r.call) ∈ e.line.waiting ∨ (r.call, r.requestId) ∈ e.line.completed
  /-- A call is completed by the answer to its request. -/
  completed : ∀ x ∈ e.line.completed, ∃ r k j m, e.Asks k r ∧ r.twoway = true ∧ r.call = x.1 ∧
    r.requestId = x.2 ∧ j < e.taken ∧ e'.outbox.posted[j]? = some ⟨m, some k⟩
  /-- An answer that has arrived has completed its call. -/
  settled : ∀ j < e.taken, ∀ k m, e'.outbox.posted[j]? = some ⟨m, some k⟩ →
    ∀ r, e.Asks k r → r.twoway = true → (r.call, r.requestId) ∈ e.line.completed

/-! ### Requests and their indices -/

/-- The id of a request stands behind its first twelve octets. -/
theorem ORB.Encodes.requestId_unique [Platform] {connection connection' : Connection}
    {requestId requestId' : UInt32} {twoway twoway' : Bool}
    {objectKey objectKey' operation operation' message : Octets}
    (h : ORB.Encodes connection requestId twoway objectKey operation message)
    (h' : ORB.Encodes connection' requestId' twoway' objectKey' operation' message) :
    requestId = requestId' := by
  have hid : ∀ {c : Connection} {id : UInt32} {t : Bool} {key op : Octets},
      ORB.Encodes c id t key op message → At message 12 (native.bytes 4 id.toNat) := by
    intro c id t key op h
    have hrequest := h.request
    rw [Giop.request, if_neg Bool.false_ne_true, Giop.requestHeader, Giop.requestHeaderFront,
      Giop.requestFront] at hrequest
    exact (laid_raw.1 (laid_align.1
      (laid_append.1 (laid_append.1 (laid_append.1 (laid_append.1 hrequest).1).1).1).1)).1
  have hbytes := (hid h).unique (hid h') (by simp)
  have hvalue := congrArg (Endian.value native) hbytes
  rw [Endian.value_bytes _ requestId.toNat_lt, Endian.value_bytes _ requestId'.toNat_lt] at hvalue
  exact UInt32.toNat_inj.1 hvalue

namespace Ledger

variable {near far : Host} {e e' e₁ : End}

/-- Calls have ids of their own. -/
theorem call_of_requestId (h : Ledger near far e e') (hcalls : e.line.side.calls ≤ 2 ^ 31)
    {r r' : SentRequest} (hr : r ∈ e.requests) (hr' : r' ∈ e.requests)
    (hid : r.requestId = r'.requestId) : r = r' := by
  let : Platform := near.platform
  obtain ⟨hlt, hcall, -⟩ := h.consistent.requests r hr
  obtain ⟨hlt', hcall', -⟩ := h.consistent.requests r' hr'
  have heq := congrArg UInt32.toNat ((hcall.symm.trans hid).trans hcall')
  rw [UInt32.toNat_ofNat_of_lt' (show 2 * r.call < 2 ^ 32 by omega),
    UInt32.toNat_ofNat_of_lt' (show 2 * r'.call < 2 ^ 32 by omega)] at heq
  exact List.inj_on_of_nodup_map h.order hr hr' (by omega)

/-- Requests have messages of their own. -/
theorem eq_of_message (h : Ledger near far e e') (hcalls : e.line.side.calls ≤ 2 ^ 31)
    {r r' : SentRequest} (hr : r ∈ e.requests) (hr' : r' ∈ e.requests)
    (hmessage : r.message = r'.message) : r = r' := by
  let : Platform := near.platform
  obtain ⟨c, key, op, hencodes⟩ := h.encodes r hr
  obtain ⟨c', key', op', hencodes'⟩ := h.encodes r' hr'
  rw [← hmessage] at hencodes'
  exact h.call_of_requestId hcalls hr hr' (hencodes.requestId_unique hencodes')

theorem questions_nodup (h : Ledger near far e e') (hcalls : e.line.side.calls ≤ 2 ^ 31) :
    e.outbox.questions.Nodup := by
  rw [h.questions]
  exact List.Nodup.map_on (fun r hr r' hr' => h.eq_of_message hcalls hr hr')
    (List.Nodup.of_map _ h.order)

/-- At an index there is one request. -/
theorem asks_unique (h : Ledger near far e e') (hcalls : e.line.side.calls ≤ 2 ^ 31) {k : ℕ}
    {r r' : SentRequest} (hr : e.Asks k r) (hr' : e.Asks k r') : r = r' := by
  have hmessage := hr.2.symm.trans hr'.2
  simp only [Option.some.injEq, Post.mk.injEq, and_true] at hmessage
  exact h.eq_of_message hcalls hr.1 hr'.1 hmessage

/-- A request stands at one index. -/
theorem index_unique (h : Ledger near far e e') (hcalls : e.line.side.calls ≤ 2 ^ 31) {k k' : ℕ}
    {r : SentRequest} (hr : e.Asks k r) (hr' : e.Asks k' r) : k = k' :=
  Outbox.question_index (h.questions_nodup hcalls) hr.2 hr'.2

/-- Every request stands in the log, and every question there is a request. -/
theorem exists_index (h : Ledger near far e e') {r : SentRequest} (hr : r ∈ e.requests) :
    ∃ k, e.Asks k r := by
  have hmem : r.message ∈ e.outbox.questions := by
    rw [h.questions]
    exact List.mem_map_of_mem hr
  obtain ⟨k, hk⟩ := Outbox.exists_of_mem_questions hmem
  exact ⟨k, hr, hk⟩

theorem exists_request (h : Ledger near far e e') {k : ℕ} {m : Octets}
    (hk : e.outbox.posted[k]? = some ⟨m, none⟩) : ∃ r, e.Asks k r ∧ r.message = m := by
  have hmem := Outbox.mem_questions hk
  rw [h.questions] at hmem
  obtain ⟨r, hr, rfl⟩ := List.mem_map.1 hmem
  exact ⟨r, ⟨hr, hk⟩, rfl⟩

/-! ### What the other end does -/

section Far

variable {e₁' : End}

/-- The other end has sent something that is not a new answer. -/
theorem far_posts (h : Ledger near far e e') (htaken : e₁'.taken = e'.taken)
    (hposted : e'.outbox.posted <+: e₁'.outbox.posted)
    (hanswers : e₁'.outbox.answers.Perm e'.outbox.answers) : Ledger near far e e₁' where
  consistent := h.consistent
  order := h.order
  questions := h.questions
  encodes := h.encodes
  taken_le := htaken ▸ h.taken_le
  arrived_le := h.arrived_le.trans hposted.length_le
  answers a ha := by
    rw [htaken]
    exact h.answers a (hanswers.mem_iff.1 ha)
  once := (hanswers.map Prod.fst).nodup_iff.2 h.once
  handled k hk r hr := by
    rw [htaken] at hk
    rcases h.handled k hk r hr with ⟨m, hm⟩ | hnone
    · exact .inl ⟨m, hanswers.mem_iff.2 hm⟩
    · exact .inr hnone
  parked := h.parked
  completed x hx := by
    obtain ⟨r, k, j, m, hr, htwoway, hcall, hid, hj, hm⟩ := h.completed x hx
    exact ⟨r, k, j, m, hr, htwoway, hcall, hid, hj, Outbox.getElem?_mono hposted hm⟩
  settled j hj k m hm := by
    refine h.settled j hj k m ?_
    rwa [← Outbox.getElem?_stays hposted (hj.trans_le h.arrived_le)]

/-- The other end has handled a message, and has not made an answer. -/
theorem far_skips (h : Ledger near far e e') (hlt : e'.taken < e.outbox.posted.length)
    (htaken : e₁'.taken = e'.taken + 1) (houtbox : e₁'.outbox = e'.outbox)
    (hnone : ∀ r, e.Asks e'.taken r → ∃ connection,
      (far.socketRcvd connection r.message).events = []) : Ledger near far e e₁' where
  consistent := h.consistent
  order := h.order
  questions := h.questions
  encodes := h.encodes
  taken_le := by
    rw [htaken]
    exact hlt
  arrived_le := houtbox ▸ h.arrived_le
  answers a ha := by
    obtain ⟨ha, hr⟩ := h.answers a (houtbox ▸ ha)
    exact ⟨htaken ▸ Nat.lt_succ_of_lt ha, hr⟩
  once := houtbox ▸ h.once
  handled k hk r hr := by
    rw [houtbox]
    rcases Nat.lt_succ_iff_lt_or_eq.1 (htaken ▸ hk) with hk | rfl
    · exact h.handled k hk r hr
    · exact .inr (hnone r hr)
  parked := h.parked
  completed := houtbox ▸ h.completed
  settled := houtbox ▸ h.settled

/-- The other end has handled a request, and has made an answer to it. -/
theorem far_answers (h : Ledger near far e e') {r : SentRequest} {m : Octets}
    (hr : e.Asks e'.taken r) (hm : IsAnswer far r m)
    (htaken : e₁'.taken = e'.taken + 1) (hposted : e'.outbox.posted <+: e₁'.outbox.posted)
    (hanswers : e₁'.outbox.answers.Perm ((e'.taken, m) :: e'.outbox.answers)) :
    Ledger near far e e₁' where
  consistent := h.consistent
  order := h.order
  questions := h.questions
  encodes := h.encodes
  taken_le := by
    rw [htaken]
    exact (List.getElem?_eq_some_iff.1 hr.2).1
  arrived_le := h.arrived_le.trans hposted.length_le
  answers a ha := by
    rw [htaken]
    rcases List.mem_cons.1 (hanswers.mem_iff.1 ha) with rfl | ha
    · exact ⟨Nat.lt_succ_self _, r, hr, hm⟩
    · obtain ⟨ha, hr⟩ := h.answers a ha
      exact ⟨Nat.lt_succ_of_lt ha, hr⟩
  once := by
    refine (hanswers.map Prod.fst).nodup_iff.2 (List.nodup_cons.2 ⟨?_, h.once⟩)
    intro hmem
    obtain ⟨a, ha, htaken⟩ := List.mem_map.1 hmem
    exact absurd htaken (Nat.ne_of_lt (h.answers a ha).1)
  handled k hk r' hr' := by
    rcases Nat.lt_succ_iff_lt_or_eq.1 (htaken ▸ hk) with hk | rfl
    · rcases h.handled k hk r' hr' with ⟨m', hm'⟩ | hnone
      · exact .inl ⟨m', hanswers.mem_iff.2 (List.mem_cons_of_mem _ hm')⟩
      · exact .inr hnone
    · exact .inl ⟨m, hanswers.mem_iff.2 (List.mem_cons_self ..)⟩
  parked := h.parked
  completed x hx := by
    obtain ⟨r, k, j, m, hr, htwoway, hcall, hid, hj, hm⟩ := h.completed x hx
    exact ⟨r, k, j, m, hr, htwoway, hcall, hid, hj, Outbox.getElem?_mono hposted hm⟩
  settled j hj k m hm := by
    refine h.settled j hj k m ?_
    rwa [← Outbox.getElem?_stays hposted (hj.trans_le h.arrived_le)]

end Far

/-! ### What this end does -/

section Near

/-- A request that has been sent stays where it is. -/
theorem asks_mono (hrequests : e.requests ⊆ e₁.requests)
    (hposted : e.outbox.posted <+: e₁.outbox.posted) {k : ℕ} {r : SentRequest} (h : e.Asks k r) :
    e₁.Asks k r :=
  ⟨hrequests h.1, Outbox.getElem?_mono hposted h.2⟩

/-- This end has sent something that is not a request, and may have handled a message that is not
the answer to a call that waits. -/
theorem near_posts (h : Ledger near far e e')
    (hconsistent : @Line.Consistent _ near.platform e₁.line)
    (hrequests : e₁.requests = e.requests) (hwaiting : e₁.line.waiting = e.line.waiting)
    (hcompleted : e₁.line.completed = e.line.completed)
    (hposted : e.outbox.posted <+: e₁.outbox.posted)
    (hquestions : e₁.outbox.questions = e.outbox.questions) (htaken : e.taken ≤ e₁.taken)
    (harrived : e₁.taken ≤ e'.outbox.posted.length)
    (hnew : ∀ j, e.taken ≤ j → j < e₁.taken → ∀ k m, e'.outbox.posted[j]? = some ⟨m, some k⟩ →
      ∀ r, e.Asks k r → r.twoway ≠ true) : Ledger near far e₁ e' := by
  have hasks : ∀ {k : ℕ} {r : SentRequest}, k < e.outbox.posted.length →
      (e₁.Asks k r ↔ e.Asks k r) := by
    intro k r hk
    rw [End.Asks, End.Asks, hrequests, Outbox.getElem?_stays hposted hk]
  have hmono : ∀ {k : ℕ} {r : SentRequest}, e.Asks k r → e₁.Asks k r :=
    asks_mono (hrequests ▸ List.Subset.refl _) hposted
  refine ⟨hconsistent, hrequests ▸ h.order, ?_, hrequests ▸ h.encodes,
    h.taken_le.trans hposted.length_le, harrived, ?_, h.once, ?_, ?_, ?_, ?_⟩
  · rw [hquestions, hrequests]
    exact h.questions
  · intro a ha
    obtain ⟨hlt, r, hr, hanswers⟩ := h.answers a ha
    exact ⟨hlt, r, hmono hr, hanswers⟩
  · intro k hk r hr
    exact h.handled k hk r ((hasks (hk.trans_le h.taken_le)).1 hr)
  · rw [hrequests, hwaiting, hcompleted]
    exact h.parked
  · rw [hcompleted]
    intro x hx
    obtain ⟨r, k, j, m, hr, htwoway, hcall, hid, hj, hm⟩ := h.completed x hx
    exact ⟨r, k, j, m, hmono hr, htwoway, hcall, hid, hj.trans_le htaken, hm⟩
  · rw [hcompleted]
    intro j hj k m hm r hr htwoway
    have hk : k < e'.taken := (h.answers _ (Outbox.mem_answers hm)).1
    have hr' := (hasks (hk.trans_le h.taken_le)).1 hr
    rcases Nat.lt_or_ge j e.taken with hlt | hge
    · exact h.settled j hlt k m hm r hr' htwoway
    · exact absurd htwoway (hnew j hge hj k m hm r hr')

/-- This end has handled the answer to a call that waits. -/
theorem near_completes (h : Ledger near far e e') (hcalls : e.line.side.calls ≤ 2 ^ 31)
    {k : ℕ} {m : Octets} {r : SentRequest} (hr : e.Asks k r) (htwoway : r.twoway = true)
    (hm : e'.outbox.posted[e.taken]? = some ⟨m, some k⟩)
    (hconsistent : @Line.Consistent _ near.platform e₁.line)
    (hrequests : e₁.requests = e.requests) (houtbox : e₁.outbox = e.outbox)
    (hwaiting : e.line.waiting.Perm ((r.requestId, r.call) :: e₁.line.waiting))
    (hcompleted : e₁.line.completed = e.line.completed ++ [(r.call, r.requestId)])
    (htaken : e₁.taken = e.taken + 1) : Ledger near far e₁ e' := by
  have hasks : ∀ {k : ℕ} {r : SentRequest}, e₁.Asks k r ↔ e.Asks k r := by
    intro k r
    rw [End.Asks, End.Asks, hrequests, houtbox]
  refine ⟨hconsistent, hrequests ▸ h.order, ?_, hrequests ▸ h.encodes, houtbox ▸ h.taken_le, ?_, ?_,
    h.once, ?_, ?_, ?_, ?_⟩
  · rw [houtbox, hrequests]
    exact h.questions
  · rw [htaken]
    exact (List.getElem?_eq_some_iff.1 hm).1
  · intro a ha
    obtain ⟨hlt, r, hr, hanswers⟩ := h.answers a ha
    exact ⟨hlt, r, hasks.2 hr, hanswers⟩
  · intro k hk r hr
    exact h.handled k hk r (hasks.1 hr)
  · intro r' hr' htwoway'
    rw [hcompleted]
    rcases h.parked r' (hrequests ▸ hr') htwoway' with hw | hc
    · rcases List.mem_cons.1 (hwaiting.mem_iff.1 hw) with heq | hw
      · obtain ⟨hid, hcall⟩ := Prod.mk.inj heq
        rw [hid, hcall]
        exact .inr (List.mem_append_right _ (List.mem_singleton_self _))
      · exact .inl hw
    · exact .inr (List.mem_append_left _ hc)
  · intro x hx
    rw [hcompleted] at hx
    rcases List.mem_append.1 hx with hx | hx
    · obtain ⟨r, k, j, m, hr, htwoway, hcall, hid, hj, hm⟩ := h.completed x hx
      exact ⟨r, k, j, m, hasks.2 hr, htwoway, hcall, hid, htaken ▸ Nat.lt_succ_of_lt hj, hm⟩
    · obtain rfl := List.mem_singleton.1 hx
      exact ⟨r, k, e.taken, m, hasks.2 hr, htwoway, rfl, rfl, htaken ▸ Nat.lt_succ_self _, hm⟩
  · intro j hj k' m' hm' r' hr' htwoway'
    rw [hcompleted]
    rcases Nat.lt_succ_iff_lt_or_eq.1 (htaken ▸ hj) with hlt | rfl
    · exact List.mem_append_left _ (h.settled j hlt k' m' hm' r' (hasks.1 hr') htwoway')
    · obtain ⟨rfl, hk⟩ : m = m' ∧ k = k' := by simpa using hm.symm.trans hm'
      subst hk
      obtain rfl := h.asks_unique hcalls hr (hasks.1 hr')
      exact List.mem_append_right _ (List.mem_singleton_self _)

end Near

end Ledger

/-! ### Calls -/

/-- What a call of the conversation does: it fails before anything is sent, or its request is sent,
and its caller is parked if it waits for an answer. -/
theorem Side.issue_wire [Platform] (call : Call Unit) (s : Side (Outbox Octets)) :
    s.issue wire call.posted = (s.called, []) ∨ ∃ message,
      ORB.Encodes s.connection s.requestId call.twoway call.objectKey call.operation message ∧
        s.issue wire call.posted = ({ s.called with
          transport := s.transport.ask message
          requests := s.requests ++ [⟨s.calls, call.twoway, s.requestId, message⟩] },
          if call.twoway then [(s.requestId, s.calls)] else []) := by
  by_cases hsends : call.posted.Sends s
  · obtain ⟨message, hmessage, hissue, hparked⟩ := Side.issue_encodes wire hsends
    refine .inr ⟨message, hmessage, Prod.ext hissue ?_⟩
    obtain ⟨id, caller, hrun⟩ := hsends
    obtain ⟨rfl, -⟩ := ORB.request_ok hrun
    rw [Side.issue]
    simp only [hrun]
    cases htwoway : call.twoway with
    | true => simp [Call.posted, wire, htwoway, suspend]
    | false => simp [Call.posted, htwoway]
  · exact .inl (Side.issue_of_not_sends wire hsends)

namespace Ledger

variable {near far : Host} {e e' : End}

/-- A request that is sent has a message of its own. -/
theorem fresh (h : Ledger near far e e') (hcalls : e.line.side.calls < 2 ^ 31)
    {connection : Connection}
    {twoway : Bool} {objectKey operation message : Octets}
    (hencodes : @ORB.Encodes near.platform connection e.line.side.requestId twoway objectKey
      operation message) : message ∉ e.outbox.questions := by
  let : Platform := near.platform
  rw [h.questions]
  intro hmem
  obtain ⟨r, hr, rfl⟩ := List.mem_map.1 hmem
  obtain ⟨c, key, op, hold⟩ := h.encodes r hr
  obtain ⟨hlt, hcall, -⟩ := h.consistent.requests r hr
  have heq := congrArg UInt32.toNat (hold.requestId_unique hencodes)
  rw [hcall, h.consistent.requestId, UInt32.toNat_ofNat_of_lt' (show 2 * r.call < 2 ^ 32 by omega),
    UInt32.toNat_ofNat_of_lt' (show 2 * e.line.side.calls < 2 ^ 32 by omega)] at heq
  omega

/-- **A call.** -/
theorem call (h : Ledger near far e e') (call : Call Unit) (hcalls : e.line.side.calls < 2 ^ 31) :
    Ledger near far (e.call near call) e' := by
  let : Platform := near.platform
  have hconsistent : (e.call near call).line.Consistent := h.consistent.issue call.posted
  have hline : (e.call near call).line =
      { e.line with
        side := (e.line.side.issue wire call.posted).1
        waiting := e.line.waiting ++ (e.line.side.issue wire call.posted).2 } := by
    simp [End.call, Line.issueAll, Side.issueAll]
  rcases Side.issue_wire call e.line.side with hissue | ⟨message, hencodes, hissue⟩
  · rw [hissue] at hline
    have houtbox : (e.call near call).outbox = e.outbox := by
      rw [End.outbox, hline]
      rfl
    refine h.near_posts hconsistent ?_ ?_ ?_ ?_ ?_ le_rfl h.arrived_le ?_
    · rw [End.requests, hline]
      rfl
    · rw [hline, List.append_nil]
    · rw [hline]
    · exact ⟨[], by rw [houtbox, List.append_nil]⟩
    · rw [houtbox]
    · intro j hge hlt
      exact absurd hge (Nat.not_le.2 hlt)
  · rw [hissue] at hline
    let q : SentRequest := ⟨e.line.side.calls, call.twoway, e.line.side.requestId, message⟩
    have hrequests : (e.call near call).requests = e.requests ++ [q] := by
      rw [End.requests, hline]
    have houtbox : (e.call near call).outbox = e.outbox.ask message := by
      rw [End.outbox, hline]
    have hcompleted : (e.call near call).line.completed = e.line.completed := by rw [hline]
    have hwaiting : (e.call near call).line.waiting = e.line.waiting ++
        if call.twoway then [(q.requestId, q.call)] else [] := by rw [hline]
    have hposted : e.outbox.posted <+: (e.call near call).outbox.posted := by
      rw [houtbox, Outbox.posted_ask]
      exact List.prefix_append _ _
    have hmono : ∀ {k : ℕ} {r : SentRequest}, e.Asks k r → (e.call near call).Asks k r := by
      refine asks_mono ?_ hposted
      rw [hrequests]
      exact List.subset_append_left _ _
    -- at an index that was there before, there is a request that was there before
    have hback : ∀ {k : ℕ} {r : SentRequest}, k < e'.taken → (e.call near call).Asks k r →
        e.Asks k r := by
      intro k r hk hr
      have hat : e.outbox.posted[k]? = some ⟨r.message, none⟩ := by
        rw [← Outbox.getElem?_stays hposted (hk.trans_le h.taken_le)]
        exact hr.2
      have hmem := hr.1
      rw [hrequests] at hmem
      rcases List.mem_append.1 hmem with hmem | hmem
      · exact ⟨hmem, hat⟩
      · obtain rfl := List.mem_singleton.1 hmem
        exact absurd (Outbox.mem_questions hat) (h.fresh hcalls hencodes)
    refine ⟨hconsistent, ?_, ?_, ?_, h.taken_le.trans hposted.length_le, h.arrived_le, ?_, h.once,
      ?_, ?_, ?_, ?_⟩
    · rw [hrequests, List.map_append, List.map_singleton]
      refine List.nodup_append.2 ⟨h.order, List.nodup_singleton _, ?_⟩
      intro n hn n' hn' heq
      obtain ⟨r, hr, rfl⟩ := List.mem_map.1 hn
      obtain rfl := List.mem_singleton.1 hn'
      exact absurd heq (Nat.ne_of_lt (h.consistent.requests r hr).1)
    · rw [houtbox, Outbox.questions_ask, h.questions, hrequests, List.map_append]
      rfl
    · rw [hrequests]
      intro r hr
      rcases List.mem_append.1 hr with hr | hr
      · exact h.encodes r hr
      · obtain rfl := List.mem_singleton.1 hr
        exact ⟨_, _, _, hencodes⟩
    · intro a ha
      obtain ⟨hlt, r, hr, hanswers⟩ := h.answers a ha
      exact ⟨hlt, r, hmono hr, hanswers⟩
    · intro k hk r hr
      exact h.handled k hk r (hback hk hr)
    · rw [hrequests, hwaiting, hcompleted]
      intro r hr htwoway
      rcases List.mem_append.1 hr with hr | hr
      · exact (h.parked r hr htwoway).imp_left (List.mem_append_left _)
      · obtain rfl := List.mem_singleton.1 hr
        have htwoway' : call.twoway = true := htwoway
        rw [if_pos htwoway']
        exact .inl (List.mem_append_right _ (List.mem_singleton_self _))
    · rw [hcompleted]
      intro x hx
      obtain ⟨r, k, j, m, hr, hrest⟩ := h.completed x hx
      exact ⟨r, k, j, m, hmono hr, hrest⟩
    · rw [hcompleted]
      intro j hj k m hm r hr htwoway
      have hk : k < e'.taken := (h.answers _ (Outbox.mem_answers hm)).1
      exact h.settled j hj k m hm r (hback hk hr) htwoway

end Ledger

namespace End

variable {host : Host}

/-- What a call does besides. -/
theorem call_spec (host : Host) (call : Call Unit) (e : End) :
    (e.call host call).taken = e.taken ∧ (e.call host call).line.side.calls = e.line.side.calls + 1 ∧
      e.outbox.posted <+: (e.call host call).outbox.posted ∧
      (e.call host call).outbox.answers = e.outbox.answers := by
  let : Platform := host.platform
  have hline : (e.call host call).line.side = (e.line.side.issue wire call.posted).1 := by
    simp [End.call, Line.issueAll, Side.issueAll]
  refine ⟨rfl, ?_⟩
  rw [End.outbox, End.outbox, hline]
  rcases Side.issue_wire call e.line.side with hissue | ⟨message, -, hissue⟩
  · rw [hissue]
    exact ⟨rfl, List.prefix_rfl, rfl⟩
  · rw [hissue]
    exact ⟨rfl, List.prefix_append _ _, Outbox.answers_ask _ _⟩

/-- Calls that are made one after the other. -/
def callAll (host : Host) (calls : List (Call Unit)) (e : End) : End :=
  calls.foldl (fun e call => e.call host call) e

theorem callAll_cons (call : Call Unit) (calls : List (Call Unit)) (e : End) :
    e.callAll host (call :: calls) = (e.call host call).callAll host calls := rfl

theorem callAll_eq (calls : List (Call Unit)) (e : End) :
    ({ e with line := @Line.issueAll _ _ host.platform wire (calls.map Call.posted) e.line } : End) =
      e.callAll host calls := by
  let : Platform := host.platform
  induction calls generalizing e with
  | nil => rw [List.map_nil, Line.issueAll_nil, callAll, List.foldl_nil]
  | cons call calls ih =>
      rw [List.map_cons, Line.issueAll_cons, callAll_cons, ← ih (e.call host call)]
      rfl

theorem callAll_spec (host : Host) (calls : List (Call Unit)) (e : End) :
    (e.callAll host calls).taken = e.taken ∧
      (e.callAll host calls).line.side.calls = e.line.side.calls + calls.length ∧
      e.outbox.posted <+: (e.callAll host calls).outbox.posted ∧
      (e.callAll host calls).outbox.answers = e.outbox.answers := by
  induction calls generalizing e with
  | nil => exact ⟨rfl, rfl, List.prefix_rfl, rfl⟩
  | cons call calls ih =>
      obtain ⟨htaken, hcalls, hposted, hanswers⟩ := e.call_spec host call
      obtain ⟨htaken', hcalls', hposted', hanswers'⟩ := ih (e.call host call)
      refine ⟨htaken'.trans htaken, ?_, hposted.trans hposted', hanswers'.trans hanswers⟩
      rw [callAll_cons, hcalls', hcalls, List.length_cons]
      omega

/-- What the handling of a message does, one event after the other. -/
theorem receive_eq (host : Host) (e : End) (message : Octets) (later : Bool)
    (reaction : List (Call Unit)) :
    ∃ connection, e.receive host message later reaction =
      { line := (host.socketRcvd e.line.side.connection message).events.foldl
          (@Line.handle _ _ host.platform wire (.handling e.taken later)
            (reaction.map Call.posted)) { e.line with side := { e.line.side with connection } }
        taken := e.taken + 1 } :=
  ⟨_, rfl⟩

/-- A message is handled, and nothing is sent. -/
theorem receive_nil (e : End) {message : Octets} (later : Bool) (reaction : List (Call Unit))
    (h : (host.socketRcvd e.line.side.connection message).events = []) :
    ∃ connection, e.receive host message later reaction =
      { line := { e.line with side := { e.line.side with connection } }, taken := e.taken + 1 } := by
  obtain ⟨connection, hreceive⟩ := e.receive_eq host message later reaction
  rw [h] at hreceive
  exact ⟨connection, hreceive⟩

/-- A message is handled, and a message is sent. -/
theorem receive_send (e : End) {message message' : Octets} (later : Bool)
    (reaction : List (Call Unit))
    (h : (host.socketRcvd e.line.side.connection message).events = [.send message']) :
    ∃ connection, e.receive host message later reaction =
      { line := { e.line with
          side := { e.line.side with
            connection
            transport := (wire.send (.handling e.taken later) message' e.outbox).1 } }
        taken := e.taken + 1 } := by
  obtain ⟨connection, hreceive⟩ := e.receive_eq host message later reaction
  rw [h] at hreceive
  exact ⟨connection, hreceive⟩

end End

namespace Ledger

variable {near far : Host} {e e' : End}

theorem callAll (h : Ledger near far e e') (calls : List (Call Unit))
    (hcalls : (e.callAll near calls).line.side.calls ≤ 2 ^ 31) :
    Ledger near far (e.callAll near calls) e' := by
  induction calls generalizing e with
  | nil => exact h
  | cons call calls ih =>
      rw [End.callAll_cons] at hcalls ⊢
      refine ih (h.call call ?_) hcalls
      obtain ⟨-, hone, -⟩ := e.call_spec near call
      obtain ⟨-, hall, -⟩ := (e.call near call).callAll_spec near calls
      omega

end Ledger

/-! ### Messages that arrive -/

section Receive

variable {here there : Host} {e e' : End}

/-- A request that arrives is answered at most once. -/
theorem Ledger.question_events (h' : Ledger there here e' e) {m : Octets}
    (hm : e'.outbox.posted[e.taken]? = some ⟨m, none⟩) (hsize : m.length < 2 ^ 32)
    (connection : Connection) :
    ∃ r, e'.Asks e.taken r ∧ r.message = m ∧
      ((here.socketRcvd connection m).events = [] ∨ ∃ message,
        (here.socketRcvd connection m).events = [.send message] ∧ IsAnswer here r message) := by
  let : Platform := here.platform
  obtain ⟨r, hr, rfl⟩ := h'.exists_request hm
  obtain ⟨c, key, op, hencodes⟩ := h'.encodes r hr.1
  obtain ⟨request, d, hid, -, hspeaks, -, -, hhandle⟩ :=
    ORB.socketRcvd_encodes hencodes hsize here.servants connection
  have hanswer := ORB.answer_handle request here.servants key op hspeaks
  rw [← hhandle, hid] at hanswer
  refine ⟨r, hr, rfl, ?_⟩
  rcases hanswer with hnil | ⟨status, message, hsend, hreply, hlength⟩
  · exact .inl hnil
  · exact .inr ⟨message, hsend, ⟨_, hsend⟩, ⟨status, hreply⟩, hlength⟩

/-- **A request arrives.** -/
theorem Ledger.receive_question (h : Ledger here there e e')
    (h' : Ledger there here e' e) {m : Octets}
    (hm : e'.outbox.posted[e.taken]? = some ⟨m, none⟩) (hsize : m.length < 2 ^ 32) (later : Bool)
    (reaction : List (Call Unit)) :
    Ledger here there (e.receive here m later reaction) e' ∧
      Ledger there here e' (e.receive here m later reaction) := by
  let : Platform := here.platform
  obtain ⟨r, hr, rfl, hevents⟩ := h'.question_events hm hsize e.line.side.connection
  have hlt := (List.getElem?_eq_some_iff.1 hm).1
  -- what is handled is a question, and completes no call
  have hnew : ∀ j, e.taken ≤ j → j < e.taken + 1 → ∀ k m', e'.outbox.posted[j]? =
      some ⟨m', some k⟩ → ∀ q, e.Asks k q → q.twoway ≠ true := by
    intro j hge hj k m' hm'
    obtain rfl : e.taken = j := by omega
    rw [hm] at hm'
    cases hm'
  rcases hevents with hnil | ⟨message, hsend, hanswers⟩
  · obtain ⟨connection, hreceive⟩ := e.receive_nil later reaction hnil
    rw [hreceive]
    constructor
    · exact h.near_posts (h.consistent.side _ _) rfl rfl rfl List.prefix_rfl rfl (Nat.le_succ _)
        hlt hnew
    · refine h'.far_skips hlt rfl rfl fun q hq => ?_
      have hq' := hq.2.symm.trans hm
      simp only [Option.some.injEq, Post.mk.injEq, and_true] at hq'
      rw [hq']
      exact ⟨_, hnil⟩
  · obtain ⟨connection, hreceive⟩ := e.receive_send later reaction hsend
    rw [hreceive]
    cases later with
    | false =>
        constructor
        · exact h.near_posts (h.consistent.side _ _) rfl rfl rfl (List.prefix_append _ _)
            (Outbox.questions_answer _ _ _) (Nat.le_succ _) hlt hnew
        · exact h'.far_answers hr hanswers rfl
            (List.prefix_append _ _) (Outbox.answers_answer_perm _ _ _)
    | true =>
        constructor
        · exact h.near_posts (h.consistent.side _ _) rfl rfl rfl List.prefix_rfl
            (Outbox.questions_prepare _ _ _) (Nat.le_succ _) hlt hnew
        · exact h'.far_answers hr hanswers rfl
            List.prefix_rfl (Outbox.answers_prepare_perm _ _ _)

/-- A call that waits under the id of an answer that arrives has not been completed before. -/
theorem Ledger.waits (h : Ledger here there e e') (hcalls : e.line.side.calls ≤ 2 ^ 31) {k : ℕ}
    {m : Octets} {r : SentRequest} (hm : e'.outbox.posted[e.taken]? = some ⟨m, some k⟩)
    (hr : e.Asks k r) (htwoway : r.twoway = true) : (r.requestId, r.call) ∈ e.line.waiting := by
  refine (h.parked r hr.1 htwoway).resolve_right fun hcompleted => ?_
  obtain ⟨r', k', j, m', hr', -, hcall, -, hj, hm'⟩ := h.completed _ hcompleted
  obtain rfl := List.inj_on_of_nodup_map h.order hr'.1 hr.1 hcall
  obtain rfl := h.index_unique hcalls hr' hr
  exact absurd (Outbox.answer_index h.once hm' hm) (Nat.ne_of_lt hj)

/-- Nobody waits for an answer to a request that has been sent by a oneway call. -/
theorem Ledger.nobody_waits (h : Ledger here there e e') (hcalls : e.line.side.calls ≤ 2 ^ 31)
    {r : SentRequest} (hr : r ∈ e.requests) (htwoway : r.twoway ≠ true) :
    ∀ x ∈ e.line.waiting, x.1 ≠ r.requestId := by
  let : Platform := here.platform
  intro x hx hid
  obtain ⟨message, hmem⟩ := h.consistent.waiting x hx
  have heq := h.call_of_requestId hcalls hmem hr hid
  rw [← heq] at htwoway
  exact htwoway rfl

/-- An answer that arrives is a reply to a request of this end. -/
theorem Ledger.answer_replies (h : Ledger here there e e') {k : ℕ} {m : Octets}
    (hm : e'.outbox.posted[e.taken]? = some ⟨m, some k⟩) (hsize : m.length < 2 ^ 32)
    (connection : Connection) :
    ∃ r, e.Asks k r ∧ @ORB.Replies here.platform connection m r.requestId := by
  let : Platform := here.platform
  obtain ⟨-, r, hr, hanswers⟩ := h.answers _ (Outbox.mem_answers hm)
  have hanswers : IsAnswer there r m := hanswers
  obtain ⟨status, hreply⟩ := hanswers.isReply
  obtain ⟨d, hreplies, -⟩ := ORB.socketRcvd_isReply hreply le_rfl hanswers.length (by omega)
    here.servants connection
  exact ⟨r, hr, hreplies⟩

/-- **An answer arrives.** -/
theorem Ledger.receive_answer (h : Ledger here there e e') (h' : Ledger there here e' e) {k : ℕ}
    {m : Octets} (hm : e'.outbox.posted[e.taken]? = some ⟨m, some k⟩) (hsize : m.length < 2 ^ 32)
    (later : Bool) (reaction : List (Call Unit)) (hbefore : e.line.side.calls ≤ 2 ^ 31)
    (hcalls : (e.receive here m later reaction).line.side.calls ≤ 2 ^ 31) :
    Ledger here there (e.receive here m later reaction) e' ∧
      Ledger there here e' (e.receive here m later reaction) := by
  let : Platform := here.platform
  obtain ⟨r, hr, hreplies⟩ := h.answer_replies hm hsize e.line.side.connection
  have hlt := (List.getElem?_eq_some_iff.1 hm).1
  obtain ⟨remote, hstep⟩ := Line.step_of_replies wire here.servants (.handling e.taken later)
    (reaction.map Call.posted) hreplies
  have hreceive : e.receive here m later reaction = { line := _, taken := e.taken + 1 } :=
    congrArg (fun line => ({ line := line, taken := e.taken + 1 } : End)) hstep
  have hvacuous : ∀ q, e'.Asks e.taken q → ∃ connection,
      (here.socketRcvd connection q.message).events = [] := by
    intro q hq
    have hq' := hq.2.symm.trans hm
    simp only [Option.some.injEq, Post.mk.injEq, reduceCtorEq, and_false] at hq'
  by_cases htwoway : r.twoway = true
  · -- the caller is resumed, and goes on
    have hwaits := h.waits hbefore hm hr htwoway
    obtain ⟨⟨call, rest⟩, hresume⟩ := Option.isSome_iff_exists.1 (resume_isSome hwaits)
    have hperm := resume_eq_some hresume
    obtain rfl : call = r.call :=
      h.consistent.unique hbefore (hperm.mem_iff.2 (List.mem_cons_self ..)) hwaits
    rw [Line.resume] at hreceive
    simp only [hresume] at hreceive
    let e₁ : End :=
      { line := { e.line with
          side := { e.line.side with connection := { e.line.side.connection with remote } }
          waiting := rest
          completed := e.line.completed ++ [(r.call, r.requestId)] }
        taken := e.taken + 1 }
    have hcallAll : e.receive here m later reaction = e₁.callAll here reaction := by
      rw [hreceive, ← End.callAll_eq]
    obtain ⟨htaken, -, hposted, hanswers'⟩ := e₁.callAll_spec here reaction
    rw [hcallAll] at hcalls ⊢
    constructor
    · refine Ledger.callAll (e := e₁) ?_ reaction hcalls
      refine h.near_completes hbefore hr htwoway hm ?_ rfl rfl hperm rfl rfl
      exact (h.consistent.side _ _).complete hresume
    · refine Ledger.far_posts (?_ : Ledger there here e' e₁) htaken hposted (by rw [hanswers'])
      exact h'.far_skips hlt rfl rfl hvacuous
  · -- nobody waits for the answer
    have hnobody := h.nobody_waits hbefore hr.1 htwoway
    rw [Line.resume, resume_eq_none_iff.2 hnobody] at hreceive
    rw [hreceive]
    constructor
    · refine h.near_posts (h.consistent.side _ _) rfl rfl rfl List.prefix_rfl rfl (Nat.le_succ _)
        hlt ?_
      intro j hge hj k' m' hm' q hq
      obtain rfl : e.taken = j := Nat.le_antisymm hge (Nat.lt_succ_iff.1 hj)
      obtain ⟨rfl, hk⟩ : m = m' ∧ k = k' := by simpa using hm.symm.trans hm'
      subst hk
      rwa [h.asks_unique hbefore hq hr]
    · exact h'.far_skips hlt rfl rfl hvacuous

end Receive

/-- **An answer that is ready is sent.** -/
theorem Ledger.release {here there : Host} {e e' : End} (h : Ledger here there e e')
    (h' : Ledger there here e' e) (i : ℕ) :
    Ledger here there (e.release i) e' ∧ Ledger there here e' (e.release i) := by
  let : Platform := here.platform
  constructor
  · refine h.near_posts (h.consistent.side _ _) rfl rfl rfl (Outbox.posted_release _ _)
      (Outbox.questions_release _ _) le_rfl h.arrived_le fun j hge hlt => ?_
    exact absurd hge (Nat.not_le.2 hlt)
  · exact h'.far_posts rfl (Outbox.posted_release _ _) (Outbox.answers_release_perm _ _)

/-! ### Runs -/

namespace Conversation

variable {hosts : Bool → Host} {c : Conversation}

/-- The ledgers of both ends. -/
def Inv (hosts : Bool → Host) (c : Conversation) : Prop :=
  ∀ s, Ledger (hosts s) (hosts !s) (c s) (c !s)

theorem inv_start (hosts : Bool → Host) (connections : Bool → Connection) :
    Inv hosts (start connections) := by
  intro s
  have hconsistent : @Line.Consistent _ (hosts s).platform (start connections s).line :=
    @Line.consistent_initial _ (hosts s).platform _ _
  refine ⟨hconsistent, ?_, rfl, ?_, ?_, ?_, ?_, ?_, ?_, ?_, ?_, ?_⟩ <;>
    simp [start, End.requests, Outbox.answers]

theorem Inv.set {s : Bool} {e : End} (hnear : Ledger (hosts s) (hosts !s) e (c !s))
    (hfar : Ledger (hosts !s) (hosts s) (c !s) e) : Inv hosts (c.set s e) := by
  intro t
  rcases Bool.eq_or_eq_not t s with rfl | rfl
  · rw [set_self, set_not]
    exact hnear
  · rw [set_not, Bool.not_not, set_self]
    exact hfar

/-- **Every step keeps the ledgers of both ends.** -/
theorem Inv.step (h : Inv hosts c) (a : ConversationStep) (hbefore : c.Fits)
    (hafter : (c.step hosts a).Fits) : Inv hosts (c.step hosts a) := by
  have hfar : ∀ s, Ledger (hosts !s) (hosts s) (c !s) (c s) := by
    intro s
    have hnot := h !s
    rwa [Bool.not_not] at hnot
  cases a with
  | call s call =>
      have hcalls := (hafter s).1
      rw [Conversation.step, set_self] at hcalls
      obtain ⟨htaken, hone, hposted, hanswers⟩ := (c s).call_spec (hosts s) call
      refine Inv.set ((h s).call call (by omega)) ?_
      exact (hfar s).far_posts htaken hposted (by rw [hanswers])
  | receive s later reaction =>
      rw [Conversation.step]
      split
      · exact h
      · rename_i p hp
        have hsize := (hbefore !s).2 p (List.mem_of_getElem? hp)
        obtain ⟨m, _ | k⟩ := p
        · obtain ⟨hnear, hfar⟩ := (h s).receive_question (hfar s) hp hsize later reaction
          exact Inv.set hnear hfar
        · have hcalls := (hafter s).1
          rw [Conversation.step, hp] at hcalls
          dsimp only at hcalls
          rw [set_self] at hcalls
          obtain ⟨hnear, hfar⟩ := (h s).receive_answer (hfar s) hp hsize later reaction
            (hbefore s).1 hcalls
          exact Inv.set hnear hfar
  | release s i =>
      obtain ⟨hnear, hfar⟩ := (h s).release (hfar s) i
      exact Inv.set hnear hfar

/-- A call has been completed by the message at this place: it has been handled, and the far end has
sent it when it handled the request of this call. -/
def CompletedBy (hosts : Bool → Host) (c : Conversation) (s : Bool) (x : ℕ × UInt32) (j : ℕ) : Prop :=
  ∃ r k m, (c s).Asks k r ∧ r.twoway = true ∧ r.call = x.1 ∧ r.requestId = x.2 ∧
    j < (c s).taken ∧ (c !s).outbox.posted[j]? = some ⟨m, some k⟩ ∧ IsAnswer (hosts !s) r m

/-- Calls and answers belong together. -/
structure Matched (hosts : Bool → Host) (c : Conversation) : Prop where
  /-- A call is completed by an answer that the far end has sent when it handled the request of this
  call. -/
  own : ∀ s, ∀ x ∈ (c s).line.completed, ∃ j, CompletedBy hosts c s x j
  /-- No answer completes two calls. -/
  apart : ∀ s x y j, CompletedBy hosts c s x j → CompletedBy hosts c s y j → x = y
  /-- No request is answered twice, and no call is completed twice. -/
  once : ∀ s, ((c s).outbox.answers.map Prod.fst).Nodup ∧
    ((c s).line.completed.map Prod.fst).Nodup
  /-- A call is completed as soon as the answer to its request has been handled, and waits till
  then. -/
  settled : ∀ s k r, (c s).Asks k r → r.twoway = true →
    ((r.call, r.requestId) ∈ (c s).line.completed ↔
      ∃ j m, j < (c s).taken ∧ (c !s).outbox.posted[j]? = some ⟨m, some k⟩) ∧
    ((r.requestId, r.call) ∈ (c s).line.waiting ↔ (r.call, r.requestId) ∉ (c s).line.completed)
  /-- What a call waits for: its request is under way, or a servant has been suspended with it, or
  the answer is under way, or the request has been handled and nothing was sent. -/
  under_way : ∀ s, ∀ x ∈ (c s).line.waiting, ∃ r k, (c s).Asks k r ∧ r.requestId = x.1 ∧
    r.call = x.2 ∧ ((c !s).taken ≤ k ∨ (∃ m, (k, m) ∈ (c !s).outbox.pending) ∨
      (∃ j m, (c s).taken ≤ j ∧ (c !s).outbox.posted[j]? = some ⟨m, some k⟩) ∨
      ∃ connection, ((hosts !s).socketRcvd connection r.message).events = [])

/-- A call does not wait when it has been completed. -/
theorem Inv.waiting_iff (h : Inv hosts c) {s : Bool} {r : SentRequest} (hr : r ∈ (c s).requests)
    (htwoway : r.twoway = true) :
    (r.requestId, r.call) ∈ (c s).line.waiting ↔ (r.call, r.requestId) ∉ (c s).line.completed := by
  let : Platform := (hosts s).platform
  constructor
  · intro hw hc
    have hnodup := (h s).consistent.nodup
    exact (List.nodup_append.1 hnodup).2.2 _ (List.mem_map_of_mem hw) _ (List.mem_map_of_mem hc) rfl
  · intro hc
    exact ((h s).parked r hr htwoway).resolve_right hc

theorem Inv.completed_iff (h : Inv hosts c) (hfits : c.Fits) {s : Bool} {k : ℕ} {r : SentRequest}
    (hr : (c s).Asks k r) (htwoway : r.twoway = true) :
    (r.call, r.requestId) ∈ (c s).line.completed ↔
      ∃ j m, j < (c s).taken ∧ (c !s).outbox.posted[j]? = some ⟨m, some k⟩ := by
  constructor
  · intro hc
    obtain ⟨r', k', j, m, hr', -, hcall, -, hj, hm⟩ := (h s).completed _ hc
    obtain rfl := List.inj_on_of_nodup_map (h s).order hr'.1 hr.1 hcall
    obtain rfl := (h s).index_unique (hfits s).1 hr' hr
    exact ⟨j, m, hj, hm⟩
  · rintro ⟨j, m, hj, hm⟩
    exact (h s).settled j hj k m hm r hr htwoway

/-- A message is the answer to one request. -/
theorem Inv.completedBy_unique (h : Inv hosts c) (hfits : c.Fits) {s : Bool} {x y : ℕ × UInt32}
    {j : ℕ} (hx : CompletedBy hosts c s x j) (hy : CompletedBy hosts c s y j) : x = y := by
  obtain ⟨r, k, m, hr, -, hcall, hid, -, hm, -⟩ := hx
  obtain ⟨r', k', m', hr', -, hcall', hid', -, hm', -⟩ := hy
  rw [hm] at hm'
  cases hm'
  obtain rfl := (h s).asks_unique (hfits s).1 hr hr'
  exact Prod.ext (hcall.symm.trans hcall') (hid.symm.trans hid')

theorem Inv.matched (h : Inv hosts c) (hfits : c.Fits) : c.Matched hosts where
  own s x hx := by
    obtain ⟨r, k, j, m, hr, htwoway, hcall, hid, hj, hm⟩ := (h s).completed x hx
    obtain ⟨-, r', hr', hanswers⟩ := (h s).answers _ (Outbox.mem_answers hm)
    obtain rfl := (h s).asks_unique (hfits s).1 hr' hr
    exact ⟨j, _, k, m, hr, htwoway, hcall, hid, hj, hm, hanswers⟩
  apart s x y j hx hy := h.completedBy_unique hfits hx hy
  once s := by
    let : Platform := (hosts s).platform
    have honce := (h !s).once
    rw [Bool.not_not] at honce
    exact ⟨honce, (h s).consistent.nodup.sublist (List.sublist_append_right _ _)⟩
  settled s k r hr htwoway := ⟨h.completed_iff hfits hr htwoway, h.waiting_iff hr.1 htwoway⟩
  under_way s x hx := by
    let : Platform := (hosts s).platform
    obtain ⟨message, hmem⟩ := (h s).consistent.waiting x hx
    obtain ⟨k, hr⟩ := (h s).exists_index hmem
    refine ⟨_, k, hr, rfl, rfl, ?_⟩
    rcases Nat.lt_or_ge k (c !s).taken with hk | hk
    · rcases (h s).handled k hk _ hr with ⟨m, hm⟩ | hnone
      · rcases Outbox.posted_or_pending hm with ⟨j, hj⟩ | hpending
        · refine .inr (.inr (.inl ⟨j, m, ?_, hj⟩))
          -- an answer that has been handled has completed the call
          by_contra hlt
          exact (h.waiting_iff hmem rfl).1 hx ((h s).settled j (Nat.not_le.1 hlt) k m hj _ hr rfl)
        · exact .inr (.inl ⟨m, hpending⟩)
      · exact .inr (.inr (.inr hnone))
    · exact .inl hk

end Conversation

/-- The ledgers are kept in every run in which there are no more calls than ids. -/
theorem conversation_inv (hosts : Bool → Host) (connections : Bool → Connection)
    (run : List ConversationStep)
    (hfits : Runs.Always (Conversation.step hosts) Conversation.Fits
      (Conversation.start connections) run) :
    Runs.Always (Conversation.step hosts) (Conversation.Inv hosts)
      (Conversation.start connections) run := by
  intro as has
  induction as using List.reverseRecOn with
  | nil => exact Conversation.inv_start hosts connections
  | append_singleton as a ih =>
      have hbefore : as <+: run := (List.prefix_append _ _).trans has
      have hafter := hfits _ has
      rw [List.foldl_append] at hafter ⊢
      exact (ih hbefore).step a (hfits as hbefore) hafter

/-- **Calls and answers belong together**, in whatever order both ends call each other and answer.
This holds in every state of every run in which there are no more calls than ids. -/
theorem conversation_matched (hosts : Bool → Host) (connections : Bool → Connection)
    (run : List ConversationStep)
    (hfits : Runs.Always (Conversation.step hosts) Conversation.Fits
      (Conversation.start connections) run) :
    Runs.Always (Conversation.step hosts) (Conversation.Matched hosts)
      (Conversation.start connections) run := by
  intro as has
  exact (conversation_inv hosts connections run hfits as has).matched (hfits as has)

/-- A servant that answers everything with the same number. -/
def five : Servant where
  repositoryId := ascii "IDL:Five:1.0"
  dispatch _ _ := { writing := ⟨[.value (.ulong 5)], .returns⟩ }

/-- The far end calls back before it answers. -/
theorem conversation_matched_callback :
    let hosts : Bool → Host := fun s => ⟨if s then ⟨.big⟩ else ⟨.little⟩, fun _ => some five⟩
    let call : Call Unit := ⟨true, ascii "A", cString (ascii "get"), { calls := [] }, ()⟩
    let c := [ConversationStep.call false call, .receive true true [], .call true call,
      .receive false false [], .receive true false [], .release true 0,
      .receive false false []].foldl (Conversation.step hosts)
        (Conversation.start fun _ => ORB.addConnection)
    (c false).line.completed = [(0, 0)] ∧ (c true).line.completed = [(0, 0)] ∧
      c.Matched hosts := by
  intro hosts call c
  refine ⟨by decide +kernel, by decide +kernel, ?_⟩
  refine (conversation_matched hosts (fun _ => ORB.addConnection) _ ?_).last
  simp only [Runs.always_cons, Runs.always_nil]
  refine ⟨?_, ?_, ?_, ?_, ?_, ?_, ?_, ?_⟩ <;> decide +kernel

end Corba
