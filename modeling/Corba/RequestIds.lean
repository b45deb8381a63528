/-
Request ids.

A call takes its id from a counter of its connection, which goes up by two and begins again at zero
after `2 ^ 31` calls.  Nothing bounds how long a call may wait for its reply, so a new call can be
given the id of one that waits still; how many calls there have been in between tells when.  Both
ends of a connection count from zero.  They give the same id to calls of the same number, unless one
of the two is not sent.

Main definitions:

* `Corba.Move`, `Corba.Line.move` — what happens to a connection between two calls;
* `Corba.Side.connectOutgoing`, `Corba.Side.connectIncoming` — how the ends of a connection begin;
* `Corba.Link`, `Corba.LinkMove` — both ends of a connection;
* `Corba.Link.Disjoint`, `Corba.Link.Apart` — the ends use different ids, and the condition.

Main results:

* `Corba.Line.step_eq_moves`, `Corba.Line.rounds_eq_moves` — whatever happens to a connection
  consists of moves;
* `Corba.request_id_taken_iff` — which pending calls a new one shares its id with;
* `Corba.request_ids_disjoint_iff` — exactly when both ends use different ids.
-/

import Corba.ConnectionLoss

set_option relaxedAutoImplicit false
set_option autoImplicit false

namespace Corba

open Layout Exec Interlock

variable {τ ι : Type}

/-! ### Moves -/

/-- What happens to a connection, as its calls see it: a call is made, a caller that is parked is
resumed with a reply or an exception, or something happens to what is around the calls. -/
inductive Move (τ ι : Type) where
  | call (call : Call ι)
  | resumed (requestId : UInt32)
  | below (connection : Connection) (transport : τ)

namespace Line

variable [Platform] {T : Transport τ ι}

def move (T : Transport τ ι) (l : Line τ) : Move τ ι → Line τ
  | .call call => l.issueAll T [call]
  | .resumed requestId =>
      match Interlock.resume requestId l.waiting with
      | none => l
      | some (call, waiting) =>
          { l with waiting, completed := l.completed ++ [(call, requestId)] }
  | .below connection transport => { l with side := { l.side with connection, transport } }

/-- Calls that are made one after the other. -/
theorem issueAll_eq_moves (calls : List (Call ι)) (l : Line τ) :
    l.issueAll T calls = (calls.map Move.call).foldl (move T) l := by
  induction calls generalizing l with
  | nil => simp
  | cons call calls ih =>
      rw [issueAll_cons, ih, List.map_cons, List.foldl_cons]
      rfl

/-- **A step consists of moves**: so whatever holds after all moves holds at every moment of a step,
also at those when the caller that has been resumed calls again. -/
theorem step_eq_moves (servants : Servants) (l : Line τ) (event : LineEvent ι) :
    ∃ moves : List (Move τ ι), l.step T servants event = moves.foldl (move T) l := by
  cases event with
  | call call => exact ⟨[.call call], rfl⟩
  | message message input reaction =>
      have hevents : ∀ (events : List Event) (l : Line τ),
          ∃ moves : List (Move τ ι), events.foldl (handle T input reaction) l = moves.foldl (move T) l := by
        intro events
        induction events with
        | nil => exact fun l => ⟨[], rfl⟩
        | cons event events ih =>
            intro l
            obtain ⟨first, hfirst⟩ : ∃ moves : List (Move τ ι), handle T input reaction l event =
                moves.foldl (move T) l := by
              cases event with
              | send message => exact ⟨[.below l.side.connection _], rfl⟩
              | resume requestId d =>
                  cases hresume : Interlock.resume requestId l.waiting with
                  | none => exact ⟨[], by simp [handle, resume, hresume]⟩
                  | some r =>
                      refine ⟨.resumed requestId :: reaction.map Move.call, ?_⟩
                      rw [List.foldl_cons, ← issueAll_eq_moves]
                      simp [handle, resume, move, hresume]
            obtain ⟨rest, hrest⟩ := ih (handle T input reaction l event)
            refine ⟨first ++ rest, ?_⟩
            rw [List.foldl_cons, hrest, hfirst, List.foldl_append]
      let r := State (ORB.socketRcvd servants l.side.connection message)
      obtain ⟨moves, hmoves⟩ := hevents r.events
        { l with side :=
          { l.side with connection := r.decoder.connection.getD l.side.connection } }
      exact ⟨.below (r.decoder.connection.getD l.side.connection) l.side.transport :: moves, hmoves⟩

/-- So do the loops that fail all callers that are parked. -/
theorem rounds_eq_moves (first : Begin UInt32 ℕ) (calls : ℕ → List (Call ι)) (n : ℕ) (l : Line τ) :
    ∃ moves : List (Move τ ι), let u := rounds first (callers T calls) n l.side l.waiting
      (moves.foldl (move T) l).side = u.ambient ∧ (moves.foldl (move T) l).waiting = u.parked := by
  induction n with
  | zero => exact ⟨[], rfl, rfl⟩
  | succ n ih =>
      obtain ⟨moves, hside, hwaiting⟩ := ih
      rw [rounds_succ]
      generalize rounds first (callers T calls) n l.side l.waiting = u at hside hwaiting ⊢
      by_cases hnobody : u.parked = []
      · rw [round_of_nobody _ _ hnobody]
        exact ⟨moves, hside, hwaiting⟩
      · rw [Interlock.round, dif_neg hnobody]
        dsimp only
        cases hresume : Interlock.resume (first.first u.parked hnobody).1 u.parked with
        | none => exact ⟨moves, hside, hwaiting⟩
        | some r =>
            refine ⟨moves ++ .resumed (first.first u.parked hnobody).1 ::
              (calls u.resumed.length).map Move.call, ?_⟩
            rw [List.foldl_append, List.foldl_cons, ← issueAll_eq_moves]
            generalize moves.foldl (move T) l = l' at hside hwaiting
            simp [move, issueAll, callers, hwaiting, hresume, hside]

theorem Consistent.move {l : Line τ} (h : l.Consistent) (m : Move τ ι) :
    (l.move T m).Consistent := by
  cases m with
  | call call => exact h.issue call
  | resumed requestId =>
      rw [Line.move]
      split
      · exact h
      · rename_i hresume
        exact h.complete hresume
  | below connection transport => exact h.side connection transport

variable (T) in
theorem Consistent.moves {l : Line τ} (h : l.Consistent) (moves : List (Move τ ι)) :
    (moves.foldl (Line.move T) l).Consistent := by
  have hstep : ∀ (l : Line τ) (m : Move τ ι), l.Consistent → (Line.move T l m).Consistent :=
    fun _ m h => h.move m
  exact (Runs.always_of_step hstep h moves).last

/-- The number of a call that is parked is known from the id it is parked under, up to a multiple of
`2 ^ 31`. -/
theorem Consistent.taken_iff {l : Line τ} (h : l.Consistent) {e : UInt32 × ℕ}
    (he : e ∈ l.waiting) :
    e.2 < l.side.calls ∧ (l.side.requestId = e.1 ↔ 2 ^ 31 ∣ l.side.calls - e.2) := by
  obtain ⟨message, hr⟩ := h.waiting e he
  obtain ⟨hlt, hid, -⟩ := h.requests _ hr
  have hlt : e.2 < l.side.calls := hlt
  have hid : e.1 = UInt32.ofNat (2 * e.2) := hid
  refine ⟨hlt, ?_⟩
  rw [h.requestId, hid, ← UInt32.toNat_inj, UInt32.toNat_ofNat', UInt32.toNat_ofNat']
  -- twice a number is known modulo `2 ^ 32` when the number is known modulo `2 ^ 31`
  omega

end Line

/-! ### Calls that are pending -/

section Pending

variable [Platform]

/-- **A new call is given the id of a call that is pending exactly when the number of calls that have
been made since, that one included, is a multiple of `2 ^ 31`.**  This is so at every moment of every
run, however many calls have been made and whichever of them have been answered. -/
theorem request_id_taken_iff (T : Transport τ ι) (connection : Connection) (transport : τ)
    (moves : List (Move τ ι)) :
    let l := moves.foldl (Line.move T) { side := { connection, transport } }
    (∀ (call : Call ι), ∀ r ∈ (l.side.issue T call).1.requests,
      r ∈ l.side.requests ∨ r.call = l.side.calls ∧ r.requestId = l.side.requestId) ∧
    ∀ e ∈ l.waiting, e.2 < l.side.calls ∧
      (l.side.requestId = e.1 ↔ 2 ^ 31 ∣ l.side.calls - e.2) := by
  intro l
  have hconsistent : l.Consistent := (Line.consistent_initial connection transport).moves T moves
  refine ⟨fun call r hr => ?_, fun e he => hconsistent.taken_iff he⟩
  obtain ⟨-, -, -, ⟨-, hsame, -⟩ | ⟨message, -, hone, -⟩⟩ := l.side.issue_spec T call
  · rw [hsame] at hr
    exact .inl hr
  · rw [hone] at hr
    rcases List.mem_append.1 hr with hr | hr
    · exact .inl hr
    · obtain rfl := List.mem_singleton.1 hr
      exact .inr ⟨rfl, rfl⟩

/-- Calls that are not answered. -/
def unanswered (call : Call ι) (n : ℕ) : List (Move τ ι) := List.replicate n (.call call)

/-- They are counted, and whoever is parked stays parked. -/
theorem Line.unanswered_moves (T : Transport τ ι) (call : Call ι) (n : ℕ) (l : Line τ) :
    ((unanswered call n).foldl (move T) l).side.calls = l.side.calls + n ∧
      ∀ e ∈ l.waiting, e ∈ ((unanswered call n).foldl (move T) l).waiting := by
  induction n generalizing l with
  | zero => exact ⟨rfl, fun e he => he⟩
  | succ n ih =>
      obtain ⟨hcalls, hwaiting⟩ := ih (l.move T (.call call))
      have hone : (l.move T (.call call)).side.calls = l.side.calls + 1 := by
        simp [move, issueAll, Side.issueAll, (l.side.issue_spec T call).2.1]
      rw [unanswered, List.replicate_succ, List.foldl_cons]
      rw [unanswered] at hcalls hwaiting
      refine ⟨?_, fun e he => hwaiting e (List.mem_append_left _ he)⟩
      rw [hcalls, hone]
      omega

end Pending

/-- The call for `add`. -/
def addCall : Call Unit := ⟨true, ascii "A", cString (ascii "add"), { calls := [] }, ()⟩

/-- After `2 ^ 31` calls, none of which has been answered, a new one is given the id of the first. -/
theorem request_id_taken :
    letI : Platform := ⟨.little⟩
    ¬ ∀ (T : Transport Unit Unit) (connection : Connection) (moves : List (Move Unit Unit)),
      let l := moves.foldl (Line.move T) { side := { connection, transport := () } }
      ∀ e ∈ l.waiting, l.side.requestId ≠ e.1 := by
  let : Platform := ⟨.little⟩
  intro h
  let l₀ : Line Unit := { side := { connection := ORB.addConnection, transport := () } }
  let l₁ := l₀.move lossless (.call addCall)
  have hfirst : (0, 0) ∈ l₁.waiting := by decide +kernel
  have hone : l₁.side.calls = 1 := by decide +kernel
  have hconsistent : l₁.Consistent :=
    (Line.consistent_initial ORB.addConnection ()).move (.call addCall)
  have hnever : ∀ n, UInt32.ofNat (2 * (1 + n)) ≠ 0 := by
    intro n hzero
    obtain ⟨hcalls, hwaiting⟩ := Line.unanswered_moves lossless addCall n l₁
    have hid := (hconsistent.moves lossless (unanswered addCall n)).requestId
    rw [hcalls, hone, hzero] at hid
    exact h lossless ORB.addConnection (.call addCall :: unanswered addCall n) (0, 0)
      (hwaiting _ hfirst) hid
  exact hnever (2 ^ 31 - 1) (by decide)

/-! ### Both ends of a connection -/

/-- The end of the one who connects. -/
def Side.connectOutgoing (near : HostAndPort) (host : Octets) (port : UInt16) (transport : τ) :
    Side τ :=
  { connection := { remote := ⟨host, port⟩, protocolLocal := near }, transport }

/-- The end of the one who accepts.  The socket is part of the transport. -/
def Side.connectIncoming (near : HostAndPort) (host : Octets) (port : UInt16) (transport : τ) :
    Side τ :=
  { connection := { remote := ⟨host, port⟩, protocolLocal := near }, transport }

/-- A connection, with the one who has opened it and the one who has accepted it. -/
structure Link (τ : Type) where
  opener : Line τ
  accepter : Line τ

inductive LinkMove (τ ι : Type) where
  | opener (move : Move τ ι)
  | accepter (move : Move τ ι)

namespace Link

/-- No request of one end carries the id of a request of the other. -/
def Disjoint (l : Link τ) : Prop :=
  ∀ r ∈ l.opener.side.requests, ∀ r' ∈ l.accepter.side.requests, r.requestId ≠ r'.requestId

/-- No request of one end has the number of a request of the other. -/
def NumbersApart (l : Link τ) : Prop :=
  ∀ r ∈ l.opener.side.requests, ∀ r' ∈ l.accepter.side.requests, r.call ≠ r'.call

variable [Platform] (T : Transport τ ι)

def move (l : Link τ) : LinkMove τ ι → Link τ
  | .opener m => { l with opener := l.opener.move T m }
  | .accepter m => { l with accepter := l.accepter.move T m }

/-- A call that gets as far as being sent does not have the number of a request the other end has
sent. -/
def Apart (l : Link τ) : LinkMove τ ι → Prop
  | .opener (.call call) =>
      call.Sends l.opener.side →
        ∀ r ∈ l.accepter.side.requests, r.call ≠ l.opener.side.calls
  | .accepter (.call call) =>
      call.Sends l.accepter.side →
        ∀ r ∈ l.opener.side.requests, r.call ≠ l.accepter.side.calls
  | _ => True

end Link

section Ends

variable [Platform] {T : Transport τ ι}

variable (T) in
/-- Calls and what else happens: the requests that have been sent afterwards. -/
theorem Line.requests_move (l : Line τ) (m : Move τ ι) :
    (∃ call message, m = .call call ∧ call.Sends l.side ∧ (l.move T m).side.requests =
        l.side.requests ++ [⟨l.side.calls, call.twoway, l.side.requestId, message⟩]) ∨
      (∀ call, m = .call call → ¬ call.Sends l.side) ∧
        (l.move T m).side.requests = l.side.requests := by
  cases m with
  | call call =>
      have hside : (l.move T (.call call)).side = (l.side.issue T call).1 := by
        simp [Line.move, issueAll, Side.issueAll]
      rw [hside]
      by_cases hsends : call.Sends l.side
      · obtain ⟨message, -, hissue, -⟩ := Side.issue_of_sends T hsends
        refine .inl ⟨call, message, rfl, hsends, ?_⟩
        rw [hissue]
      · refine .inr ⟨?_, ?_⟩
        · rintro call' ⟨⟩
          exact hsends
        · rw [Side.issue_of_not_sends T hsends]
          rfl
  | resumed requestId =>
      refine .inr ⟨by rintro call ⟨⟩, ?_⟩
      rw [Line.move]
      split <;> rfl
  | below connection transport => exact .inr ⟨by rintro call ⟨⟩, rfl⟩

variable (T) in
theorem Line.calls_move (l : Line τ) (m : Move τ ι) :
    l.side.calls ≤ (l.move T m).side.calls := by
  cases m with
  | call call =>
      have hside : (l.move T (.call call)).side = (l.side.issue T call).1 := by
        simp [Line.move, issueAll, Side.issueAll]
      rw [hside, (l.side.issue_spec T call).2.1]
      exact Nat.le_succ _
  | resumed requestId =>
      rw [Line.move]
      split <;> exact le_rfl
  | below connection transport => exact le_rfl

namespace Link

/-- A move keeps the numbers apart exactly when it is apart. -/
theorem numbersApart_move {l : Link τ} (h : l.NumbersApart) (m : LinkMove τ ι) :
    (l.move T m).NumbersApart ↔ l.Apart m := by
  rw [NumbersApart] at h
  cases m with
  | opener m =>
      rcases l.opener.requests_move T m with ⟨call, message, rfl, hsends, hone⟩ | ⟨hnone, hsame⟩
      · simp only [NumbersApart, Link.move, hone, List.forall_mem_append, List.forall_mem_singleton,
          Apart]
        rw [and_iff_right h]
        exact ⟨fun h _ r hr => (h r hr).symm, fun h r hr => (h hsends r hr).symm⟩
      · rw [NumbersApart, Link.move, hsame]
        refine iff_of_true h ?_
        cases m with
        | call call => exact fun hsends => absurd hsends (hnone call rfl)
        | _ => trivial
  | accepter m =>
      rcases l.accepter.requests_move T m with ⟨call, message, rfl, hsends, hone⟩ | ⟨hnone, hsame⟩
      · simp only [NumbersApart, Link.move, hone, List.forall_mem_append, List.forall_mem_singleton,
          Apart]
        constructor
        · intro h _ r hr
          exact (h r hr).2
        · intro hapart r hr
          exact ⟨h r hr, hapart hsends r hr⟩
      · rw [NumbersApart, Link.move, hsame]
        refine iff_of_true h ?_
        cases m with
        | call call => exact fun hsends => absurd hsends (hnone call rfl)
        | _ => trivial

/-- As long as neither of the counters has wrapped around, the ids are apart when the numbers
are. -/
theorem disjoint_iff {l : Link τ} (hopener : l.opener.Consistent) (haccepter : l.accepter.Consistent)
    (hcalls : l.opener.side.calls ≤ 2 ^ 31) (hcalls' : l.accepter.side.calls ≤ 2 ^ 31) :
    l.Disjoint ↔ l.NumbersApart := by
  refine forall₂_congr fun r hr => forall₂_congr fun r' hr' => not_congr ?_
  obtain ⟨hlt, hid, -⟩ := hopener.requests r hr
  obtain ⟨hlt', hid', -⟩ := haccepter.requests r' hr'
  rw [hid, hid', ← UInt32.toNat_inj, UInt32.toNat_ofNat_of_lt' (show 2 * r.call < 2 ^ 32 by omega),
    UInt32.toNat_ofNat_of_lt' (show 2 * r'.call < 2 ^ 32 by omega)]
  omega

variable (T) in
/-- The counters do not go back. -/
theorem calls_moves (l : Link τ) (moves : List (LinkMove τ ι)) :
    l.opener.side.calls ≤ (moves.foldl (move T) l).opener.side.calls ∧
      l.accepter.side.calls ≤ (moves.foldl (move T) l).accepter.side.calls := by
  induction moves generalizing l with
  | nil => exact ⟨le_rfl, le_rfl⟩
  | cons m moves ih =>
      obtain ⟨hopener, haccepter⟩ := ih (l.move T m)
      cases m with
      | opener m => exact ⟨(l.opener.calls_move T m).trans hopener, haccepter⟩
      | accepter m => exact ⟨hopener, (l.accepter.calls_move T m).trans haccepter⟩

variable (T) in
/-- Both ends are consistent. -/
theorem consistent_moves {l : Link τ} (h : l.opener.Consistent ∧ l.accepter.Consistent)
    (moves : List (LinkMove τ ι)) :
    (moves.foldl (move T) l).opener.Consistent ∧ (moves.foldl (move T) l).accepter.Consistent := by
  induction moves generalizing l with
  | nil => exact h
  | cons m moves ih =>
      refine ih ?_
      cases m with
      | opener m => exact ⟨h.1.move m, h.2⟩
      | accepter m => exact ⟨h.1, h.2.move m⟩

end Link

/-- **Both ends of a connection use different ids exactly when there is no number for which both the
call of this number that one end makes and the one that the other end makes are sent.**  This holds
for all interleavings of less than `2 ^ 31` calls of each end. -/
theorem request_ids_disjoint_iff (T : Transport τ ι) (near far near' far' : HostAndPort)
    (transport transport' : τ) (moves : List (LinkMove τ ι)) :
    let l₀ : Link τ :=
      { opener := { side := .connectOutgoing near far.host far.port transport }
        accepter := { side := .connectIncoming near' far'.host far'.port transport' } }
    let l := moves.foldl (Link.move T) l₀
    l.opener.side.calls < 2 ^ 31 → l.accepter.side.calls < 2 ^ 31 →
    (Runs.Always (Link.move T) Link.Disjoint l₀ moves ↔
      Runs.Meets (Link.move T) Link.Apart l₀ moves) := by
  intro l₀ l hcalls hcalls'
  have hconsistent : l₀.opener.Consistent ∧ l₀.accepter.Consistent :=
    ⟨Line.consistent_initial _ _, Line.consistent_initial _ _⟩
  have hkeep : ∀ (_ : Link τ) (_ : LinkMove τ ι), True → True := fun _ _ h => h
  have hnumbers : Runs.Always (Link.move T) Link.NumbersApart l₀ moves ↔
      Runs.Meets (Link.move T) Link.Apart l₀ moves :=
    Runs.always_iff_meets hkeep (fun _ m _ h => Link.numbersApart_move h m) trivial
      (by rintro r ⟨⟩)
  rw [← hnumbers]
  refine forall₂_congr fun before hbefore => ?_
  -- what has been counted so far is not more than what is counted in the end
  obtain ⟨after, rfl⟩ := hbefore
  obtain ⟨hopener, haccepter⟩ := Link.consistent_moves T hconsistent before
  have hle := Link.calls_moves T (before.foldl (Link.move T) l₀) after
  rw [← List.foldl_append] at hle
  exact Link.disjoint_iff hopener haccepter (hle.1.trans hcalls.le) (hle.2.trans hcalls'.le)

end Ends

/-- The one who has accepted the connection sends nothing. -/
theorem request_ids_disjoint_one_way :
    letI : Platform := ⟨.little⟩
    let l₀ : Link Unit :=
      { opener := { side := .connectOutgoing ⟨ascii "near", 2810⟩ (ascii "far") 2809 () }
        accepter := { side := .connectIncoming ⟨ascii "far", 2809⟩ (ascii "near") 49152 () } }
    Runs.Always (Link.move lossless) Link.Disjoint l₀
        [.opener (.call addCall), .opener (.call addCall)] ↔
      Runs.Meets (Link.move lossless) Link.Apart l₀
        [.opener (.call addCall), .opener (.call addCall)] := by
  let : Platform := ⟨.little⟩
  exact request_ids_disjoint_iff lossless ⟨ascii "near", 2810⟩ ⟨ascii "far", 2809⟩
    ⟨ascii "far", 2809⟩ ⟨ascii "near", 49152⟩ () () _ (by decide +kernel) (by decide +kernel)

/-- One call from each end is enough: both requests carry the id zero. -/
theorem request_ids_collide :
    letI : Platform := ⟨.little⟩
    ¬ ∀ (T : Transport Unit Unit) (near far near' far' : HostAndPort)
      (moves : List (LinkMove Unit Unit)),
      let l₀ : Link Unit :=
        { opener := { side := .connectOutgoing near far.host far.port () }
          accepter := { side := .connectIncoming near' far'.host far'.port () } }
      let l := moves.foldl (Link.move T) l₀
      l.opener.side.calls < 2 ^ 31 → l.accepter.side.calls < 2 ^ 31 → l.Disjoint := by
  let : Platform := ⟨.little⟩
  intro h
  let l₀ : Link Unit :=
    { opener := { side := .connectOutgoing ⟨ascii "near", 2810⟩ (ascii "far") 2809 () }
      accepter := { side := .connectIncoming ⟨ascii "far", 2809⟩ (ascii "near") 49152 () } }
  let l := [LinkMove.opener (.call addCall), .accepter (.call addCall)].foldl (Link.move lossless) l₀
  have hopener : 0 ∈ l.opener.side.requests.map SentRequest.requestId := by decide +kernel
  have haccepter : 0 ∈ l.accepter.side.requests.map SentRequest.requestId := by decide +kernel
  obtain ⟨r, hr, hzero⟩ := List.mem_map.1 hopener
  obtain ⟨r', hr', hzero'⟩ := List.mem_map.1 haccepter
  exact h lossless ⟨ascii "near", 2810⟩ ⟨ascii "far", 2809⟩ ⟨ascii "far", 2809⟩
    ⟨ascii "near", 49152⟩ [.opener (.call addCall), .accepter (.call addCall)] (by decide +kernel)
    (by decide +kernel) r hr r' hr' (hzero.trans hzero'.symm)

end Corba
