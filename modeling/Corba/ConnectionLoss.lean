/-
Connections that are lost.

When a handler of the event loop finds the transport gone, the callers that are parked wait for
answers that do not come any more.  Some of the handlers resume them all, in a loop that goes on as
long as somebody is parked.  A caller that is resumed with the exception can catch it and call again,
and is then parked again before the loop looks for the next one.

Main definitions:

* `Corba.tcp`, `Corba.ws` — what is below a connection;
* `Corba.callers`, `Corba.unwind` — callers that make further calls, and a handler with the loop;
* `Corba.Spares` — the loop ends and has resumed exactly those who were parked when it began;
* `Corba.TcpHandler.FindsGone`, `Corba.TornDown` — a lost connection, and what is to be left of it.

Main results:

* `Corba.spares_iff_quiet` — the loops of both kinds of connections spare new calls exactly when
  there are none;
* `Corba.torn_down_iff` — exactly when a lost connection fails all its callers.
-/

import Corba.OrbCalls
import Corba.TcpRuns
import Corba.WsConnection

set_option relaxedAutoImplicit false
set_option autoImplicit false

namespace Corba

open Layout Exec Interlock

/-! ### Transports -/

/-- What a run has thrown. -/
def thrown {σ α : Type} : EStateM.Result Fault σ α → Option Thrown
  | .error (.thrown t) _ => some t
  | _ => none

def tcp : Transport TcpConnection ConnectResult where
  send connect message c :=
    let r := TcpConnection.send message connect c
    (State r, thrown r)

def ws : Transport WsConnection (ConnectResult × WslayAnswer) where
  send input message c :=
    let r := WsConnection.send message input.1 input.2 c
    (State r, thrown r)

/-! ### The loop over the callers -/

section Loop

variable {τ ι : Type} [Platform]

/-- What the callers do that are resumed: each of them makes some calls until it is suspended. -/
def callers (T : Transport τ ι) (calls : ℕ → List (Call ι)) : Reaction UInt32 ℕ (Side τ) :=
  fun k s => s.issueAll T (calls k)

/-- A handler, and the loop when it ends with an exception, after a number of rounds.  Everybody who
is resumed is resumed with this exception. -/
def unwind (T : Transport τ ι) (first : Begin UInt32 ℕ) (calls : ℕ → List (Call ι))
    (r : EStateM.Result Fault τ (Option SystemException)) (n : ℕ) (s : Side τ)
    (waiting : Waiting) : Unwinding UInt32 ℕ (Side τ) :=
  match r with
  | .ok (some _) transport => rounds first (callers T calls) n { s with transport } waiting
  | .ok none transport => { ambient := { s with transport }, parked := waiting }
  | .error _ transport => { ambient := { s with transport }, parked := waiting }

/-- The loop ends, has resumed everybody who was parked when it began, each of them once, and nobody
else. -/
def Spares (T : Transport τ ι) (first : Begin UInt32 ℕ) (calls : ℕ → List (Call ι))
    (r : EStateM.Result Fault τ (Option SystemException)) (s : Side τ) (waiting : Waiting) : Prop :=
  ∃ n, (unwind T first calls r n s waiting).parked = [] ∧
    (unwind T first calls r n s waiting).resumed.Perm waiting

/-- None of the callers makes a call after which it is parked again. -/
def NobodyParks (T : Transport τ ι) (calls : ℕ → List (Call ι)) (s : Side τ) (n : ℕ) : Prop :=
  Quiet (callers T calls) s n

theorem spares_iff (T : Transport τ ι) (first : Begin UInt32 ℕ) (calls : ℕ → List (Call ι))
    {r : EStateM.Result Fault τ (Option SystemException)} {e : SystemException} {transport : τ}
    (h : r = .ok (some e) transport) (s : Side τ) (waiting : Waiting) :
    Spares T first calls r s waiting ↔ NobodyParks T calls { s with transport } waiting.length := by
  subst h
  exact ends_iff_quiet first (callers T calls) { s with transport } waiting

/-- A handler that ends without an exception resumes nobody. -/
theorem unwind_of_nobody (T : Transport τ ι) (first : Begin UInt32 ℕ) (calls : ℕ → List (Call ι))
    {r : EStateM.Result Fault τ (Option SystemException)}
    (h : ∀ e transport, r = .ok e transport → e = none) (n : ℕ) (s : Side τ) (waiting : Waiting) :
    unwind T first calls r n s waiting =
      { ambient := { s with transport := State r }, parked := waiting } := by
  cases r with
  | error f transport => rfl
  | ok e transport =>
      obtain rfl := h e transport rfl
      rfl

end Loop

namespace WsConnection

/-- The connection after the timer has expired. -/
def timedOut (c : WsConnection) : WsConnection :=
  { c.closed with state := .idle, readWatcher := false, timerRunning := false }

theorem timer_inprogress {c : WsConnection} (h : c.state = .inprogress) :
    timer c = .ok (some ⟨.timeout, 0, .no⟩) c.timedOut := by
  obtain ⟨l, upgrade, state, fd, r, w, active, running, headers, key, ctx, buffer, sockets, uses⟩ :=
    c
  obtain rfl : state = .inprogress := h
  rfl

end WsConnection

namespace TcpConnection

/-- The connection after reading has failed. -/
def unreadable (c : TcpConnection) : TcpConnection := { c.roomy.broken with readWatcher := false }

/-- The connection after the timer has expired. -/
def timedOut (c : TcpConnection) : TcpConnection :=
  { c.broken with readWatcher := false, timerRunning := false }

end TcpConnection

/-- **The loops that fail the pending calls end, resume each of them once and nobody else exactly when
none of those who are resumed is parked again.**  This holds of all three loops, for all sets of
pending calls, whichever of them comes first, and for everything those who are resumed do. -/
theorem spares_iff_quiet [Platform] (first : Begin UInt32 ℕ) (waiting : Waiting) :
    (∀ (s : Side TcpConnection) (calls : ℕ → List (Call ConnectResult)) (result : RecvResult)
      (recv : ℕ → Option Thrown), s.transport.fd = none ∨ result = .failed →
      (Spares tcp first calls (TcpConnection.canRead result recv s.transport) s waiting ↔
        NobodyParks tcp calls { s with transport := s.transport.unreadable } waiting.length)) ∧
    (∀ (s : Side TcpConnection) (calls : ℕ → List (Call ConnectResult)),
      s.transport.state = .inprogress →
      (Spares tcp first calls (TcpConnection.timer s.transport) s waiting ↔
        NobodyParks tcp calls { s with transport := s.transport.timedOut } waiting.length)) ∧
    (∀ (s : Side WsConnection) (calls : ℕ → List (Call (ConnectResult × WslayAnswer))),
      s.transport.state = .inprogress →
      (Spares ws first calls (WsConnection.timer s.transport) s waiting ↔
        NobodyParks ws calls { s with transport := s.transport.timedOut } waiting.length)) := by
  refine ⟨fun s calls result recv h => ?_, fun s calls h => ?_, fun s calls h => ?_⟩
  · exact spares_iff tcp first calls (TcpConnection.canRead_lost h recv) s waiting
  · exact spares_iff tcp first calls (TcpConnection.timer_inprogress h) s waiting
  · exact spares_iff ws first calls (WsConnection.timer_inprogress h) s waiting

/-- A connection that is established. -/
def established : TcpConnection := { state := .established, fd := some 3, sockets := [⟨false, [], false⟩] }

/-- Two callers that do nothing more. -/
theorem spares_iff_quiet_resigned :
    letI : Platform := ⟨.little⟩
    Spares tcp (.oldest _ _) (fun _ => [])
      (TcpConnection.canRead .failed (fun _ => none) established)
      { connection := ORB.addConnection, transport := established } [(0, 0), (2, 1)] := by
  let : Platform := ⟨.little⟩
  refine ((spares_iff_quiet (.oldest _ _) [(0, 0), (2, 1)]).1
    { connection := ORB.addConnection, transport := established } (fun _ => []) .failed
    (fun _ => none) (.inr rfl)).2 ?_
  intro k hk
  rfl

/-- A caller that calls again on the same connection is resumed again, with an exception that is not
about its new call. -/
theorem caller_calls_again :
    letI : Platform := ⟨.little⟩
    ∃ (s : Side TcpConnection) (calls : ℕ → List (Call ConnectResult)),
      s.transport = established ∧
        ¬ Spares tcp (.oldest _ _) calls (TcpConnection.canRead .failed (fun _ => none) s.transport) s
          [(0, 0)] := by
  let : Platform := ⟨.little⟩
  let s : Side TcpConnection :=
    { connection := ORB.addConnection, transport := established, requestId := 2, calls := 1 }
  let again : Call ConnectResult :=
    ⟨true, ascii "A", cString (ascii "add"), { calls := [] }, .opened 4 true⟩
  refine ⟨s, fun _ => [again], rfl, fun h => ?_⟩
  rw [spares_iff tcp (.oldest _ _) _ (TcpConnection.canRead_lost (.inr rfl) _)] at h
  have hnone := h 0 (by decide)
  exact absurd hnone (by decide +kernel)

/-! ### Calls that do not get as far as `send` -/

section Silent

variable {τ ι : Type} [Platform]

/-- None of the calls, which are made one after the other, gets as far as `send`. -/
def Side.Silent (T : Transport τ ι) : List (Call ι) → Side τ → Prop
  | [], _ => True
  | call :: calls, s => ¬ call.Sends s ∧ (s.issue T call).1.Silent T calls

/-- Silent calls park nobody. -/
theorem Side.Silent.issueAll {T : Transport τ ι} {calls : List (Call ι)} {s : Side τ}
    (h : s.Silent T calls) :
    (s.issueAll T calls).2 = [] ∧ (s.issueAll T calls).1.transport = s.transport := by
  induction calls generalizing s with
  | nil => exact ⟨rfl, rfl⟩
  | cons call calls ih =>
      obtain ⟨hnot, hrest⟩ := h
      rw [Side.issue_of_not_sends T hnot] at hrest
      obtain ⟨hnone, hsame⟩ := ih hrest
      rw [Side.issueAll, Side.issue_of_not_sends T hnot]
      exact ⟨hnone, hsame⟩

end Silent

/-! ### Lost connections -/

/-- The functions of a TCP connection the event loop calls. -/
inductive TcpHandler where
  | canWrite (peer : Bool) (results : List SendResult)
  | canRead (result : RecvResult) (recv : ℕ → Option Thrown)
  | timer

namespace TcpHandler

variable [Platform]

/-- The callers that are parked are resumed when it ends with an exception. -/
def run : TcpHandler → TcpM (Option SystemException)
  | .canWrite peer results => do
      TcpConnection.canWrite peer results
      return none
  | .canRead result recv => TcpConnection.canRead result recv
  | .timer => TcpConnection.timer

omit [Platform] in
/-- The handler finds the transport gone. -/
inductive FindsGone (c : TcpConnection) : TcpHandler → Prop
  | endOfStream {octets : Octets} {recv : ℕ → Option Thrown} (hfd : c.fd ≠ none)
      (hnone : octets.take c.roomy.stream2packet.length = []) :
      FindsGone c (.canRead (.received octets) recv)
  | recvFailed {result : RecvResult} {recv : ℕ → Option Thrown}
      (hresult : c.fd = none ∨ result = .failed) : FindsGone c (.canRead result recv)
  | brokenPipe {peer : Bool} {results : List SendResult} {c' : TcpConnection}
      (hpeer : ¬ c.NotConnected peer) (hflush : TcpConnection.flush results c.quiet = .ok false c') :
      FindsGone c (.canWrite peer results)
  | notConnected {peer : Bool} {results : List SendResult} (hpeer : c.NotConnected peer) :
      FindsGone c (.canWrite peer results)
  | expired (hstate : c.state = .inprogress) : FindsGone c .timer

end TcpHandler

/-- What is to be left of a lost connection: nobody is parked any more, since everybody has been
resumed, and there is no socket. -/
structure TornDown (waiting : Waiting) (u : Unwinding UInt32 ℕ (Side TcpConnection)) : Prop where
  parked : u.parked = []
  resumed : ∀ e ∈ waiting, e ∈ u.resumed
  fd : u.ambient.transport.fd = none
  closed : ∀ k ∈ u.ambient.transport.sockets, k.closed = true
  state : u.ambient.transport.state = .idle

/-- None of the callers makes a call that gets as far as `send`. -/
def NobodySends [Platform] (calls : ℕ → List (Call ConnectResult)) (s : Side TcpConnection)
    (n : ℕ) : Prop :=
  ∀ k < n, (after (callers tcp calls) s k).Silent tcp (calls k)

section Loss

variable [Platform]

omit [Platform] in
/-- Once an attempt to connect has been made, no call makes the connection idle again. -/
theorem send_not_idle {c : TcpConnection} (h : c.state = .idle → c.fd = none)
    (connect : ConnectResult) (message : Octets) :
    (tcp.send connect message c).1.state ≠ .idle := by
  show (State (TcpConnection.send message connect c)).state ≠ .idle
  rw [TcpConnection.send_run]
  cases hstate : c.state with
  | idle =>
      have hfd : (c.queued message).fd = none := h hstate
      cases connect with
      | failed peer error =>
          dsimp only
          rw [TcpConnection.up_failed hfd]
          nofun
      | opened fd inProgress =>
          dsimp only
          rw [TcpConnection.up_opened hfd]
          cases inProgress <;> nofun
  | _ =>
      intro hidle
      have hidle : c.state = .idle := hidle
      rw [hstate] at hidle
      cases hidle

theorem issue_not_idle {s : Side TcpConnection} (h : s.transport.state ≠ .idle)
    (call : Call ConnectResult) : (s.issue tcp call).1.transport.state ≠ .idle := by
  obtain ⟨-, -, -, ⟨-, -, hsame⟩ | ⟨message, -, -, hsent, -⟩⟩ := s.issue_spec tcp call
  · rw [hsame]
    exact h
  · rw [hsent]
    exact send_not_idle (fun hidle => absurd hidle h) _ _

theorem issueAll_not_idle (calls : List (Call ConnectResult)) {s : Side TcpConnection}
    (h : s.transport.state ≠ .idle) : (s.issueAll tcp calls).1.transport.state ≠ .idle := by
  induction calls generalizing s with
  | nil => exact h
  | cons call calls ih => exact ih (issue_not_idle h call)

/-- A call that gets as far as `send` connects again. -/
theorem issueAll_of_not_silent {calls : List (Call ConnectResult)} {s : Side TcpConnection}
    (hfd : s.transport.fd = none) (h : ¬ s.Silent tcp calls) :
    (s.issueAll tcp calls).1.transport.state ≠ .idle := by
  induction calls generalizing s with
  | nil => exact absurd trivial h
  | cons call calls ih =>
      by_cases hsends : call.Sends s
      · obtain ⟨message, -, hissue, -⟩ := Side.issue_of_sends tcp hsends
        refine issueAll_not_idle calls ?_
        rw [hissue]
        exact send_not_idle (fun _ => hfd) _ _
      · refine ih ?_ fun hsilent => h ⟨hsends, hsilent⟩
        rw [Side.issue_of_not_sends tcp hsends]
        exact hfd

/-- The connection stays as it is as long as nobody sends, and is not idle any more afterwards. -/
theorem after_callers (calls : ℕ → List (Call ConnectResult)) {s : Side TcpConnection}
    (hfd : s.transport.fd = none) (n : ℕ) :
    NobodySends calls s n ∧ (after (callers tcp calls) s n).transport = s.transport ∨
      ¬ NobodySends calls s n ∧ (after (callers tcp calls) s n).transport.state ≠ .idle := by
  induction n with
  | zero => exact .inl ⟨fun k hk => absurd hk (Nat.not_lt_zero k), rfl⟩
  | succ n ih =>
      rcases ih with ⟨hsilent, hsame⟩ | ⟨hsends, hidle⟩
      · by_cases hlast : (after (callers tcp calls) s n).Silent tcp (calls n)
        · refine .inl ⟨fun k hk => ?_, hlast.issueAll.2.trans hsame⟩
          rcases Nat.lt_succ_iff_lt_or_eq.1 hk with hk | rfl
          · exact hsilent k hk
          · exact hlast
        · refine .inr ⟨fun hall => hlast (hall n (Nat.lt_succ_self n)), ?_⟩
          exact issueAll_of_not_silent (hsame ▸ hfd) hlast
      · refine .inr ⟨fun hall => hsends fun k hk => hall k (Nat.lt_succ_of_lt hk), ?_⟩
        exact issueAll_not_idle _ hidle

/-- The loop leaves an idle connection as it is to be left exactly when nobody sends. -/
theorem rounds_torn_down_iff (first : Begin UInt32 ℕ) (calls : ℕ → List (Call ConnectResult))
    {s : Side TcpConnection} (hsound : s.transport.Sound) (hfd : s.transport.fd = none)
    (hstate : s.transport.state = .idle) (waiting : Waiting) :
    (∃ n, TornDown waiting (rounds first (callers tcp calls) n s waiting)) ↔
      NobodySends calls s waiting.length := by
  constructor
  · rintro ⟨n, htorn⟩
    obtain ⟨hambient, hperm⟩ := rounds_accounts first (callers tcp calls) s waiting n
    have hcount := hperm.length_eq
    rw [htorn.parked, List.append_nil, List.length_append] at hcount
    have hidle := htorn.state
    rw [hambient] at hidle
    rcases after_callers calls hfd (rounds first (callers tcp calls) n s waiting).resumed.length with
      ⟨hsilent, -⟩ | ⟨-, hnot⟩
    · intro k hk
      exact hsilent k (by omega)
    · exact absurd hidle hnot
  · intro hsilent
    have hquiet : Quiet (callers tcp calls) s waiting.length :=
      fun k hk => (hsilent k hk).issueAll.1
    obtain ⟨n, hparked, hresumed⟩ := (ends_iff_quiet first (callers tcp calls) s waiting).2 hquiet
    obtain ⟨hambient, -⟩ := rounds_accounts first (callers tcp calls) s waiting n
    have hsame : (rounds first (callers tcp calls) n s waiting).ambient.transport =
        s.transport := by
      rw [hambient, hresumed.length_eq]
      rcases after_callers calls hfd waiting.length with ⟨-, hsame⟩ | ⟨hsends, -⟩
      · exact hsame
      · exact absurd hsilent hsends
    refine ⟨n, hparked, fun e he => hresumed.symm.subset he, ?_, ?_, ?_⟩
    · rw [hsame]
      exact hfd
    · rw [hsame]
      exact hsound.gone hfd
    · rw [hsame]
      exact hstate

/-- When a handler that finds the transport gone leaves things as they are to be left. -/
def TcpHandler.TearsDown (calls : ℕ → List (Call ConnectResult)) (s : Side TcpConnection)
    (waiting : Waiting) : TcpHandler → Prop
  | .canWrite _ _ => waiting = []
  | .canRead result _ => (s.transport.fd = none ∨ result = .failed) ∧
      NobodySends calls { s with transport := s.transport.unreadable } waiting.length
  | .timer => NobodySends calls { s with transport := s.transport.timedOut } waiting.length

omit [Platform] in
theorem sound_unreadable {c : TcpConnection} (h : c.Sound) : c.unreadable.Sound := by
  have hroomy : c.roomy.Sound := h.watched ..
  exact hroomy.broken.watched ..

omit [Platform] in
theorem sound_timedOut {c : TcpConnection} (h : c.Sound) : c.timedOut.Sound :=
  h.broken.watched ..

omit [Platform] in
/-- A handler that resumes nobody leaves things as they are to be left exactly when nobody waits and
the socket has been closed. -/
theorem torn_down_of_ok {c : TcpConnection} (hsound : c.Sound) (s : Side TcpConnection) (waiting : Waiting) :
    TornDown waiting { ambient := { s with transport := c.broken }, parked := waiting } ↔
      waiting = [] := by
  constructor
  · intro htorn
    exact htorn.parked
  · rintro rfl
    exact ⟨rfl, by simp, rfl, hsound.broken.gone rfl, rfl⟩

/-- **A lost connection fails all its callers exactly when the handler resumes them and nobody calls
again.**  This holds in every state a connection can reach. -/
theorem torn_down_iff (events : List TcpEvent) (first : Begin UInt32 ℕ)
    (calls : ℕ → List (Call ConnectResult)) {s : Side TcpConnection}
    (hreached : s.transport = events.foldl TcpConnection.step {}) (waiting : Waiting)
    {handler : TcpHandler} (hgone : handler.FindsGone s.transport) :
    (∃ n, TornDown waiting (unwind tcp first calls (handler.run s.transport) n s waiting)) ↔
      handler.TearsDown calls s waiting := by
  have hsound : s.transport.Sound := by
    rw [hreached]
    exact TcpConnection.sound_run events
  cases hgone with
  | @endOfStream octets recv hfd hnone =>
      obtain ⟨hreceived, hnobody⟩ := TcpConnection.received_canRead hfd octets recv
      have hfd' := hreceived.fd ▸ hfd
      refine iff_of_false ?_ ?_
      · rintro ⟨n, htorn⟩
        have hunwind := unwind_of_nobody tcp first calls hnobody n s waiting
        exact hfd' ((congrArg (·.ambient.transport.fd) hunwind).symm.trans htorn.fd)
      · rintro ⟨hnone | hfailed, -⟩
        · exact hfd hnone
        · cases hfailed
  | recvFailed hresult =>
      rw [TcpHandler.run, TcpConnection.canRead_lost hresult]
      refine (rounds_torn_down_iff first calls (sound_unreadable hsound) rfl rfl waiting).trans ?_
      exact (and_iff_right hresult).symm
  | @brokenPipe peer results c' hpeer hflush =>
      have hrun : (TcpHandler.canWrite peer results).run s.transport = .ok none c'.broken := by
        rw [TcpHandler.run, bind_ok (TcpConnection.canWrite_run hpeer hflush)]
        rfl
      obtain ⟨alive, c'', out, hflush', hflushed⟩ :=
        TcpConnection.flush_spec results (c := s.transport.quiet) hsound.fronted
      cases hflush.symm.trans hflush'
      rw [hrun]
      exact (exists_const ℕ).trans (torn_down_of_ok (hsound.flushed hflushed) s waiting)
  | @notConnected peer results hpeer =>
      have hrun : (TcpHandler.canWrite peer results).run s.transport =
          .ok none s.transport.quiet.broken := by
        rw [TcpHandler.run, bind_ok (TcpConnection.canWrite_notConnected hpeer results)]
        rfl
      have hquiet : s.transport.quiet.Sound :=
        hsound.watched ..
      rw [hrun]
      exact (exists_const ℕ).trans (torn_down_of_ok hquiet s waiting)
  | expired hstate =>
      rw [TcpHandler.run, TcpConnection.timer_inprogress hstate]
      exact rounds_torn_down_iff first calls (sound_timedOut hsound) rfl rfl waiting

end Loss

/-- The answer to a call cannot be read, and its caller does nothing more. -/
theorem torn_down_iff_unreadable :
    letI : Platform := ⟨.little⟩
    let s : Side TcpConnection :=
      { connection := ORB.addConnection
        transport := [TcpEvent.send [1] (.opened 3 false)].foldl TcpConnection.step {} }
    ∃ n, TornDown [(0, 0)] (unwind tcp (.oldest _ _) (fun _ => [])
      ((TcpHandler.canRead .failed fun _ => none).run s.transport) n s [(0, 0)]) := by
  let : Platform := ⟨.little⟩
  intro s
  refine (torn_down_iff [.send [1] (.opened 3 false)] (.oldest _ _) (fun _ => []) rfl [(0, 0)]
    (.recvFailed (.inr rfl))).2 ⟨.inr rfl, ?_⟩
  intro k hk
  trivial

/-- The far end closes the connection.  Nobody who waits for an answer learns of it, and the socket
stays open. -/
theorem end_of_stream_unnoticed :
    letI : Platform := ⟨.little⟩
    ∃ (events : List TcpEvent) (s : Side TcpConnection),
      s.transport = events.foldl TcpConnection.step {} ∧
        (TcpHandler.canRead (.received []) fun _ => none).FindsGone s.transport ∧
        ¬ ∃ n, TornDown [(0, 0)] (unwind tcp (.oldest _ _) (fun _ => [])
          ((TcpHandler.canRead (.received []) fun _ => none).run s.transport) n s [(0, 0)]) := by
  let : Platform := ⟨.little⟩
  refine ⟨[.send [1] (.opened 3 true), .canWrite true [.sent 1]],
    { connection := ORB.addConnection
      transport := [TcpEvent.send [1] (.opened 3 true), .canWrite true [.sent 1]].foldl
        TcpConnection.step {} }, rfl, .endOfStream (by decide) rfl, ?_⟩
  rintro ⟨n, htorn⟩
  exact Option.some_ne_none 3 htorn.fd

end Corba
