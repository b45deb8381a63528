/-
Two connections on one socket.

One process has connected and the other one has accepted.  Both of them send and receive on the same
socket, in any interleaving: `send` queues packets, the operating system takes as much of the queue as
it likes, carries what it has taken to the other end in its order, and hands it out in pieces of its
own.  What each end hands to `ORB::socketRcvd` are the packets that have been passed to `send` at the
other end.

Main definitions:

* `Corba.TcpLink`, `Corba.TcpLink.step` — two connections and what happens at one of them;
* `Corba.TcpLink.Carries` — the operating system hands out what has been written at the other end;
* `Corba.Delivered` — what has become of the packets of the other end.

Main results:

* `Corba.TcpConnection.Passes.accepted` — what is written to the socket in one step;
* `Corba.TcpLink.Inv.step` — one step at one end keeps what is known about both;
* `Corba.tcp_link_delivers` — **the messages an end hands out are the first ones of the packets that have
  been passed to `send` at the other end, and all of which everything has been received.**
-/

import Corba.OrbStream
import Corba.TcpOutflow
import Corba.TcpReads

set_option relaxedAutoImplicit false
set_option autoImplicit false

namespace Corba

open Exec

namespace TcpConnection

/-! ### What is written to the socket -/

/-- What the socket has taken, and what has not been sent yet, as long as there is this socket. -/
theorem Passes.accepted {c c' : TcpConnection} {packets : List Octets} (hsound : c.Sound)
    (hfd : c.fd ≠ none) (h : c.Passes c' packets) :
    c'.accepted ++ c'.unsent = c.accepted ++ c.unsent ++ packets.flatten := by
  have hall := h.transmitted hsound
  rw [transmitted_eq, transmitted_eq, h.acceptedBefore_kept hfd] at hall
  simp only [List.append_assoc] at hall ⊢
  exact List.append_cancel_left hall

theorem Continues.mono {c : TcpConnection} {stream stream' : Octets} (hstream : stream <+: stream')
    {event : TcpEvent} (h : c.Continues stream event) : c.Continues stream' event := by
  cases event with
  | canRead result recv =>
      cases result with
      | received octets => exact List.IsPrefix.trans h hstream
      | _ => exact h
  | _ => exact h

/-- A connection without a socket, of which nothing has been sent or received in part. -/
structure Between (c : TcpConnection) : Prop where
  fd : c.fd = none
  bytesSend : c.bytesSend = 0
  empty : c.stream2packet.Empty

/-- A socket that has just been got: what is queued is to be sent, and what will be received is the
stream from its beginning. -/
theorem Between.opening [Platform] {before : List TcpEvent}
    (h : (before.foldl step ({} : TcpConnection)).Between) {opening : TcpEvent} {all : List Octets}
    (hall : ∀ m ∈ all, WellFormed m)
    (hfd : ((before.foldl step ({} : TcpConnection)).step opening).fd ≠ none) :
    let c₀ := before.foldl step ({} : TcpConnection)
    (c₀.step opening).accepted ++ (c₀.step opening).unsent =
        (c₀.sendBuffer ++ packets [opening]).flatten ∧
      (c₀.step opening).Reads all all ∧ (c₀.step opening).stream2packet.Empty := by
  have hsound := sound_run before
  have hcompact := compact_run before
  generalize before.foldl step ({} : TcpConnection) = c₀ at h hfd hsound hcompact
  obtain ⟨hnone, hbytes, hempty⟩ := h
  refine ⟨?_, ?_⟩
  · have hunsent : c₀.unsent = c₀.sendBuffer.flatten := by rw [unsent, hbytes, List.drop_zero]
    rw [List.flatten_append, ← hunsent]
    exact @accepted_unsent _ c₀ hsound hnone opening [] (Runs.always_nil.2 hfd)
  · by_cases hread : ∃ result recv, opening = .canRead result recv
    · obtain ⟨result, recv, rfl⟩ := hread
      refine absurd ?_ hfd
      rw [step, canRead_lost (.inl hnone)]
      rfl
    · push Not at hread
      obtain ⟨hstream, ⟨-, -, hinflows⟩ | ⟨-, hkept, -⟩⟩ := step_inflow hsound opening hread
      · exact ⟨Reads.opening hempty hcompact hall hstream hinflows, hstream ▸ hempty⟩
      · exact absurd hnone (hkept hfd)

end TcpConnection

/-! ### Two connections -/

/-- The connections at the two ends of a socket. -/
abbrev TcpLink := Bool → TcpConnection

/-- Something happens at one of the ends. -/
structure TcpLinkEvent where
  near : Bool
  event : TcpEvent

namespace TcpLink

variable (platforms : Bool → Platform)

def step (l : TcpLink) (e : TcpLinkEvent) : TcpLink :=
  Function.update l e.near (@TcpConnection.step (platforms e.near) (l e.near) e.event)

/-- Each end has got the socket, one of them with `up` or `send` and the other one with `accept`. -/
def start (before : Bool → List TcpEvent) (opening : Bool → TcpEvent) : TcpLink := fun s =>
  @TcpConnection.step (platforms s)
    ((before s).foldl (@TcpConnection.step (platforms s)) {}) (opening s)

/-- Both ends have the socket. -/
def Up (l : TcpLink) : Prop := ∀ s, (l s).fd ≠ none

/-- The operating system hands out what has been written at the other end, in its order. -/
def Carries (l : TcpLink) (e : TcpLinkEvent) : Prop :=
  (l e.near).Continues (l !e.near).accepted e.event

/-- What happens at one end. -/
def eventsAt (s : Bool) : List TcpLinkEvent → List TcpEvent
  | [] => []
  | e :: es => if e.near = s then e.event :: eventsAt s es else eventsAt s es

/-- The packets that are queued at an end when it gets the socket, and those that are passed to `send`
from then on. -/
def sent (before : Bool → List TcpEvent) (opening : Bool → TcpEvent) (during : List TcpLinkEvent)
    (s : Bool) : List Octets :=
  ((before s).foldl (@TcpConnection.step (platforms s)) {}).sendBuffer ++
    TcpConnection.packets (opening s :: eventsAt s during)

/-- What is known about both ends, when `later` is going to happen. -/
structure Inv (all : Bool → List Octets) (calm : Prop) (l : TcpLink)
    (later : List TcpLinkEvent) : Prop where
  sound : ∀ s, (l s).Sound
  up : l.Up
  writes : ∀ s, (l s).accepted ++ (l s).unsent ++
    (TcpConnection.packets (eventsAt s later)).flatten = (all s).flatten
  reads : ∀ s, TcpConnection.ReadsOn (all !s) calm (l s)

variable {platforms} {all : Bool → List Octets} {calm : Prop} {l : TcpLink} {e : TcpLinkEvent}
  {later : List TcpLinkEvent}

/-- **One step at one end.** -/
theorem Inv.step (h : Inv all calm l (e :: later)) (hlong : ∀ s, ∀ m ∈ all s, 16 ≤ m.length)
    (hup : (l.step platforms e).Up) (hcarries : l.Carries e)
    (hcalm : calm → TcpConnection.Calm e.event) : Inv all calm (l.step platforms e) later := by
  obtain ⟨near, event⟩ := e
  let : Platform := platforms near
  have hnear : l.step platforms ⟨near, event⟩ near = (l near).step event := Function.update_self ..
  have hfar : ∀ s, s ≠ near → l.step platforms ⟨near, event⟩ s = l s := fun s hs =>
    Function.update_of_ne hs ..
  have hpasses := TcpConnection.passes_step (h.sound near) event
  refine ⟨fun s => ?_, hup, fun s => ?_, fun s => ?_⟩
  · by_cases hs : s = near
    · subst hs
      rw [hnear]
      exact (h.sound s).step event
    · rw [hfar s hs]
      exact h.sound s
  · have hwrites := h.writes s
    by_cases hs : s = near
    · subst hs
      rw [eventsAt, if_pos rfl, show event :: eventsAt s later = [event] ++ eventsAt s later from rfl,
        TcpConnection.packets_append, List.flatten_append] at hwrites
      rw [hnear, hpasses.accepted (h.sound s) (h.up s), ← hwrites]
      simp only [List.append_assoc]
    · rw [eventsAt, if_neg fun heq => hs heq.symm] at hwrites
      rw [hfar s hs]
      exact hwrites
  · by_cases hs : s = near
    · subst hs
      rw [hnear]
      obtain ⟨later', hreads⟩ := (h.reads s).reads
      -- what the far end has written are octets of its packets
      have hstream : (l !s).accepted <+: (all !s).flatten := by
        rw [← h.writes !s, List.append_assoc]
        exact List.prefix_append _ _
      have hon := hreads.step (hlong !s) (h.sound s) (h.up s) (hcarries.mono hstream)
      exact ⟨hon.reads, fun hc => hon.caught ⟨hcalm hc, (h.reads s).caught hc⟩⟩
    · rw [hfar s hs]
      exact h.reads s

/-- **All steps.** -/
theorem Inv.run (h : Inv all calm l later) (hlong : ∀ s, ∀ m ∈ all s, 16 ≤ m.length)
    (hup : Runs.Always (TcpLink.step platforms) Up l later)
    (hcarries : Runs.Meets (TcpLink.step platforms) Carries l later)
    (hcalm : calm → ∀ e ∈ later, TcpConnection.Calm e.event) :
    Inv all calm (later.foldl (TcpLink.step platforms) l) [] := by
  induction later generalizing l with
  | nil => exact h
  | cons e later ih =>
      obtain ⟨-, hup⟩ := Runs.always_cons.1 hup
      obtain ⟨he, hcarries⟩ := Runs.meets_cons.1 hcarries
      refine ih (h.step hlong hup.first he fun hc => hcalm hc e (List.mem_cons_self ..)) hup hcarries
        fun hc e' he' => hcalm hc e' (List.mem_cons_of_mem _ he')

/-- Both ends have got the socket. -/
theorem Inv.start {before : Bool → List TcpEvent} {opening : Bool → TcpEvent}
    {during : List TcpLinkEvent}
    (hbetween : ∀ s, ((before s).foldl (@TcpConnection.step (platforms s)) {}).Between)
    (hup : (TcpLink.start platforms before opening).Up)
    (hsent : ∀ s, ∀ m ∈ sent platforms before opening during s, WellFormed m ∧ 16 ≤ m.length) :
    Inv (sent platforms before opening during) calm (TcpLink.start platforms before opening)
      during := by
  have hopened := fun s => @TcpConnection.Between.opening (platforms s) (before s) (hbetween s)
    (opening s) (sent platforms before opening during !s) (fun m hm => (hsent (!s) m hm).1) (hup s)
  refine ⟨fun s => ?_, hup, fun s => ?_, fun s => ?_⟩
  · let : Platform := platforms s
    exact (TcpConnection.sound_run (before s)).step (opening s)
  · rw [sent, show opening s :: eventsAt s during = [opening s] ++ eventsAt s during from rfl,
      TcpConnection.packets_append, ← List.append_assoc, List.flatten_append, ← (hopened s).1]
    rfl
  · obtain ⟨-, hreads, hempty⟩ := hopened s
    refine ⟨⟨_, hreads⟩, fun _ => ⟨_, hreads, ?_⟩⟩
    have hnone : (TcpLink.start platforms before opening s).stream2packet.pending = [] := hempty.1
    rw [hnone]
    exact (holding_start 0 fun m hm => (hsent (!s) m hm).1).2

end TcpLink

/-- What has become of the packets that have been sent to an end of a socket. -/
structure Delivered (sent : List Octets) (calm : Prop) (near far : TcpConnection) : Prop where
  -- they are handed out in their order, and none of them twice
  once : near.inflow.messages <+: sent
  whole : calm → near.inflow.messages = Framing.arrived sent near.inflow.received.length
  all : calm → far.sendBuffer = [] → near.inflow.received = far.accepted →
    near.inflow.messages = sent

/-- What is known about both ends in the end. -/
theorem TcpLink.Inv.delivered {all : Bool → List Octets} {calm : Prop} {l : TcpLink}
    (h : Inv all calm l []) (s : Bool) : Delivered (all !s) calm (l s) (l !s) := by
  obtain ⟨later, hreads⟩ := (h.reads s).reads
  have hwhole : calm →
      (l s).inflow.messages = Framing.arrived (all !s) (l s).inflow.received.length := by
    intro hcalm
    obtain ⟨later', hreads', hnone⟩ := (h.reads s).caught hcalm
    exact hreads'.messages_eq hnone
  refine ⟨?_, hwhole, fun hcalm hsent hreceived => ?_⟩
  · rw [← hreads.messages]
    exact List.prefix_append _ _
  · have hwrites := h.writes !s
    have hunsent : (l !s).unsent = [] := by simp [TcpConnection.unsent, hsent]
    have hnil : (TcpConnection.packets (eventsAt (!s) [])).flatten = [] := rfl
    rw [hunsent, hnil, List.append_nil, List.append_nil] at hwrites
    rw [hwhole hcalm, hreceived, hwrites, Framing.arrived_all]

/-- **The messages each end of a socket hands out are the packets that have been passed to `send` at
the other end.**  They are handed out in their order and none of them twice, however the operating
system cuts the two streams and whatever else happens at both ends meanwhile.  As long as nothing is
thrown by what is done with a message, all of which everything has been received are handed out, and
all packets when nothing is left to be sent and everything has been received. -/
theorem tcp_link_delivers (platforms : Bool → Platform) (before : Bool → List TcpEvent)
    (opening : Bool → TcpEvent) (during : List TcpLinkEvent)
    (hbetween : ∀ s, ((before s).foldl (@TcpConnection.step (platforms s)) {}).Between)
    (hlife : Runs.Always (TcpLink.step platforms) TcpLink.Up
      (TcpLink.start platforms before opening) during)
    (hcarries : Runs.Meets (TcpLink.step platforms) TcpLink.Carries
      (TcpLink.start platforms before opening) during)
    (hsent : ∀ s, ∀ m ∈ TcpLink.sent platforms before opening during s,
      @ORB.Produced (platforms s) m ∧ m.length < 2 ^ 32) (s : Bool) :
    let l := during.foldl (TcpLink.step platforms) (TcpLink.start platforms before opening)
    Delivered (TcpLink.sent platforms before opening during !s)
      (∀ e ∈ during, TcpConnection.Calm e.event) (l s) (l !s) := by
  have hformed : ∀ s, ∀ m ∈ TcpLink.sent platforms before opening during s,
      WellFormed m ∧ 16 ≤ m.length := fun s m hm =>
    @ORB.Produced.wellFormed (platforms s) m (hsent s m hm).1 (hsent s m hm).2
  exact (TcpLink.Inv.start hbetween hlife.first hformed).run (fun s m hm => (hformed s m hm).2) hlife
    hcarries id |>.delivered s

theorem ORB.produced_addCall : @ORB.Produced ⟨.little⟩ ORB.addCall := by
  have hcall : @ORB._twowayCall ⟨.little⟩ (ascii "A") (cString (ascii "add"))
      { calls := [.value (.double 2)] } { connection := some ORB.announcedConnection } =
      .ok 0 ⟨some ORB.announcedConnection, 2, [ORB.addCall]⟩ := by
    decide +kernel
  exact @ORB.Produced.twoway ⟨.little⟩ _ _ _ _ _ _ _ hcall rfl

/-- The call of `add` is written in two pieces, and arrives in two others at an end that is big-endian
and has accepted. -/
theorem tcp_link_delivers_add :
    let platforms : Bool → Platform := fun s => if s then ⟨.little⟩ else ⟨.big⟩
    let opening : Bool → TcpEvent := fun s =>
      if s then .send ORB.addCall (.opened 3 true) else .accept 4
    let during : List TcpLinkEvent :=
      [⟨true, .canWrite true [.sent 20]⟩,
        ⟨false, .canRead (.received (ORB.addCall.take 14)) fun _ => none⟩,
        ⟨true, .canWrite true [.sent 48]⟩,
        ⟨false, .canRead (.received (ORB.addCall.drop 14)) fun _ => none⟩]
    let l := during.foldl (TcpLink.step platforms)
      (TcpLink.start platforms (fun _ => []) opening)
    (l false).inflow.messages = [ORB.addCall] := by
  intro platforms opening during
  have hlife : Runs.Always (TcpLink.step platforms) TcpLink.Up
      (TcpLink.start platforms (fun _ => []) opening) during := by
    simp only [during, Runs.always_cons, Runs.always_nil, TcpLink.Up]
    refine ⟨?_, ?_, ?_, ?_, ?_⟩ <;> intro s <;> cases s <;> decide +kernel
  have hcarries : Runs.Meets (TcpLink.step platforms) TcpLink.Carries
      (TcpLink.start platforms (fun _ => []) opening) during := by
    simp only [during, Runs.meets_cons, Runs.meets_nil, and_true]
    refine ⟨trivial, ?_, trivial, ?_⟩ <;>
    · show _ <+: _
      decide +kernel
  have hsent : ∀ s, ∀ m ∈ TcpLink.sent platforms (fun _ => []) opening during s,
      @ORB.Produced (platforms s) m ∧ m.length < 2 ^ 32 := by
    intro s m hm
    cases s with
    | false => cases hm
    | true =>
        obtain rfl := List.mem_singleton.1 hm
        exact ⟨ORB.produced_addCall, by decide⟩
  have hdelivered := tcp_link_delivers platforms (fun _ => []) opening during
    (fun _ => ⟨rfl, rfl, rfl, rfl⟩) hlife hcarries hsent false
  refine hdelivered.all ?_ (by decide +kernel) (by decide +kernel)
  intro e he
  simp only [during, List.mem_cons, List.not_mem_nil, or_false] at he
  rcases he with rfl | rfl | rfl | rfl
  · exact trivial
  · exact fun _ => rfl
  · exact trivial
  · exact fun _ => rfl

end Corba
