/-
Transports that look the same from above.

What calls and messages do to a connection depends on what is below it only as far as `send` throws.
When two transports throw the same, whatever else they do, the connections above them go through the
same states.

Main definitions:

* `Corba.Transport.Simulates` — two transports that keep a relation and throw the same;
* `Corba.Side.Similar`, `Corba.Line.Similar` — connections that differ in their transports only.

Main results:

* `Corba.Side.Similar.issueAll` — calls;
* `Corba.Line.Similar.step` — **calls and messages**.
-/

import Corba.OrbCalls

set_option relaxedAutoImplicit false
set_option autoImplicit false

namespace Corba

open Interlock

variable {τ τ' ι ι' κ : Type}

/-- Whatever is sent, the relation is kept, and both throw the same.  The inputs of both are made of
inputs of one kind. -/
structure Transport.Simulates (T : Transport τ ι) (T' : Transport τ' ι') (f : κ → ι) (g : κ → ι')
    (R : τ → τ' → Prop) : Prop where
  keeps : ∀ i m t t', R t t' → R (T.send (f i) m t).1 (T'.send (g i) m t').1
  throws : ∀ i m t t', R t t' → (T.send (f i) m t).2 = (T'.send (g i) m t').2

/-- The same call, with another input. -/
def Call.map (f : κ → ι) (call : Call κ) : Call ι where
  twoway := call.twoway
  objectKey := call.objectKey
  operation := call.operation
  arguments := call.arguments
  input := f call.input

/-- The transports are related, and all the rest is the same. -/
structure Side.Similar (R : τ → τ' → Prop) (s : Side τ) (s' : Side τ') : Prop where
  connection : s.connection = s'.connection
  transport : R s.transport s'.transport
  requestId : s.requestId = s'.requestId
  calls : s.calls = s'.calls
  requests : s.requests = s'.requests

structure Line.Similar (R : τ → τ' → Prop) (l : Line τ) (l' : Line τ') : Prop where
  side : l.side.Similar R l'.side
  waiting : l.waiting = l'.waiting
  completed : l.completed = l'.completed

theorem Line.Similar.mono {R R' : τ → τ' → Prop} {l : Line τ} {l' : Line τ'} (h : l.Similar R l')
    (hR : R l.side.transport l'.side.transport → R' l.side.transport l'.side.transport) :
    l.Similar R' l' :=
  ⟨{ h.side with transport := hR h.side.transport }, h.waiting, h.completed⟩

section Simulation

variable [Platform] {T : Transport τ ι} {T' : Transport τ' ι'} {f : κ → ι} {g : κ → ι'}
  {R : τ → τ' → Prop} {s : Side τ} {s' : Side τ'} {l : Line τ} {l' : Line τ'}

/-! ### Calls -/

/-- **A call.** -/
theorem Side.Similar.issue (hT : T.Simulates T' f g R) (h : s.Similar R s') (call : Call κ) :
    (s.issue T (call.map f)).1.Similar R (s'.issue T' (call.map g)).1 ∧
      (s.issue T (call.map f)).2 = (s'.issue T' (call.map g)).2 := by
  obtain ⟨connection, transport, requestId, calls, requests⟩ := s
  obtain ⟨connection', transport', requestId', calls', requests'⟩ := s'
  obtain ⟨hconnection, htransport, hid, hcalls, hrequests⟩ := h
  dsimp only at hconnection htransport hid hcalls hrequests
  subst hconnection hid hcalls hrequests
  unfold Side.issue
  dsimp +instances only [Call.map]
  generalize ORB.request _ _ _ _ _ _ = request
  cases request with
  | error fault caller => exact ⟨⟨rfl, htransport, rfl, rfl, rfl⟩, rfl⟩
  | ok id caller =>
      refine ⟨⟨rfl, hT.keeps _ _ _ _ htransport, rfl, rfl, rfl⟩, ?_⟩
      simp only [hT.throws call.input caller.sent.flatten _ _ htransport]

/-- Calls that are made one after the other. -/
theorem Side.Similar.issueAll (hT : T.Simulates T' f g R) (h : s.Similar R s')
    (calls : List (Call κ)) :
    (s.issueAll T (calls.map (Call.map f))).1.Similar R
        (s'.issueAll T' (calls.map (Call.map g))).1 ∧
      (s.issueAll T (calls.map (Call.map f))).2 = (s'.issueAll T' (calls.map (Call.map g))).2 := by
  induction calls generalizing s s' with
  | nil => exact ⟨h, rfl⟩
  | cons call calls ih =>
      obtain ⟨hside, hparked⟩ := h.issue hT call
      obtain ⟨hrest, hothers⟩ := ih hside
      refine ⟨hrest, ?_⟩
      simp only [List.map_cons, Side.issueAll, hparked, hothers]

theorem Line.Similar.issueAll (hT : T.Simulates T' f g R) (h : l.Similar R l')
    (calls : List (Call κ)) :
    (l.issueAll T (calls.map (Call.map f))).Similar R
      (l'.issueAll T' (calls.map (Call.map g))) := by
  obtain ⟨hside, hparked⟩ := h.side.issueAll hT calls
  refine ⟨hside, ?_, h.completed⟩
  simp only [Line.issueAll, hparked, h.waiting]

/-! ### Messages -/

theorem Line.Similar.resume (hT : T.Simulates T' f g R) (h : l.Similar R l') (requestId : UInt32)
    (reaction : List (Call κ)) :
    (l.resume T requestId (reaction.map (Call.map f))).Similar R
      (l'.resume T' requestId (reaction.map (Call.map g))) := by
  rw [Line.resume, Line.resume, h.waiting]
  cases Interlock.resume requestId l'.waiting with
  | none => exact h
  | some found =>
      obtain ⟨call, waiting⟩ := found
      have hresumed : Line.Similar R
          { l with waiting, completed := l.completed ++ [(call, requestId)] }
          { l' with waiting, completed := l'.completed ++ [(call, requestId)] } :=
        ⟨h.side, rfl, congrArg (· ++ [(call, requestId)]) h.completed⟩
      exact hresumed.issueAll hT reaction

/-- What is sent, and who is resumed, when a message is handled. -/
theorem Line.Similar.handle (hT : T.Simulates T' f g R) (h : l.Similar R l') (i : κ)
    (reaction : List (Call κ)) (events : List Event) :
    (events.foldl (Line.handle T (f i) (reaction.map (Call.map f))) l).Similar R
      (events.foldl (Line.handle T' (g i) (reaction.map (Call.map g))) l') := by
  induction events generalizing l l' with
  | nil => exact h
  | cons event events ih =>
      refine ih ?_
      cases event with
      | send message =>
          exact ⟨{ h.side with transport := hT.keeps i message _ _ h.side.transport }, h.waiting,
            h.completed⟩
      | resume requestId d => exact h.resume hT requestId reaction

/-- **A message.** -/
theorem Line.Similar.message (hT : T.Simulates T' f g R) (h : l.Similar R l') (servants : Servants)
    (message : Octets) (i : κ) (reaction : List (Call κ)) :
    (l.step T servants (.message message (f i) (reaction.map (Call.map f)))).Similar R
      (l'.step T' servants (.message message (g i) (reaction.map (Call.map g)))) := by
  rw [Line.step, Line.step, h.side.connection]
  have hread (connection : Connection) : Line.Similar R
      { l with side := { l.side with connection } } { l' with side := { l'.side with connection } } :=
    ⟨{ h.side with connection := rfl }, h.waiting, h.completed⟩
  exact (hread _).handle hT i reaction _

end Simulation

end Corba
