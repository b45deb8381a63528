/-
The end of the handshake.

A client over WebSockets collects what it receives until the headers of the response are complete, and
then lets wslay receive the rest.  What `recv` returns at a time is up to the operating system.  The
read with the end of the headers can go on with the first frames, but the client only looks at the
headers and then forgets all of it.

Main definitions:

* `Corba.ResponseHeader`, `Corba.UpgradeResponse` — the responses of servers that agree;
* `Corba.WsInflow` — a client, and what its callback has given to wslay;
* `Corba.WsInflow.Faithful` — the client is upgraded at the end of the headers, and wslay is given what
  follows.

Main results:

* `Corba.ResponseHeader.find_end` — where the headers end;
* `Corba.WsInflow.waiting`, `Corba.WsInflow.crossing`, `Corba.WsInflow.passed_on` — before, at and after
  the end of the headers;
* `Corba.faithful_always_iff` — exactly which reads lose nothing.
-/

import Corba.WsProgress
import Mathlib.Data.List.Infix

set_option relaxedAutoImplicit false
set_option autoImplicit false

namespace Corba

open Layout Exec

/-! ### Finding a text -/

theorem find_eq_none {text : Octets} (htext : text ≠ []) :
    (s : Octets) → (find text s = none ↔ ∀ i, ¬ text <+: s.drop i)
  | [] => by simp [find, htext]
  | x :: xs => by
      rw [find]
      by_cases hhere : text <+: x :: xs
      · rw [if_pos hhere]
        simp only [reduceCtorEq, false_iff, not_forall, not_not]
        exact ⟨0, hhere⟩
      · rw [if_neg hhere, Option.map_eq_none_iff, find_eq_none htext xs]
        constructor
        · intro h i
          cases i with
          | zero => exact hhere
          | succ i => exact h i
        · intro h i
          exact h (i + 1)

theorem prefix_of_find {text s : Octets} {i : ℕ} (h : find text s = some i) :
    text <+: s.drop i := by
  induction s generalizing i with
  | nil =>
      rw [find] at h
      split at h
      · rename_i htext
        rw [htext]
        exact List.nil_prefix
      · cases h
  | cons x xs ih =>
      rw [find] at h
      split at h
      · rename_i hhere
        obtain rfl : 0 = i := Option.some.inj h
        exact hhere
      · obtain ⟨j, hj, rfl⟩ := Option.map_eq_some_iff.1 h
        exact ih hj

/-- The octets around a text that is found. -/
theorem eq_of_find {text s : Octets} {i : ℕ} (h : find text s = some i) (htext : text ≠ []) :
    s = s.take i ++ (text ++ s.drop (i + text.length)) ∧ (s.take i).length = i := by
  obtain ⟨rest, hrest⟩ := prefix_of_find h
  have hle : i ≤ s.length := by
    by_contra hlt
    rw [List.drop_eq_nil_of_le (by omega)] at hrest
    exact htext (List.append_eq_nil_iff.1 hrest).1
  refine ⟨?_, List.length_take_of_le hle⟩
  rw [← List.drop_drop, ← hrest, List.drop_left, hrest, List.take_append_drop]

/-! ### Responses -/

def crlf : Octets := ascii "\r\n"

/-- A line of a response: it is not empty, and no end of line is inside. -/
def IsLine (line : Octets) : Prop := line ≠ [] ∧ 13 ∉ line ∧ 10 ∉ line

/-- The lines of a response, each with its end, and the empty line behind them. -/
def headerOf (lines : List Octets) : Octets := lines.flatMap (· ++ crlf) ++ crlf

/-- The empty line is the last of them. -/
theorem end_of_prefix {lines : List Octets} (hlines : ∀ line ∈ lines, IsLine line) {i : ℕ}
    (h : ascii "\r\n\r\n" <+: (headerOf lines).drop i) : i + 4 = (headerOf lines).length := by
  have hend : ascii "\r\n\r\n" = [13, 10, 13, 10] := by decide
  have hcrlf : crlf = [13, 10] := by decide
  rw [hend] at h
  induction lines generalizing i with
  | nil =>
      have hle := h.length_le
      simp [headerOf, hcrlf] at hle
      omega
  | cons line lines ih =>
      obtain ⟨hline, hlines⟩ := List.forall_mem_cons.1 hlines
      obtain ⟨hne, hcr, hlf⟩ := hline
      have hheader : headerOf (line :: lines) = line ++ (13 :: 10 :: headerOf lines) := by
        simp [headerOf, hcrlf]
      rw [hheader] at h ⊢
      rw [List.length_append, List.length_cons, List.length_cons]
      rcases Nat.lt_or_ge i line.length with hlt | hge
      · -- inside a line
        rw [List.drop_append_of_le_length hlt.le, List.drop_eq_getElem_cons hlt, List.cons_append,
          List.cons_prefix_cons] at h
        exact absurd (h.1 ▸ List.getElem_mem hlt) hcr
      · rw [List.drop_append, List.drop_eq_nil_of_le hge, List.nil_append] at h
        obtain ⟨j, hj⟩ := Nat.exists_eq_add_of_le hge
        rw [hj, Nat.add_sub_cancel_left] at h
        match j with
        | 0 =>
            rw [List.drop_zero, List.cons_prefix_cons, List.cons_prefix_cons] at h
            cases lines with
            | nil =>
                rw [hj]
                rfl
            | cons line' lines =>
                -- the next line does not begin with an end of line
                obtain ⟨hne', hcr', -⟩ := hlines line' (List.mem_cons_self ..)
                obtain ⟨x, xs, rfl⟩ := List.exists_cons_of_ne_nil hne'
                have hnext := h.2.2
                simp only [headerOf, List.flatMap_cons, List.cons_append,
                  List.cons_prefix_cons] at hnext
                exact absurd (hnext.1 ▸ List.mem_cons_self ..) hcr'
        | 1 =>
            rw [List.drop_one, List.tail_cons, List.cons_prefix_cons] at h
            exact absurd h.1 (by decide)
        | j + 2 =>
            have hinner := ih hlines (i := j) h
            omega

/-- The headers are not complete before their end. -/
theorem find_end_of_prefix {lines : List Octets} (hlines : ∀ line ∈ lines, IsLine line)
    {p : Octets} (hp : p <+: headerOf lines) (hlt : p.length < (headerOf lines).length) :
    find (ascii "\r\n\r\n") p = none := by
  rw [find_eq_none (by decide)]
  intro i h
  have hle := h.length_le
  have hfour : (ascii "\r\n\r\n").length = 4 := by decide
  rw [List.length_drop] at hle
  have hend := end_of_prefix hlines (h.trans (List.IsPrefix.drop hp i))
  omega

/-- With their end they are complete, whatever follows. -/
theorem find_end_of_whole (line : Octets) (lines : List Octets) (extra : Octets) :
    (find (ascii "\r\n\r\n") (headerOf (line :: lines) ++ extra)).isSome = true := by
  have hcrlf : crlf ++ crlf = ascii "\r\n\r\n" := by decide
  have hlast : ∃ before, headerOf (line :: lines) = before ++ ascii "\r\n\r\n" := by
    refine ⟨(line :: lines).dropLast.flatMap (· ++ crlf) ++ (line :: lines).getLast (by simp), ?_⟩
    rw [headerOf]
    conv_lhs => rw [← List.dropLast_append_getLast (l := line :: lines) (by simp)]
    rw [List.flatMap_append, List.flatMap_singleton, ← hcrlf]
    simp only [List.append_assoc]
  obtain ⟨before, hbefore⟩ := hlast
  rw [Option.isSome_iff_ne_none, ne_eq, find_eq_none (by decide), not_forall]
  refine ⟨before.length, not_not.2 ?_⟩
  rw [hbefore, List.append_assoc, List.drop_left]
  exact List.prefix_append _ _

/-- A header field: in front of and behind the value, blanks are allowed. -/
structure HeaderField where
  name : Octets
  before : Octets
  value : Octets
  after : Octets
  name_ne : name ≠ []
  name_text : ∀ x ∈ name, x ≠ 13 ∧ x ≠ 10 ∧ x ≠ 58
  before_blank : ∀ x ∈ before, x = 32 ∨ x = 9
  value_text : ∀ x ∈ value, x ≠ 13 ∧ x ≠ 10
  after_blank : ∀ x ∈ after, x = 32 ∨ x = 9

/-- A letter without its case. -/
def lower (x : UInt8) : UInt8 := if 65 ≤ x ∧ x ≤ 90 then x + 32 else x

namespace HeaderField

def line (f : HeaderField) : Octets := f.name ++ ascii ":" ++ f.before ++ f.value ++ f.after

/-- Names are compared without case. -/
def Named (name : String) (f : HeaderField) : Prop := f.name.map lower = ascii name

instance (name : String) (f : HeaderField) : Decidable (f.Named name) :=
  inferInstanceAs (Decidable (_ = _))

theorem isLine (f : HeaderField) : IsLine f.line := by
  have hblank : ∀ x : UInt8, x = 32 ∨ x = 9 → x ≠ 13 ∧ x ≠ 10 := by
    rintro x (rfl | rfl) <;> decide
  have htext : ∀ x ∈ f.line, x ≠ 13 ∧ x ≠ 10 := by
    intro x hx
    simp only [line, List.mem_append] at hx
    rcases hx with (((hname | hcolon) | hbefore) | hvalue) | hafter
    · exact ⟨(f.name_text x hname).1, (f.name_text x hname).2.1⟩
    · obtain rfl : x = 58 := by simpa [ascii] using hcolon
      decide
    · exact hblank x (f.before_blank x hbefore)
    · exact f.value_text x hvalue
    · exact hblank x (f.after_blank x hafter)
  refine ⟨?_, fun h => (htext 13 h).1 rfl, fun h => (htext 10 h).2 rfl⟩
  simp [line, f.name_ne]

end HeaderField

/-- The response of a server that agrees to the upgrade, and has made this of the key. -/
structure UpgradeResponse (acceptKey : Octets) where
  reason : Octets
  fields : List HeaderField
  reason_text : ∀ x ∈ reason, x ≠ 13 ∧ x ≠ 10
  upgrade : ∃ f ∈ fields, f.Named "upgrade" ∧ f.value.map lower = ascii "websocket"
  connection : ∃ f ∈ fields, f.Named "connection" ∧
    (find (ascii "upgrade") (f.value.map lower)).isSome = true
  accept : ∃ f ∈ fields, f.Named "sec-websocket-accept"
  accepted : ∀ f ∈ fields, f.Named "sec-websocket-accept" → f.value = acceptKey

namespace UpgradeResponse

variable {acceptKey : Octets} (response : UpgradeResponse acceptKey)

def statusLine : Octets := ascii "HTTP/1.1 101" ++ response.reason

def lines : List Octets := response.statusLine :: response.fields.map HeaderField.line

/-- The octets of the response. -/
def header : Octets := headerOf response.lines

theorem isLine_of_mem : ∀ line ∈ response.lines, IsLine line := by
  intro line hline
  rcases List.mem_cons.1 hline with rfl | hfield
  · have hversion : ∀ x ∈ ascii "HTTP/1.1 101", x ≠ 13 ∧ x ≠ 10 :=
      forall_mem_of_all (by decide)
    have htext : ∀ x ∈ response.statusLine, x ≠ 13 ∧ x ≠ 10 := by
      intro x hx
      rcases List.mem_append.1 hx with hx | hx
      · exact hversion x hx
      · exact response.reason_text x hx
    refine ⟨?_, fun h => (htext 13 h).1 rfl, fun h => (htext 10 h).2 rfl⟩
    simp [statusLine, ascii]
  · obtain ⟨f, -, rfl⟩ := List.mem_map.1 hfield
    exact f.isLine

theorem find_front {p : Octets} (hp : p <+: response.header)
    (hlt : p.length < response.header.length) : find (ascii "\r\n\r\n") p = none :=
  find_end_of_prefix response.isLine_of_mem hp hlt

theorem find_whole (extra : Octets) :
    (find (ascii "\r\n\r\n") (response.header ++ extra)).isSome = true :=
  find_end_of_whole _ _ extra

/-- The name of the header is there in the spelling of the client, and the first time it is, the key and
the end of the line follow. -/
def Spelled : Prop :=
  ∃ before after, response.header =
      before ++ (ascii "Sec-WebSocket-Accept: " ++ (acceptKey ++ (crlf ++ after))) ∧
    find (ascii "Sec-WebSocket-Accept: ") response.header = some before.length ∧
    find crlf (acceptKey ++ (crlf ++ after)) = some acceptKey.length

theorem crlf_suffix : crlf <:+ response.header := List.suffix_append _ _

/-- Behind the name of a header there is an end of line. -/
theorem find_crlf_ne_none {start : ℕ}
    (h : find (ascii "Sec-WebSocket-Accept: ") response.header = some start) :
    find crlf (response.header.drop (start + (ascii "Sec-WebSocket-Accept: ").length)) ≠ none := by
  obtain ⟨heq, -⟩ := eq_of_find h (by decide)
  generalize response.header.drop (start + (ascii "Sec-WebSocket-Accept: ").length) = rest at heq
  have hcrlf := response.crlf_suffix
  have hname : ascii "Sec-WebSocket-Accept: " ++ rest <:+ response.header := by
    rw [heq]
    exact List.suffix_append _ _
  have hboth := List.suffix_of_suffix_length_le hcrlf hname (by
    rw [List.length_append]
    exact Nat.le_add_right_of_le (by decide))
  -- the name of the header has no end of line inside
  match rest with
  | [] => exact absurd hboth (by decide)
  | [y] =>
      obtain ⟨before, hbefore⟩ := hboth
      have hlast : before ++ [13] = ascii "Sec-WebSocket-Accept: " := by
        have hsplit : (before ++ [13]) ++ [10] = ascii "Sec-WebSocket-Accept: " ++ [y] := by
          rw [← hbefore, List.append_assoc]
          rfl
        exact (List.append_inj' hsplit rfl).1
      have hend := congrArg List.getLast? hlast
      rw [List.getLast?_concat] at hend
      exact absurd hend (by decide)
  | y :: z :: rest =>
      have hrest : y :: z :: rest <:+ ascii "Sec-WebSocket-Accept: " ++ y :: z :: rest :=
        List.suffix_append _ _
      obtain ⟨before, hbefore⟩ := List.suffix_of_suffix_length_le hboth hrest (by
        rw [List.length_cons, List.length_cons]
        exact Nat.le_add_left _ _)
      rw [ne_eq, find_eq_none (by decide), not_forall]
      refine ⟨before.length, not_not.2 ?_⟩
      rw [← hbefore, List.drop_left]

/-- The client reads the key exactly when it is spelled as the client expects. -/
theorem headerValue_iff :
    headerValue (ascii "Sec-WebSocket-Accept: ") response.header = some acceptKey ↔
      response.Spelled := by
  rw [headerValue]
  constructor
  · intro h
    obtain ⟨start, hstart, hvalue⟩ := Option.map_eq_some_iff.1 h
    obtain ⟨heq, hlength⟩ := eq_of_find hstart (by decide)
    have hsome := response.find_crlf_ne_none hstart
    dsimp only at hvalue
    generalize response.header.drop (start + (ascii "Sec-WebSocket-Accept: ").length) = rest
      at heq hvalue hsome
    obtain ⟨n, hn⟩ := Option.ne_none_iff_exists'.1 hsome
    have hcrlf : find (ascii "\r\n") rest = some n := hn
    rw [hcrlf] at hvalue
    obtain ⟨hrest, hkey⟩ := eq_of_find hn (by decide)
    have hvalue : rest.take n = acceptKey := hvalue
    rw [hvalue] at hrest hkey
    refine ⟨response.header.take start, rest.drop (n + crlf.length), ?_, ?_, ?_⟩
    · rw [← hrest]
      exact heq
    · rw [hlength, hstart]
    · rw [← hrest, hkey, hn]
  · rintro ⟨before, after, hheader, hfind, hcrlf⟩
    have hrest : response.header.drop (before.length + (ascii "Sec-WebSocket-Accept: ").length) =
        acceptKey ++ (crlf ++ after) := by
      rw [hheader, ← List.drop_drop, List.drop_left, List.drop_left]
    have hline : find (ascii "\r\n") (acceptKey ++ (crlf ++ after)) = some acceptKey.length := hcrlf
    rw [hfind, Option.map_some]
    dsimp only
    rw [hrest, hline]
    exact congrArg some (List.take_left)

end UpgradeResponse

/-! ### What a client receives -/

/-- Some octets that are read at once.  Whether there is enough memory for a context and what wslay
answers are inputs. -/
structure WsRead where
  octets : Octets
  initialized : Bool := true
  answer : WslayAnswer := {}

/-- A client, and what its callback has given to wslay. -/
structure WsInflow where
  connection : WsConnection
  given : Octets := []

/-- What the callback gives to wslay. -/
def WsConnection.wslay_recv_callback (result : RecvResult) (c : WsConnection) : Octets :=
  match if c.fd.isSome then result else .failed with
  | .received octets => octets
  | _ => []

namespace WsInflow

section Steps

variable [Nettle]

/-- A read.  After the upgrade it is wslay that reads, with the context there is. -/
def step (s : WsInflow) (r : WsRead) : WsInflow where
  connection :=
    State (WsConnection.canRead (.received r.octets) .failed r.initialized r.answer s.connection)
  given :=
    if s.connection.wsstate = .ws ∧ s.connection.ctx.isSome then
      s.given ++ s.connection.wslay_recv_callback (.received r.octets)
    else s.given

end Steps

/-- A client that has asked for the upgrade and received nothing yet. -/
structure Awaiting (c : WsConnection) : Prop where
  client : c.wsstate = .httpClient
  socket : c.fd ≠ none
  headers : c.headers = []
  ctx : c.ctx = none

/-- **The client is upgraded exactly when it has received the headers, and all of what follows them is
given to wslay.** -/
structure Faithful (header received : Octets) (s : WsInflow) : Prop where
  upgraded : s.connection.wsstate = .ws ↔ header.length ≤ received.length
  given : s.given = received.drop header.length

/-- What has been received with these reads. -/
def received (reads : List WsRead) : Octets := reads.flatMap WsRead.octets

@[simp] theorem received_nil : received [] = [] := rfl

theorem received_append (reads reads' : List WsRead) :
    received (reads ++ reads') = received reads ++ received reads' := List.flatMap_append

@[simp] theorem received_singleton (r : WsRead) : received [r] = r.octets := by
  simp [received]

variable [Nettle] {c : WsConnection}

/-- A client that waits puts what it receives at the end of its headers.  It is upgraded when they are
complete and carry the key. -/
theorem canRead_awaiting (hc : c.wsstate = .httpClient) (hfd : c.fd ≠ none) {octets : Octets}
    (hlength : octets.length ≤ 8192) (initialized : Bool) (answer : WslayAnswer) :
    let c' : WsConnection := { c with headers := c.headers ++ octets }
    let upgrades := (find (ascii "\r\n\r\n") c'.headers).isSome = true ∧
      headerValue (ascii "Sec-WebSocket-Accept: ") c'.headers = some (create_acceptkey c.client_key)
    let next := State (WsConnection.canRead (.received octets) .failed initialized answer c)
    (upgrades → next = State (WsConnection.flushSendBuffer answer (c'.switched initialized))) ∧
      (¬ upgrades → next = c') := by
  have hheaded : c.headed octets = { c with headers := c.headers ++ octets } := by
    rw [WsConnection.headed, List.take_of_length_le hlength]
  obtain ⟨hupgraded, hwaiting⟩ :=
    WsConnection.httpClientRcvd_received hc hfd octets initialized answer
  have hcompletes := WsConnection.completes_received_iff hc hfd octets
  rw [hheaded] at hupgraded hwaiting hcompletes
  rw [WsConnection.canRead_httpClient hc]
  exact ⟨fun h => hupgraded (hcompletes.2 h), fun h => hwaiting (mt hcompletes.1 h)⟩

section Runs

variable {response : UpgradeResponse (create_acceptkey c.client_key)}

/-- **Before the end of the headers** the client keeps what it receives. -/
theorem waiting (hc : Awaiting c) {before : List WsRead}
    (hlength : ∀ r ∈ before, r.octets.length ≤ 8192)
    (hfront : received before <+: response.header)
    (hlt : (received before).length < response.header.length) :
    before.foldl step ⟨c, []⟩ = ⟨{ c with headers := received before }, []⟩ := by
  induction before using List.reverseRecOn with
  | nil =>
      rw [List.foldl_nil, received_nil, ← hc.headers]
  | append_singleton before r ih =>
      rw [received_append, received_singleton] at hfront hlt
      have hbefore : received before <+: response.header := (List.prefix_append _ _).trans hfront
      have hshort : (received before).length < response.header.length := by
        rw [List.length_append] at hlt
        omega
      rw [List.foldl_append, ih (fun r' hr' => hlength r' (List.mem_append_left _ hr')) hbefore hshort]
      have hincomplete := response.find_front hfront hlt
      obtain ⟨-, hwaiting⟩ := canRead_awaiting (c := { c with headers := received before })
        hc.client hc.socket (hlength r (List.mem_append_right _ (List.mem_singleton_self r)))
        r.initialized r.answer
      rw [List.foldl_cons, List.foldl_nil, step]
      dsimp only
      rw [if_neg fun h => absurd (h.1.symm.trans hc.client) (by simp), received_append,
        received_singleton, hwaiting]
      intro h
      rw [hincomplete] at h
      exact absurd h.1 (by simp)

/-- **The read with the end of the headers** upgrades the client if the key is right.  What follows the
headers in it is not given to wslay. -/
theorem crossing (hc : Awaiting c) {before : List WsRead} {r : WsRead} {extra : Octets}
    (hlength : ∀ r' ∈ before ++ [r], r'.octets.length ≤ 8192)
    (hlt : (received before).length < response.header.length)
    (hcross : received (before ++ [r]) = response.header ++ extra) :
    let s := (before ++ [r]).foldl step ⟨c, []⟩
    s.given = [] ∧
      (s.connection.wsstate = .ws ↔ headerValue (ascii "Sec-WebSocket-Accept: ")
        (response.header ++ extra) = some (create_acceptkey c.client_key)) ∧
      (s.connection.wsstate = .ws →
        s.connection.fd ≠ none ∧ s.connection.ctx.isSome = r.initialized) := by
  have hboth : received before ++ r.octets = response.header ++ extra := by
    rw [← hcross, received_append, received_singleton]
  have hfront : received before <+: response.header := by
    have hwhole : received before <+: response.header ++ extra := by
      rw [← hboth]
      exact List.prefix_append _ _
    exact List.prefix_of_prefix_length_le hwhole (List.prefix_append _ _) hlt.le
  have hbefore := waiting hc (fun r' hr' => hlength r' (List.mem_append_left _ hr')) hfront hlt
  obtain ⟨hupgraded, hwaiting⟩ := canRead_awaiting (c := { c with headers := received before })
    hc.client hc.socket (hlength r (List.mem_append_right _ (List.mem_singleton_self r)))
    r.initialized r.answer
  dsimp only at hupgraded hwaiting
  rw [hboth] at hupgraded hwaiting
  have hcomplete := response.find_whole extra
  dsimp only
  rw [List.foldl_append, hbefore, List.foldl_cons, List.foldl_nil, step]
  dsimp only
  rw [if_neg fun h => absurd (h.1.symm.trans hc.client) (by simp)]
  refine ⟨rfl, ?_⟩
  by_cases hkey : headerValue (ascii "Sec-WebSocket-Accept: ") (response.header ++ extra) =
      some (create_acceptkey c.client_key)
  · obtain ⟨hfd, hws, -⟩ := WsConnection.flushSendBuffer_keeps r.answer
      (({ c with headers := response.header ++ extra } : WsConnection).switched r.initialized)
    rw [hupgraded ⟨hcomplete, hkey⟩, hws, hfd]
    refine ⟨iff_of_true rfl hkey, fun _ => ⟨hc.socket, ?_⟩⟩
    rw [WsConnection.flushSendBuffer_ctx]
    cases hinit : r.initialized with
    | true => rfl
    | false => simp [WsConnection.switched, hc.ctx]
  · rw [hwaiting fun h => hkey h.2]
    refine ⟨iff_of_false ?_ hkey, fun hws => ?_⟩
    · exact fun hws => absurd (hws.symm.trans hc.client) (by simp)
    · exact absurd (hws.symm.trans hc.client) (by simp)

end Runs

/-- **After the upgrade** all that is received is given to wslay, if it has a context. -/
theorem passed_on {s : WsInflow} (hws : s.connection.wsstate = .ws) (hfd : s.connection.fd ≠ none)
    (reads : List WsRead) :
    (reads.foldl step s).connection.wsstate = .ws ∧
      (reads.foldl step s).given =
        s.given ++ (if s.connection.ctx.isSome then received reads else []) := by
  induction reads generalizing s with
  | nil => exact ⟨hws, by simp⟩
  | cons r reads ih =>
      have hrun : (step s r).connection = State (WsConnection.use .eventRecv s.connection) := by
        rw [step, WsConnection.canRead, get_bind, hws]
      have hgiven : (step s r).given =
          s.given ++ (if s.connection.ctx.isSome then r.octets else []) := by
        obtain ⟨fd, hopen⟩ := Option.ne_none_iff_exists'.1 hfd
        rw [step]
        cases hctx : s.connection.ctx with
        | none => simp
        | some ctx => simp [hws, WsConnection.wslay_recv_callback, hopen]
      have hstate : (step s r).connection.wsstate = .ws := by
        rw [hrun]
        exact hws
      have hopen : (step s r).connection.fd ≠ none := by
        rw [hrun]
        exact hfd
      have hctx : (step s r).connection.ctx = s.connection.ctx := by
        rw [hrun]
        rfl
      obtain ⟨hws', hgiven'⟩ := ih hstate hopen
      refine ⟨hws', ?_⟩
      rw [List.foldl_cons, hgiven', hgiven, hctx]
      cases s.connection.ctx.isSome with
      | true => simp [received]
      | false => simp

/-! ### All reads -/

omit [Nettle] in
/-- There is a read with which so much has been received for the first time. -/
theorem exists_crossing {reads : List WsRead} {n : ℕ} (hpos : 0 < n)
    (hle : n ≤ (received reads).length) :
    ∃ before r after, reads = before ++ r :: after ∧ (received before).length < n ∧
      n ≤ (received (before ++ [r])).length := by
  induction reads generalizing n with
  | nil =>
      rw [received_nil, List.length_nil] at hle
      omega
  | cons r reads ih =>
      have hcons : received (r :: reads) = r.octets ++ received reads := List.flatMap_cons
      rw [hcons, List.length_append] at hle
      by_cases hfirst : n ≤ r.octets.length
      · exact ⟨[], r, reads, rfl, hpos, by simpa using hfirst⟩
      · obtain ⟨before, r', after, rfl, hlt, hge⟩ := ih (n := n - r.octets.length) (by omega) (by omega)
        refine ⟨r :: before, r', after, rfl, ?_, ?_⟩
        · have hmore : received (r :: before) = r.octets ++ received before := List.flatMap_cons
          rw [hmore, List.length_append]
          omega
        · have hmore : received (r :: before ++ [r']) = r.octets ++ received (before ++ [r']) :=
            List.flatMap_cons
          rw [hmore, List.length_append]
          omega

end WsInflow

open WsInflow

/-- **Nothing is lost exactly when one of the reads ends where the headers end**, the server spells the
name of the header as the client does, and wslay gets its context if anything follows.  This holds for
all responses, whatever follows them, and all ways in which they are received. -/
theorem faithful_always_iff [Nettle] {c : WsConnection} (hc : Awaiting c)
    (response : UpgradeResponse (create_acceptkey c.client_key)) {rest : Octets}
    {reads : List WsRead} (hreads : received reads = response.header ++ rest)
    (hlength : ∀ r ∈ reads, r.octets.length ≤ 8192) :
    (∀ before, before <+: reads →
        Faithful response.header (received before) (before.foldl step ⟨c, []⟩)) ↔
      response.Spelled ∧ ∃ before r after, reads = before ++ r :: after ∧
        (received before).length < response.header.length ∧
        received (before ++ [r]) = response.header ∧ (r.initialized = true ∨ rest = []) := by
  have hpos : 0 < response.header.length := by simp [UpgradeResponse.header, headerOf, crlf, ascii]
  have hpiece : ∀ p, p <+: reads → (received p) <+: response.header ++ rest := by
    rintro p ⟨q, rfl⟩
    rw [← hreads, received_append]
    exact List.prefix_append _ _
  constructor
  · intro hfaithful
    obtain ⟨before, r, after, rfl, hlt, hge⟩ := exists_crossing hpos (by
      rw [hreads, List.length_append]
      exact Nat.le_add_right _ _)
    have hfront : before ++ [r] <+: before ++ r :: after := ⟨after, by simp⟩
    obtain ⟨extra, hextra⟩ := List.prefix_of_prefix_length_le (List.prefix_append _ _)
      (hpiece _ hfront) hge
    obtain ⟨hgiven, hupgraded, hready⟩ := crossing hc
      (fun r' hr' => hlength r' (hfront.subset hr')) hlt hextra.symm
    obtain ⟨hws, hall⟩ := hfaithful _ hfront
    -- what has come with the headers is not given to wslay
    obtain rfl : extra = [] := by
      rw [hgiven, ← hextra, List.drop_left] at hall
      exact hall.symm
    rw [List.append_nil] at hextra hupgraded
    have hyes := hws.2 hge
    refine ⟨response.headerValue_iff.1 (hupgraded.1 hyes), before, r, after, rfl, hlt, hextra.symm, ?_⟩
    obtain ⟨hopen, hctx⟩ := hready hyes
    obtain ⟨-, hend⟩ := passed_on hyes hopen after
    obtain ⟨-, hlast⟩ := hfaithful _ List.prefix_rfl
    have hsplit : before ++ r :: after = (before ++ [r]) ++ after := by simp
    rw [hsplit, List.foldl_append, hend, hgiven, hctx, ← hsplit, hreads, List.drop_left,
      List.nil_append] at hlast
    cases hinit : r.initialized with
    | true => exact .inl rfl
    | false =>
        rw [hinit, if_neg Bool.false_ne_true] at hlast
        exact .inr hlast.symm
  · rintro ⟨hspelled, before, r, after, rfl, hlt, hcut, hready⟩ p hp
    have hfront : before ++ [r] <+: before ++ r :: after := ⟨after, by simp⟩
    by_cases hshort : (received p).length < response.header.length
    · -- the headers are not complete yet
      have hheader : received p <+: response.header :=
        List.prefix_of_prefix_length_le (hpiece p hp) (List.prefix_append _ _) hshort.le
      rw [waiting hc (fun r' hr' => hlength r' (hp.subset hr')) hheader hshort]
      refine ⟨iff_of_false ?_ (by omega), (List.drop_eq_nil_of_le hshort.le).symm⟩
      exact fun hws => absurd (hws.symm.trans hc.client) (by simp)
    · have hcross : received (before ++ [r]) = response.header ++ [] := by
        rw [hcut, List.append_nil]
      obtain ⟨hgiven, hupgraded, hinit⟩ := crossing hc
        (fun r' hr' => hlength r' (hfront.subset hr')) hlt hcross
      rw [List.append_nil] at hupgraded
      have hyes := hupgraded.2 (response.headerValue_iff.2 hspelled)
      obtain ⟨hopen, hctx⟩ := hinit hyes
      -- the upgrade is behind these reads
      have hlonger : before.length < p.length := by
        by_contra hle
        obtain ⟨q, hq⟩ := List.prefix_of_prefix_length_le hp (List.prefix_append before (r :: after))
          (Nat.not_lt.1 hle)
        rw [← hq, received_append, List.length_append] at hlt
        omega
      obtain ⟨q, rfl⟩ := List.prefix_of_prefix_length_le hfront hp (by
        rw [List.length_append]
        exact hlonger)
      have hq : received q <+: rest := by
        have hboth := hpiece _ hp
        rw [received_append, hcut] at hboth
        exact (List.prefix_append_right_inj _).1 hboth
      obtain ⟨hws, hend⟩ := passed_on hyes hopen q
      rw [received_append, hcut, List.foldl_append]
      refine ⟨iff_of_true hws (by simp), ?_⟩
      rw [hend, hgiven, hctx, List.drop_left, List.nil_append]
      rcases hready with hready | hnothing
      · rw [hready, if_pos rfl]
      · rw [hnothing] at hq
        rw [List.prefix_nil.1 hq]
        split <;> rfl

/-- A header field as the servers of the repository write it. -/
def plainField (name value : Octets) (hne : name ≠ [])
    (hname : ∀ x ∈ name, x ≠ 13 ∧ x ≠ 10 ∧ x ≠ 58) (hvalue : ∀ x ∈ value, x ≠ 13 ∧ x ≠ 10) :
    HeaderField :=
  ⟨name, [32], value, [], hne, hname, forall_mem_of_all (by decide), hvalue, nofun⟩

/-- The client with the key `K`. -/
def askedClient : WsConnection :=
  { WsConnection.new ⟨ascii "near", 2810⟩ .httpClient with
    state := .established
    fd := some 3
    client_key := ascii "K"
    sockets := [{ incoming := false }] }

/-- The response of a server of the repository, to a client with the key `K`. -/
def ownResponse : UpgradeResponse (@create_acceptkey ⟨id, id⟩ askedClient.client_key) where
  reason := ascii " Switching Protocols"
  fields := [
    plainField (ascii "Upgrade") (ascii "websocket") (by decide)
      (forall_mem_of_all (by decide)) (forall_mem_of_all (by decide)),
    plainField (ascii "Connection") (ascii "Upgrade") (by decide)
      (forall_mem_of_all (by decide)) (forall_mem_of_all (by decide)),
    plainField (ascii "Sec-WebSocket-Accept")
      (@create_acceptkey ⟨id, id⟩ askedClient.client_key) (by decide)
      (forall_mem_of_all (by decide)) (forall_mem_of_all (by decide))]
  reason_text := forall_mem_of_all (by decide)
  upgrade := ⟨_, List.mem_cons_self .., by decide, by decide⟩
  connection := ⟨_, List.mem_cons_of_mem _ (List.mem_cons_self ..), by decide, by decide⟩
  accept := ⟨_, List.mem_cons_of_mem _ (List.mem_cons_of_mem _ (List.mem_cons_self ..)), by decide⟩
  accepted := by
    intro f hf hname
    rcases List.mem_cons.1 hf with rfl | hf
    · exact absurd hname (by decide)
    · rcases List.mem_cons.1 hf with rfl | hf
      · exact absurd hname (by decide)
      · obtain rfl := List.mem_singleton.1 hf
        rfl

theorem awaiting_askedClient : Awaiting askedClient := ⟨rfl, by decide, rfl, rfl⟩

/-- A response that is received on its own, and then a frame. -/
theorem frame_after_response_given :
    letI : Nettle := ⟨id, id⟩
    Faithful ownResponse.header (received [⟨ownResponse.header, true, {}⟩])
        ([⟨ownResponse.header, true, {}⟩].foldl step ⟨askedClient, []⟩) ∧
      Faithful ownResponse.header
        (received [⟨ownResponse.header, true, {}⟩, ⟨[130, 1, 65], true, {}⟩])
        ([⟨ownResponse.header, true, {}⟩, ⟨[130, 1, 65], true, {}⟩].foldl step
          ⟨askedClient, []⟩) := by
  let : Nettle := ⟨id, id⟩
  have hreceived : received [⟨ownResponse.header, true, {}⟩, ⟨[130, 1, 65], true, {}⟩] =
      ownResponse.header ++ [130, 1, 65] := by rfl
  have hfaithful := (faithful_always_iff awaiting_askedClient ownResponse hreceived ?_).mpr
    ⟨?_, [], _, [_], rfl, ?_, ?_, .inl rfl⟩
  · exact ⟨hfaithful _ ⟨[⟨[130, 1, 65], true, {}⟩], rfl⟩, hfaithful _ (List.prefix_refl _)⟩
  · intro r hr
    rcases List.mem_cons.1 hr with rfl | hr
    · decide +kernel
    · obtain rfl := List.mem_singleton.1 hr
      decide
  · exact ⟨headerOf (ownResponse.lines.take 3) |>.dropLast.dropLast, crlf, by decide +kernel,
      by decide +kernel, by decide +kernel⟩
  · decide +kernel
  · exact received_singleton _

/-- A frame that is received together with the response is lost. -/
theorem frame_with_response_lost :
    letI : Nettle := ⟨id, id⟩
    ¬ ∀ (c : WsConnection) (response : UpgradeResponse (create_acceptkey c.client_key))
      (rest : Octets) (reads : List WsRead), Awaiting c → received reads = response.header ++ rest →
      (∀ r ∈ reads, r.octets.length ≤ 8192) → ∀ before, before <+: reads →
      Faithful response.header (received before) (before.foldl step ⟨c, []⟩) := by
  intro h
  let : Nettle := ⟨id, id⟩
  have hfaithful := h askedClient ownResponse [130, 1, 65]
    [⟨ownResponse.header ++ [130, 1, 65], true, {}⟩] awaiting_askedClient (received_singleton _)
    (by
      intro r hr
      obtain rfl := List.mem_singleton.1 hr
      decide +kernel)
    _ List.prefix_rfl
  exact absurd hfaithful.given (by decide +kernel)

end Corba
