/-
The texts of the upgrade.

A client over WebSockets asks for the upgrade with the first octets it writes, and a server grants it
with its first ones.  Both texts are a few lines with an empty line behind them.  Each end collects
what it receives until the empty line is there, and then looks for the key.

Main definitions:

* `Corba.requestLines`, `Corba.replyLines` — the lines of both texts;
* `Corba.Word` — texts that can stand in a line without being torn apart.

Main results:

* `Corba.headerValue_line` — the value of a header is found in its line;
* `Corba.requestKey_request` — the server finds the key of the client;
* `Corba.headerValue_reply` — the client finds the answer to its key;
* `Corba.complete_headerOf_iff` — headers are complete when all of them are there.
-/

import Corba.WsHandshake

set_option relaxedAutoImplicit false
set_option autoImplicit false

namespace Corba

open Exec

/-! ### Headers in their lines -/

/-- A text without this octet ends before it. -/
theorem prefix_of_not_mem {text l rest : Octets} {x : UInt8} (hx : x ∉ text)
    (h : text <+: l ++ x :: rest) : text <+: l := by
  refine List.prefix_of_prefix_length_le h (List.prefix_append _ _) ?_
  by_contra hlt
  have hat : text[l.length]? = some x := by
    obtain ⟨after, hafter⟩ := h
    have hget := congrArg (·[l.length]?) hafter
    simpa [List.getElem?_append_left (Nat.lt_of_not_le hlt)] using hget
  exact hx (List.mem_of_getElem? hat)

/-- What is not in the first line is found behind it. -/
theorem find_line {text line : Octets} (htext : text ≠ []) (hcr : 13 ∉ text) (hlf : 10 ∉ text)
    (hnone : find text line = none) (rest : Octets) :
    find text (line ++ crlf ++ rest) = (find text rest).map (· + (line ++ crlf).length) := by
  have hcrlf : crlf = [13, 10] := by decide
  have hskip {x : UInt8} {xs : Octets} (hnot : ¬ text <+: x :: xs) :
      find text (x :: xs) = (find text xs).map (· + 1) := if_neg hnot
  have hhead {x : UInt8} (hx : x ∉ text) (xs : Octets) : ¬ text <+: x :: xs := fun h =>
    htext (List.prefix_nil.1 (prefix_of_not_mem (l := []) hx h))
  induction line with
  | nil =>
      rw [List.nil_append, hcrlf, List.cons_append, List.cons_append, List.nil_append,
        hskip (hhead hcr _), hskip (hhead hlf _), Option.map_map]
      rfl
  | cons x line ih =>
      have hnot : ¬ text <+: x :: line := by
        intro h
        rw [find, if_pos h] at hnone
        cases hnone
      rw [find, if_neg hnot, Option.map_eq_none_iff] at hnone
      have hwhole : ¬ text <+: x :: (line ++ crlf ++ rest) := by
        intro h
        rw [hcrlf, List.append_assoc, List.cons_append] at h
        exact hnot (prefix_of_not_mem (l := x :: line) hcr h)
      rw [List.cons_append, List.cons_append, hskip hwhole, ih hnone, Option.map_map]
      rfl

theorem find_self {text : Octets} (htext : text ≠ []) (rest : Octets) :
    find text (text ++ rest) = some 0 := by
  obtain ⟨x, xs, rfl⟩ := List.exists_cons_of_ne_nil htext
  exact if_pos (List.prefix_append _ _)

/-- The end of a line is found behind it. -/
theorem find_crlf {value : Octets} (hcr : 13 ∉ value) (rest : Octets) :
    find crlf (value ++ crlf ++ rest) = some value.length := by
  induction value with
  | nil => exact find_self (by decide) rest
  | cons x value ih =>
      rw [List.mem_cons, not_or] at hcr
      obtain ⟨hx, hcr⟩ := hcr
      have hnot : ¬ crlf <+: x :: (value ++ crlf ++ rest) := by
        intro h
        exact hx (List.cons_prefix_cons.1 h).1
      rw [List.cons_append, List.cons_append, find, if_neg hnot, ih hcr]
      rfl

/-- **The value of a header is found in its line**, when its name is in no line before. -/
theorem headerValue_line {name value : Octets} (hname : name ≠ []) (hcr : 13 ∉ name)
    (hlf : 10 ∉ name) (hvalue : 13 ∉ value) {lines : List Octets}
    (hlines : ∀ line ∈ lines, find name line = none) (rest : Octets) :
    headerValue name (lines.flatMap (· ++ crlf) ++ (name ++ (value ++ crlf ++ rest))) =
      some value := by
  have hfind : find name (lines.flatMap (· ++ crlf) ++ (name ++ (value ++ crlf ++ rest))) =
      some (lines.flatMap (· ++ crlf)).length := by
    induction lines with
    | nil => exact find_self hname _
    | cons line lines ih =>
        obtain ⟨hline, hlines⟩ := List.forall_mem_cons.1 hlines
        rw [List.flatMap_cons, List.append_assoc, find_line hname hcr hlf hline, ih hlines,
          Option.map_some, Nat.add_comm, ← List.length_append]
  have hend : find (ascii "\r\n") (value ++ crlf ++ rest) = some value.length := find_crlf hvalue rest
  have hrest : (lines.flatMap (· ++ crlf) ++ (name ++ (value ++ crlf ++ rest))).drop
      ((lines.flatMap (· ++ crlf)).length + name.length) = value ++ crlf ++ rest := by
    rw [← List.drop_drop, List.drop_left, List.drop_left]
  simp only [headerValue, hfind, Option.map_some, hrest, hend]
  rw [List.append_assoc, List.take_left]

/-- A line is found with its end. -/
theorem find_line_isSome (before : List Octets) (line : Octets) (after : List Octets) :
    (find (line ++ crlf) (headerOf (before ++ line :: after))).isSome = true := by
  rw [Option.isSome_iff_ne_none, ne_eq, find_eq_none (by simp [crlf, ascii]), not_forall]
  refine ⟨(before.flatMap (· ++ crlf)).length, not_not.2 ?_⟩
  rw [headerOf, List.flatMap_append, List.flatMap_cons, List.append_assoc, List.drop_left,
    List.append_assoc]
  exact List.prefix_append _ _

/-! ### The request -/

/-- No end of line and no blank is inside. -/
def Word (text : Octets) : Prop := ∀ x ∈ text, x ≠ 13 ∧ x ≠ 10 ∧ x ≠ 32

theorem Word.append {text text' : Octets} (h : Word text) (h' : Word text') :
    Word (text ++ text') := by
  intro x hx
  rcases List.mem_append.1 hx with hx | hx
  · exact h x hx
  · exact h' x hx

theorem word_toString (n : ℕ) : Word (ascii (toString n)) := by
  intro x hx
  obtain ⟨c, hc, rfl⟩ := List.mem_map.1 hx
  rw [Nat.toString_eq_repr, Nat.toList_repr] at hc
  have hdigit := Nat.isDigit_of_mem_toDigits (by decide) (by decide) hc
  have hrange : 48 ≤ c.toNat ∧ c.toNat ≤ 57 := by
    simpa [Char.isDigit, UInt32.le_iff_toNat_le] using hdigit
  have hsmall : (UInt8.ofNat c.toNat).toNat = c.toNat := by
    rw [UInt8.toNat_ofNat']
    omega
  refine ⟨?_, ?_, ?_⟩
  all_goals
    intro h
    rw [h] at hsmall
    simp at hsmall
    omega

def hostLine (protocolLocal : HostAndPort) : Octets :=
  ascii "Host: " ++ protocolLocal.host ++ ascii ":" ++ ascii (toString protocolLocal.port.toNat)

/-- The lines of the request. -/
def requestLines (protocolLocal : HostAndPort) (key : Octets) : List Octets :=
  [ascii "GET / HTTP/1.1", hostLine protocolLocal, ascii "Upgrade: websocket",
    ascii "Connection: Upgrade", ascii "Sec-WebSocket-Key: " ++ key,
    ascii "Sec-WebSocket-Version: 13"]

theorem upgradeRequest_eq (protocolLocal : HostAndPort) (key : Octets) :
    upgradeRequest protocolLocal key = headerOf (requestLines protocolLocal key) := by
  have hfirst : ascii "GET / HTTP/1.1\r\nHost: " =
      ascii "GET / HTTP/1.1" ++ crlf ++ ascii "Host: " := by decide
  have hupgrade : ascii "\r\nUpgrade: websocket\r\n" =
      crlf ++ ascii "Upgrade: websocket" ++ crlf := by decide
  have hkey : ascii "Connection: Upgrade\r\nSec-WebSocket-Key: " =
      ascii "Connection: Upgrade" ++ crlf ++ ascii "Sec-WebSocket-Key: " := by decide
  have hlast : ascii "\r\nSec-WebSocket-Version: 13\r\n\r\n" =
      crlf ++ ascii "Sec-WebSocket-Version: 13" ++ crlf ++ crlf := by decide
  rw [upgradeRequest, hfirst, hupgrade, hkey, hlast]
  simp [headerOf, requestLines, hostLine]

theorem isLine_append {name value : Octets} (hname : IsLine name) (hvalue : Word value) :
    IsLine (name ++ value) := by
  obtain ⟨hne, hcr, hlf⟩ := hname
  refine ⟨by simp [hne], ?_, ?_⟩
  · rw [List.mem_append, not_or]
    exact ⟨hcr, fun h => (hvalue _ h).1 rfl⟩
  · rw [List.mem_append, not_or]
    exact ⟨hlf, fun h => (hvalue _ h).2.1 rfl⟩

instance (line : Octets) : Decidable (IsLine line) := inferInstanceAs (Decidable (_ ∧ _))

section Request

variable {protocolLocal : HostAndPort} {key : Octets}

theorem isLine_hostLine (hhost : Word protocolLocal.host) : IsLine (hostLine protocolLocal) := by
  refine isLine_append ?_ (word_toString _)
  have hcolon : IsLine (ascii "Host: " ++ (protocolLocal.host ++ ascii ":")) :=
    isLine_append (by decide) (hhost.append (forall_mem_of_all (by decide)))
  rwa [← List.append_assoc] at hcolon

/-- The only blank of the line is behind its name, which is too short for that of the key. -/
theorem find_key_hostLine (hhost : Word protocolLocal.host) :
    find (ascii "Sec-WebSocket-Key: ") (hostLine protocolLocal) = none := by
  rw [find_eq_none (by decide)]
  rintro i ⟨after, hafter⟩
  have hblank : (hostLine protocolLocal)[i + 18]? = some 32 := by
    rw [← List.getElem?_drop, ← hafter, List.getElem?_append_left (by decide)]
    decide
  have hword : Word (protocolLocal.host ++ ascii ":" ++ ascii (toString protocolLocal.port.toNat)) :=
    (hhost.append (forall_mem_of_all (by decide))).append (word_toString _)
  have hline : hostLine protocolLocal = ascii "Host: " ++
      (protocolLocal.host ++ ascii ":" ++ ascii (toString protocolLocal.port.toNat)) := by
    simp [hostLine]
  have hname : (ascii "Host: ").length = 6 := by decide
  rw [hline, List.getElem?_append_right (by omega)] at hblank
  exact (hword _ (List.mem_of_getElem? hblank)).2.2 rfl

theorem isLine_requestLines (hhost : Word protocolLocal.host) (hkey : Word key) :
    ∀ line ∈ requestLines protocolLocal key, IsLine line := by
  simp only [requestLines, List.forall_mem_cons, List.not_mem_nil, false_imp_iff, implies_true,
    and_true]
  exact ⟨by decide, isLine_hostLine hhost, by decide, by decide, isLine_append (by decide) hkey,
    by decide⟩

/-- **The server finds the key of the client.** -/
theorem requestKey_request (hhost : Word protocolLocal.host) (hkey : Word key) :
    WsConnection.requestKey (upgradeRequest protocolLocal key) = some key := by
  have hupgrade := find_line_isSome [ascii "GET / HTTP/1.1", hostLine protocolLocal]
    (ascii "Upgrade: websocket") [ascii "Connection: Upgrade", ascii "Sec-WebSocket-Key: " ++ key,
      ascii "Sec-WebSocket-Version: 13"]
  have hconnection := find_line_isSome
    [ascii "GET / HTTP/1.1", hostLine protocolLocal, ascii "Upgrade: websocket"]
    (ascii "Connection: Upgrade") [ascii "Sec-WebSocket-Key: " ++ key,
      ascii "Sec-WebSocket-Version: 13"]
  have hvalue : headerValue (ascii "Sec-WebSocket-Key: ")
      (upgradeRequest protocolLocal key) = some key := by
    have hlines : ∀ line ∈ (requestLines protocolLocal key).take 4,
        find (ascii "Sec-WebSocket-Key: ") line = none := by
      simp only [requestLines, List.take_succ_cons, List.take_zero, List.forall_mem_cons,
        List.not_mem_nil, false_imp_iff, implies_true, and_true]
      exact ⟨by decide, find_key_hostLine hhost, by decide, by decide⟩
    have h := headerValue_line (by decide) (by decide) (by decide)
      (fun h => (hkey _ h).1 rfl) hlines (headerOf [ascii "Sec-WebSocket-Version: 13"])
    rw [← h, upgradeRequest_eq]
    simp [headerOf, requestLines]
  have hboth : ascii "Upgrade: websocket\r\n" = ascii "Upgrade: websocket" ++ crlf ∧
      ascii "Connection: Upgrade\r\n" = ascii "Connection: Upgrade" ++ crlf := by decide
  rw [WsConnection.requestKey, hvalue, hboth.1, hboth.2, upgradeRequest_eq]
  exact if_pos ⟨hupgrade, hconnection⟩

end Request

/-! ### The reply -/

/-- The lines of the reply. -/
def replyLines (acceptKey : Octets) : List Octets :=
  [ascii "HTTP/1.1 101 Switching Protocols", ascii "Upgrade: websocket",
    ascii "Connection: Upgrade", ascii "Sec-WebSocket-Accept: " ++ acceptKey]

theorem upgradeReply_eq (acceptKey : Octets) :
    upgradeReply acceptKey = headerOf (replyLines acceptKey) := by
  have hfirst : ascii
      "HTTP/1.1 101 Switching Protocols\r\nUpgrade: websocket\r\nConnection: Upgrade\r\n" =
      ascii "HTTP/1.1 101 Switching Protocols" ++ crlf ++ ascii "Upgrade: websocket" ++ crlf ++
        ascii "Connection: Upgrade" ++ crlf := by decide
  have hlast : ascii "\r\n\r\n" = crlf ++ crlf := by decide
  rw [upgradeReply, hfirst, hlast]
  simp [headerOf, replyLines]

/-- **The client finds the answer to its key**, whatever follows. -/
theorem headerValue_reply {acceptKey : Octets} (hkey : Word acceptKey) (extra : Octets) :
    headerValue (ascii "Sec-WebSocket-Accept: ") (upgradeReply acceptKey ++ extra) =
      some acceptKey := by
  have hlines : ∀ line ∈ (replyLines acceptKey).take 3,
      find (ascii "Sec-WebSocket-Accept: ") line = none := by
    simp only [replyLines, List.take_succ_cons, List.take_zero, List.forall_mem_cons,
      List.not_mem_nil, false_imp_iff, implies_true, and_true]
    exact ⟨by decide, by decide, by decide⟩
  have h := headerValue_line (by decide) (by decide) (by decide)
    (fun h => (hkey _ h).1 rfl) hlines (crlf ++ extra)
  rw [← h, upgradeReply_eq]
  simp [headerOf, replyLines]

/-! ### Complete headers -/

/-- As long as nothing but the headers has come, they are complete when all of them are there. -/
theorem complete_headerOf_iff {line : Octets} {lines : List Octets}
    (hlines : ∀ l ∈ line :: lines, IsLine l) {p : Octets} (hp : p <+: headerOf (line :: lines)) :
    (find (ascii "\r\n\r\n") p).isSome = true ↔ p = headerOf (line :: lines) := by
  constructor
  · intro hsome
    refine hp.eq_of_length_le ?_
    by_contra hlt
    have hnone := find_end_of_prefix hlines hp (by omega)
    rw [hnone] at hsome
    cases hsome
  · rintro rfl
    have hwhole := find_end_of_whole line lines []
    rwa [List.append_nil] at hwhole

theorem complete_request_iff {protocolLocal : HostAndPort} {key p : Octets}
    (hhost : Word protocolLocal.host) (hkey : Word key)
    (hp : p <+: upgradeRequest protocolLocal key) :
    (find (ascii "\r\n\r\n") p).isSome = true ↔ p = upgradeRequest protocolLocal key := by
  rw [upgradeRequest_eq] at hp ⊢
  exact complete_headerOf_iff (isLine_requestLines hhost hkey) hp

theorem complete_reply_append (acceptKey extra : Octets) :
    (find (ascii "\r\n\r\n") (upgradeReply acceptKey ++ extra)).isSome = true := by
  rw [upgradeReply_eq]
  exact find_end_of_whole _ _ extra

theorem upgradeRequest_ne_nil (protocolLocal : HostAndPort) (key : Octets) :
    upgradeRequest protocolLocal key ≠ [] := by
  simp [upgradeRequest, ascii]

theorem upgradeReply_ne_nil (acceptKey : Octets) : upgradeReply acceptKey ≠ [] := by
  simp [upgradeReply, ascii]

end Corba
