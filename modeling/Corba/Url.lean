/-
Object URLs.

`decodeURI` of `src/corba/url.cc` is a recursive descent parser without a tokenizer: its lexer is the
text and a position in it.  A character may be read at the end of the text, where the terminating
zero is found, and is put back again by whoever does not want it; nothing checks that the position
does not get any further.

Main definitions:

* `Corba.ObjectAddress`, `Corba.CorbaLocation`, `Corba.CorbaName` — what is parsed, and how it is
  printed;
* `Corba.UrlLexer`, `Corba.UrlM` — the lexer;
* `Corba.UrlParser.parse`, `Corba.decodeURI` — the parser.
-/

import Corba.Exec
import Corba.Ior

set_option relaxedAutoImplicit false
set_option autoImplicit false

namespace Corba

open Exec

/-! ### Characters -/

/-- `isdigit` of the C locale. -/
abbrev isdigit : UInt8 → Bool := isDigit 10

/-- `isalnum` of the C locale. -/
def isalnum (c : UInt8) : Bool :=
  (48 ≤ c && c ≤ 57) || (65 ≤ c && c ≤ 90) || (97 ≤ c && c ≤ 122)

/-- `isspace` of the C locale. -/
def isspace (c : UInt8) : Bool := c == 32 || (9 ≤ c && c ≤ 13)

/-- Besides letters and digits, the characters of the literal of the source, one of which is written
with three octets. -/
def uriMarks : Octets := ascii "%;/:?:@&=+$,-_!~*" ++ [0xe2, 0x80, 0x99] ++ ascii "|()"

/-- `strchr` also finds the zero that terminates its string. -/
def strchr (s : Octets) (c : UInt8) : Bool := c == 0 || s.contains c

/-- The characters `UrlLexer::uri` accepts. -/
def isUriChar (c : UInt8) : Bool := isalnum c || strchr uriMarks c

/-- The characters of a label behind its first one. -/
def isLabelChar (c : UInt8) : Bool := isalnum c || c == 45

/-! ### What is parsed -/

/-- `ObjectAddress`. -/
structure ObjectAddress where
  proto : Octets := ascii "iiop"
  major : UInt8 := 1
  minor : UInt8 := 0
  host : Octets := []
  port : UInt16 := 2809
  deriving DecidableEq, Repr

/-- `CorbaLocation`. -/
structure CorbaLocation where
  addr : List ObjectAddress := []
  objectKey : Octets := []
  deriving DecidableEq, Repr

/-- `CorbaName`, which has a key of its own to begin with. -/
structure CorbaName extends CorbaLocation where
  objectKey := ascii "NameService"
  name : Octets := []
  deriving DecidableEq, Repr

/-- `std::variant<IOR, CorbaLocation, CorbaName>`. -/
inductive Uri where
  | ior (ior : IOR)
  | location (loc : CorbaLocation)
  | name (name : CorbaName)
  deriving DecidableEq, Repr

/-- The addresses of what has been parsed. -/
def Uri.addr : Uri → List ObjectAddress
  | .ior _ => []
  | .location loc => loc.addr
  | .name n => n.addr

/-- One round of the loop of `_str`. -/
def CorbaLocation.strAddress (txt : Octets) (a : ObjectAddress) : Octets :=
  let txt := if txt.length ≠ 0 then txt ++ ascii "," else txt
  if a.proto = ascii "iiop" then
    txt ++ (a.proto ++ ascii ":" ++ decimal a.major.toNat ++ ascii "." ++ decimal a.minor.toNat ++
      ascii "@" ++ a.host ++ ascii ":" ++ decimal a.port.toNat)
  else if a.proto = ascii "rir" then txt ++ ascii "rir:"
  else txt

def CorbaLocation._str (loc : CorbaLocation) : Octets :=
  let txt := loc.addr.foldl CorbaLocation.strAddress []
  if loc.objectKey.length ≠ 0 then txt ++ (ascii "/" ++ loc.objectKey) else txt

def CorbaLocation.str (loc : CorbaLocation) : Octets := ascii "corbaloc:" ++ loc._str

def CorbaName.str (name : CorbaName) : Octets :=
  let txt := ascii "corbaname:" ++ name.toCorbaLocation._str
  if name.name.length > 0 then txt ++ (ascii "#" ++ name.name) else txt

/-! ### Percent decoding -/

/-- The number `%x` finds behind the blanks and the sign, where a prefix must be followed by a
digit. -/
def scanDigits : Octets → Option ℕ
  | 48 :: x :: cs =>
      if x = 120 ∨ x = 88 then fromChars 16 (2 ^ 32) cs else fromChars 16 (2 ^ 32) (48 :: x :: cs)
  | cs => fromChars 16 (2 ^ 32) cs

/-- `sscanf(s, "%x", &ii)`: what it stores, if it stores something. -/
def scanHex (s : Octets) : Option ℤ :=
  match (s.takeWhile (· ≠ 0)).dropWhile isspace with
  | 43 :: cs => (scanDigits cs).map Int.ofNat
  | 45 :: cs => (scanDigits cs).map fun n => -Int.ofNat n
  | cs => (scanDigits cs).map Int.ofNat

/-- The loop of `_decodeURI` over what is left of its argument.  A number that is not found leaves
`ii` as it is, and in the beginning it has not been set. -/
def decodeEscapes : Octets → Option ℤ → Except Fault Octets
  | [], _ => .ok []
  | c :: cs, ii =>
      if c = 37 then
        match (scanHex (cs.take 2)).or ii with
        | none => .error (.undefined .uninitialized)
        | some v => do
            -- with less than two characters left, the index gets behind the end and the loop ends
            let ret ← match cs with
              | _ :: _ :: cs => decodeEscapes cs (some v)
              | _ => .ok []
            return UInt8.ofInt v :: ret
      else do
        let ret ← decodeEscapes cs ii
        return c :: ret

def _decodeURI (SRC : Octets) : Except Fault Octets := decodeEscapes SRC none

/-! ### The lexer -/

/-- `UrlLexer`. -/
structure UrlLexer where
  data : Octets
  pos : ℕ := 0
  deriving DecidableEq, Repr

/-- Programs that read from a lexer. -/
abbrev UrlM := EStateM Fault UrlLexer

/-- Only reading what is behind the terminating zero is undefined. -/
def UrlLexer.getc : UrlM UInt8 := do
  let url ← get
  if url.data.length < url.pos then throw (.undefined (.overread url.pos 1))
  else do
    set { url with pos := url.pos + 1 }
    return url.data.getD url.pos 0

namespace UrlLexer

def eof : UrlM Bool := do
  let url ← get
  return decide (url.pos ≥ url.data.length)

def ungetc : UrlM Unit := modify fun url => { url with pos := url.pos - 1 }

/-- `std::string::substr`. -/
def substr (s : Octets) (pos n : ℕ) : UrlM Octets :=
  if s.length < pos then throw (.thrown (.outOfRange "basic_string::substr"))
  else return (s.drop pos).take n

/-- `while (p(getc())) {}`.  After `n` characters, all that can follow is an access behind the
terminating zero. -/
def skipWhile (p : UInt8 → Bool) : ℕ → UrlM Unit
  | 0 => do let _ ← getc
  | n + 1 => do
      let c ← getc
      if p c then skipWhile p n

/-- The characters between the position and a character that `p` does not hold of. -/
def skip (p : UInt8 → Bool) : UrlM Unit := do
  let url ← get
  skipWhile p (url.data.length + 1)
  ungetc

/-- A number that is too large is not stored. -/
def number : UrlM (Option ℕ) := do
  let start := (← get).pos
  skip isdigit
  let url ← get
  if start = url.pos then return none
  else
    match fromChars 10 (2 ^ 32) ((url.data.take url.pos).drop start) with
    | some out => return some out
    | none => throw (.undefined .uninitialized)

/-- The loop of `uri`.  After `n` characters the text is at its end. -/
def uriLoop : ℕ → UrlM Unit
  | 0 => return ()
  | n + 1 => do
      if ← eof then return ()
      else
        let c ← getc
        if ¬ isUriChar c then ungetc
        else uriLoop n

/-- The second argument of `substr` is a length, but what is passed is a position. -/
def uri : UrlM (Option Octets) := do
  let start := (← get).pos
  uriLoop (← get).data.length
  let url ← get
  if url.pos = start then return none
  else
    -- not `url.pos - start`
    let SRC ← substr url.data start url.pos
    match _decodeURI SRC with
    | .ok ret => return some ret
    | .error f => throw f

/-- `UrlLexer::match`. -/
def matchText (s : Octets) : UrlM Bool := do
  let url ← get
  if url.data.length < url.pos + s.length then return false
  else if (url.data.drop url.pos).take s.length ≠ s then return false
  else do
    set { url with pos := url.pos + s.length }
    return true

end UrlLexer

/-! ### The parser -/

namespace UrlParser

open UrlLexer

def runtimeError {α : Type} (what : String) : UrlM α := throw (.thrown (.runtimeError what))

def keyString : UrlM Octets := do
  return (← uri).getD []

/-- `none` stands for the result `false`, which leaves the address as it is. -/
def port (addr : ObjectAddress) : UrlM (Option ObjectAddress) := do
  return (← number).map fun port => { addr with port := UInt16.ofNat port }

/-- The result, which is `true`, is not used. -/
def label : UrlM Unit := do
  let c ← getc
  if ¬ isalnum c then ungetc
  else skip isLabelChar

/-- `do { label(addr); } while (url.match("."))`.  Every round but the last one takes a dot, and the
text has no more than `n` of them. -/
def labels : ℕ → UrlM Unit
  | 0 => label
  | n + 1 => do
      label
      if ← matchText (ascii ".") then labels n

/-- The result, which is `true`, is not used. -/
def host (addr : ObjectAddress) : UrlM ObjectAddress := do
  let start := (← get).pos
  if ← matchText (ascii "[") then
    let url ← get
    match (url.data.drop start).findIdx? (· = 93) with
    | none => runtimeError "missing ] in IPv6 address"
    | some i =>
        -- the brackets belong to the host
        let last := start + i + 1
        let host ← substr url.data start (last - start)
        set { url with pos := last }
        return { addr with host }
  else
    labels (← get).data.length
    let url ← get
    if start = url.pos then return addr
    else
      let host ← substr url.data start (url.pos - start)
      return { addr with host }

/-- Where there is no version, the position is put back and the address is left as it is. -/
def noVersion (start : ℕ) (addr : ObjectAddress) : UrlM ObjectAddress := do
  modify fun url => { url with pos := start }
  return addr

/-- The result, which is `true`, is not used. -/
def version (addr : ObjectAddress) : UrlM ObjectAddress := do
  let start := (← get).pos
  let some major ← number | return addr
  if ¬ (← matchText (ascii ".")) then noVersion start addr
  else
    let some minor ← number | noVersion start addr
    if ¬ (← matchText (ascii "@")) then noVersion start addr
    else return { addr with major := UInt8.ofNat major, minor := UInt8.ofNat minor }

/-- The result is `true`. -/
def iiopAddr (addr : ObjectAddress) : UrlM ObjectAddress := do
  let addr ← version addr
  let addr ← host addr
  if ← matchText (ascii ":") then
    let some addr ← port addr | runtimeError "missing port number after :"
    return addr
  else return addr

def iiopId : UrlM Bool := do
  if ← matchText (ascii "iiop:") then return true
  else matchText (ascii ":")

def iiopProtAddr (addr : ObjectAddress) : UrlM (Option ObjectAddress) := do
  if ← iiopId then return some (← iiopAddr addr)
  else return none

def rirProtAddr (addr : ObjectAddress) : UrlM (Option ObjectAddress) := do
  if ← matchText (ascii "rir:") then return some { addr with proto := ascii "rir" }
  else return none

def protAddr (addr : ObjectAddress) : UrlM (Option ObjectAddress) := do
  match ← rirProtAddr addr with
  | some addr => return some addr
  | none => iiopProtAddr addr

def objAddr (addr : ObjectAddress) : UrlM (Option ObjectAddress) := protAddr addr

def expectedAddress : String := "expected object address after ','"

/-- The list is filled from the front.  Every address takes a character, so that there is none left
after `n` of them. -/
def objAddrList : ℕ → UrlM (List ObjectAddress)
  | 0 => runtimeError expectedAddress
  | n + 1 => do
      -- the same text is thrown for the first address, in front of which there is no comma
      let some addr ← objAddr {} | runtimeError expectedAddress
      if ← matchText (ascii ",") then return addr :: (← objAddrList n)
      else return [addr]

def corbaloc (loc : CorbaLocation) : UrlM CorbaLocation := do
  let addr ← objAddrList ((← get).data.length + 1)
  if ← matchText (ascii "/") then
    let objectKey ← keyString
    return { loc with addr := loc.addr ++ addr, objectKey }
  else return { loc with addr := loc.addr ++ addr }

def corbaname (name : CorbaName) : UrlM CorbaName := do
  let loc ← corbaloc name.toCorbaLocation
  let name := { name with addr := loc.addr, objectKey := loc.objectKey }
  if ← matchText (ascii "#") then
    -- what is left of the text now is not looked at
    match ← uri with
    | some uri => return { name with name := uri }
    | none => return name
  else return name

def badString : String := "Bad string, expected on of 'IOR:...', 'corbaloc:...' or 'corbaname:...'"

variable [Platform]

def parse : UrlM Uri := do
  if ← matchText (ascii "IOR:") then
    match IOR.ofString (← get).data with
    | .ok ior => return .ior ior
    | .error f => throw f
  else if ← matchText (ascii "corbaloc:") then return .location (← corbaloc {})
  else if ← matchText (ascii "corbaname:") then return .name (← corbaname {})
  else runtimeError badString

end UrlParser

/-- What a program yields, without the lexer it leaves. -/
def UrlLexer.outcome {α : Type} : EStateM.Result Fault UrlLexer α → Except Fault α
  | .ok a _ => .ok a
  | .error f _ => .error f

def decodeURI [Platform] (uri : Octets) : Except Fault Uri :=
  UrlLexer.outcome (UrlParser.parse { data := uri })

end Corba
