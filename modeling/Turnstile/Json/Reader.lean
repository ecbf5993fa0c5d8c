import Turnstile.Json.Value

/-! Reading JSON from bytes, with the bytes left over known even after a fault. -/

namespace Turnstile.Json

inductive Fault where
  /-- The text is not JSON. -/
  | grammar
  /-- The text is JSON so far, but not a value of the kind asked for. -/
  | shape
  deriving Repr, DecidableEq

/-- A reader consumes bytes from the front; what it left is known also when it fails. -/
abbrev Reader := ExceptT Fault (StateM Bytes)

@[inline] def byte (c : Char) : UInt8 := c.toNat.toUInt8

def isSpace (b : UInt8) : Bool :=
  b = 0x20 || b = 0x09 || b = 0x0a || b = 0x0d

def isDigit (b : UInt8) : Bool :=
  0x30 ≤ b && b ≤ 0x39

/-- The next byte, which is consumed. -/
def next? : Reader (Option UInt8) := do
  match ← get with
  | [] => return none
  | b :: rest =>
    set rest
    return some b

def advance : Reader Unit :=
  modify List.tail

/-- The next byte that is not white space. Only the white space before it is consumed. -/
def peek : Reader (Option UInt8) := do
  modify (List.dropWhile isSpace)
  return (← get).head?

def literal : List Char → Reader Unit
  | [] => return
  | c :: cs => do
    if (← next?) = some (byte c) then literal cs else throw .grammar

/-- Runs a reader between brackets: the closing bracket is read even after the inside failed. -/
def enclosed {α : Type} (inside : Reader α) (close : Reader Unit) : Reader α := fun s =>
  match inside s with
  | (.error e, s) => (.error e, (close s).2)
  | (.ok a, s) =>
    match close s with
    | (.error e, s) => (.error e, s)
    | (.ok (), s) => (.ok a, s)

/-- The result of a reader if it succeeds; on a fault reading goes on where the reader stopped. -/
def tried {α : Type} (r : Reader α) : Reader (Option α) := fun s =>
  match r s with
  | (.error _, s) => (.ok none, s)
  | (.ok a, s) => (.ok (some a), s)

/-- Where reading stands inside a quoted text. -/
inductive Escape where
  | plain
  /-- After a backslash. -/
  | slash
  /-- Inside four hexadecimal digits, `left` of them to come, after a first surrogate or not. -/
  | hex (first : Option Nat) (left value : Nat)
  /-- After the digits of a first surrogate. -/
  | awaitSlash (first : Nat)
  /-- After a first surrogate and a backslash. -/
  | awaitU (first : Nat)
  deriving Repr, DecidableEq

inductive Step where
  | fault
  | close
  | go (state : Escape) (out : Bytes)

def Step.ofUnit (first : Option Nat) (unit : Nat) : Step :=
  match first with
  | none =>
    if 0xDC00 ≤ unit ∧ unit ≤ 0xDFFF then .fault
    else if 0xD800 ≤ unit ∧ unit ≤ 0xDBFF then .go (.awaitSlash unit) []
    else .go .plain (String.utf8EncodeChar (Char.ofNat unit))
  | some first =>
    if 0xDC00 ≤ unit ∧ unit ≤ 0xDFFF then
      .go .plain (String.utf8EncodeChar
        (Char.ofNat (0x10000 + (first - 0xD800) * 0x400 + (unit - 0xDC00))))
    else .fault

def Escape.step (e : Escape) (b : UInt8) : Step :=
  match e with
  | plain =>
    if b = byte '"' then .close
    else if b = byte '\\' then .go slash []
    else if b < 0x20 then .fault
    else .go plain [b]
  | slash =>
    if b = byte '"' ∨ b = byte '\\' ∨ b = byte '/' then .go plain [b]
    else if b = byte 'b' then .go plain [8]
    else if b = byte 'f' then .go plain [12]
    else if b = byte 'n' then .go plain [10]
    else if b = byte 'r' then .go plain [13]
    else if b = byte 't' then .go plain [9]
    else if b = byte 'u' then .go (hex none 4 0) []
    else .fault
  | hex first left value =>
    match hexValue? (Char.ofNat b.toNat) with
    | none => .fault
    | some d =>
      if left ≤ 1 then Step.ofUnit first (16 * value + d)
      else .go (hex first (left - 1) (16 * value + d)) []
  | awaitSlash first => if b = byte '\\' then .go (awaitU first) [] else .fault
  | awaitU first => if b = byte 'u' then .go (hex (some first) 4 0) [] else .fault

/-- The bytes of a quoted text after its opening quote, up to and with the closing one. `done`
holds the bytes so far in reverse. -/
def quoted : Escape → Bytes → Bytes → Except Fault Bytes × Bytes
  | _, _, [] => (.error .grammar, [])
  | e, done, b :: rest =>
    match e.step b with
    | .fault => (.error .grammar, rest)
    | .close => (.ok done.reverse, rest)
    | .go e out => quoted e (out.reverse ++ done) rest

/-- A text after its opening quote. It must be UTF-8. -/
def textBody : Reader String := fun s =>
  match quoted .plain [] s with
  | (.error e, rest) => (.error e, rest)
  | (.ok b, rest) =>
    match ofUtf8? b with
    | some content => (.ok content, rest)
    | none => (.error .grammar, rest)

/-- Where skipping stands inside a quoted text whose content does not matter. -/
inductive SkipState where
  | plain
  | slash
  | hex (left : Nat)
  deriving Repr, DecidableEq

/-- Skips a quoted text after its opening quote. Neither UTF-8 nor surrogates are checked. -/
def skipQuoted : SkipState → Bytes → Except Fault Unit × Bytes
  | _, [] => (.error .grammar, [])
  | .plain, b :: rest =>
    if b = byte '"' then (.ok (), rest)
    else if b = byte '\\' then skipQuoted .slash rest
    else if b < 0x20 then (.error .grammar, rest)
    else skipQuoted .plain rest
  | .slash, b :: rest =>
    if b = byte 'u' then skipQuoted (.hex 4) rest
    else if (['"', '\\', '/', 'b', 'f', 'n', 'r', 't'].map byte).contains b then
      skipQuoted .plain rest
    else (.error .grammar, rest)
  | .hex left, b :: rest =>
    if (hexValue? (Char.ofNat b.toNat)).isNone then (.error .grammar, rest)
    else if left ≤ 1 then skipQuoted .plain rest
    else skipQuoted (.hex (left - 1)) rest

inductive Number where
  /-- An integer of at most 64 bits, signed or not. -/
  | whole (n : Int)
  /-- Any other number, minus zero included. -/
  | real
  deriving Repr, DecidableEq

/-- Appends decimal digits to a number while it fits into 64 bits: the number and the digits left
over. -/
def appendDigits : Nat → Bytes → Nat × Bytes
  | n, [] => (n, [])
  | n, d :: ds =>
    let m := 10 * n + (d.toNat - 0x30)
    if m < 1 <<< 64 then appendDigits m ds else (n, d :: ds)

def digitRun : Reader Bytes := do
  let s ← get
  set (s.dropWhile isDigit)
  return s.takeWhile isDigit

def digitRun1 : Reader Bytes := do
  let ds ← digitRun
  if ds = [] then throw .grammar
  return ds

/-- The digits before a fraction or exponent, without a leading zero. -/
def wholeDigits : Reader Bytes := do
  let ds ← digitRun1
  if ds.head? = some 0x30 ∧ 1 < ds.length then throw .grammar
  return ds

/-- The digits of a fraction, if there is one. -/
def fraction? : Reader (Option Bytes) := do
  if (← get).head? = some (byte '.') then
    advance
    return some (← digitRun1)
  else return none

/-- The sign of an exponent, after its letter: whether the exponent is negative. -/
def exponentSign : Reader Bool := do
  let b := (← get).head?
  if b = some (byte '+') ∨ b = some (byte '-') then advance
  return b = some (byte '-')

/-- Whether an exponent letter is next; it is consumed. -/
def exponentLetter : Reader Bool := do
  let b := (← get).head?
  if b = some (byte 'e') ∨ b = some (byte 'E') then
    advance
    return true
  else return false

def maxExponent : Nat := 2147483647

/-- The value of exponent digits. Beyond `maxExponent` the value is zero or too large, as the rest
of the number has it: a number that is too large fails right there, otherwise the digits that are
left are passed over and there is no value. -/
def exponentValue (tooLarge : Bool) : Nat → Bytes → Except Fault (Option Nat) × Bytes
  | n, [] => (.ok (some n), [])
  | n, b :: rest =>
    if isDigit b then
      let n := 10 * n + (b.toNat - 0x30)
      if n ≤ maxExponent then exponentValue tooLarge n rest
      else if tooLarge then (.error .grammar, rest)
      else (.ok none, rest.dropWhile isDigit)
    else (.ok (some n), b :: rest)

/-- The nearest number with 53 significant bits; of two equally near ones the even one. -/
def roundToDouble (n : Nat) : Nat :=
  let unit := 1 <<< (n.log2 - 52)
  let q := n / unit
  let r := n % unit
  if unit < 2 * r ∨ (unit = 2 * r ∧ q % 2 = 1) then (q + 1) * unit else q * unit

/-- Whether `significand * 10 ^ exponent` is beyond the range of double precision, when both
factors are rounded to it before they are multiplied. -/
def beyondDouble (significand : Nat) (exponent : Int) : Bool :=
  0 < exponent && significand ≠ 0 &&
    (308 < exponent ||
      (1 <<< 1024) - (1 <<< 970) ≤
        roundToDouble significand * roundToDouble (Nat.pow 10 exponent.toNat))

/-- A number. One beyond the range of double precision is a fault. Digits that do not fit into 64
bits only count as places. -/
def number : Reader Number := do
  let negative := (← get).head? = some (byte '-')
  if negative then advance
  let (whole, dropped) := appendDigits 0 (← wholeDigits)
  let fraction ← fraction?
  let hasExponent ← exponentLetter
  if fraction.isNone ∧ ¬ hasExponent ∧ dropped = [] then
    if negative then
      if whole ≠ 0 ∧ whole ≤ 1 <<< 63 then return .whole (-whole)
    else return .whole whole
  let places := fraction.getD []
  let (significand, unread) := appendDigits whole places
  let scale : Int := dropped.length - (places.length - unread.length)
  if hasExponent then
    let shrinking ← exponentSign
    if ¬ ((← get).head?.any isDigit) then throw .grammar
    match ← (exponentValue (¬ shrinking ∧ significand ≠ 0) 0 : Reader (Option Nat)) with
    | none => return .real
    | some e =>
      let exponent : Int := if shrinking then -e else e
      if beyondDouble significand (scale + exponent) then throw .grammar
      return .real
  if beyondDouble significand scale then throw .grammar
  return .real

def skipNumber : Reader Unit := do
  if (← get).head? = some (byte '-') then advance
  let _ ← wholeDigits
  let _ ← fraction?
  if ← exponentLetter then
    let _ ← exponentSign
    let _ ← digitRun1

def literalFrom (b : UInt8) : Option (List Char) :=
  if b = byte 'n' then some "null".toList
  else if b = byte 't' then some "true".toList
  else if b = byte 'f' then some "false".toList
  else none

def beginsNumber (b : UInt8) : Bool :=
  b = byte '-' || isDigit b

/-- Refuses the value that comes next: read first if it is no list or record, so that a text that
is not JSON is told apart from a value of the wrong kind. -/
def mismatch {α : Type} : Reader α := do
  match ← peek with
  | none => throw .grammar
  | some b =>
    match literalFrom b with
    | some word =>
      literal word
      throw .shape
    | none =>
      if beginsNumber b then
        let _ ← number
        throw .shape
      else if b = byte '"' then
        advance
        let _ ← textBody
        throw .shape
      else if b = byte '[' ∨ b = byte '\x7b' then throw .shape
      else throw .grammar

def colon : Reader Unit := do
  if (← peek) = some (byte ':') then advance else throw .grammar

def closeList : Reader Unit := do
  let b ← peek
  if b = some (byte ']') then advance
  else
    if b = some (byte ',') then advance
    throw .grammar

def closeRecord : Reader Unit := do
  if (← peek) = some (byte '\x7d') then advance else throw .grammar

/-- Whether another item of a list follows; the comma before it is consumed. -/
def hasItem (first : Bool) : Reader Bool := do
  match ← peek with
  | none => throw .grammar
  | some b =>
    if b = byte ']' then return false
    else if first then return true
    else if b = byte ',' then
      advance
      match ← peek with
      | none => throw .grammar
      | some b => if b = byte ']' then throw .grammar else return true
    else throw .grammar

/-- The name of the next member of a record, if there is one; the comma before it is consumed. -/
def memberName? (first : Bool) : Reader (Option String) := do
  match ← peek with
  | none => throw .grammar
  | some b =>
    if b = byte '\x7d' then return none
    if ¬ first then
      if b ≠ byte ',' then throw .grammar
      advance
    if (← peek) = some (byte '"') then
      advance
      return some (← textBody)
    else throw .grammar

/-- The items of a list after its opening bracket; `fuel` bounds their number. -/
def items {α : Type} (item : Reader α) : Nat → Bool → Reader (List α)
  | 0, _ => throw .grammar
  | fuel + 1, first => do
    if ← hasItem first then
      let v ← item
      return v :: (← items item fuel false)
    else return []

/-- The members of a record after its opening bracket; `fuel` bounds their number. -/
def members {α : Type} (value : Reader α) : Nat → Bool → Reader (List (String × α))
  | 0, _ => throw .grammar
  | fuel + 1, first => do
    match ← memberName? first with
    | none => return []
    | some name =>
      colon
      let v ← value
      return (name, v) :: (← members value fuel false)

/-- A bound for the number of items or members that the bytes left can hold. -/
def bound : Reader Nat :=
  return (← get).length + 1

/-- What comes next while passing over a value. -/
inductive Expect where
  | value
  /-- An item, a member or a closing bracket; `first` right after an opening bracket. -/
  | more (first : Bool)
  deriving Repr, DecidableEq

/-- The opening bracket of a record or of a list. -/
inductive Bracket where
  | record
  | list
  deriving Repr, DecidableEq

/-- Passes over a value inside the given open brackets, which may nest to any depth. -/
def skipFrom : Nat → Expect → List Bracket → Reader Unit
  | 0, _, _ => throw .grammar
  | fuel + 1, .value, stack => do
    match ← peek with
    | none => throw .grammar
    | some b =>
      if b = byte '[' then
        advance
        skipFrom fuel (.more true) (.list :: stack)
      else if b = byte '\x7b' then
        advance
        skipFrom fuel (.more true) (.record :: stack)
      else
        match literalFrom b with
        | some word => literal word
        | none =>
          if beginsNumber b then skipNumber
          else if b = byte '"' then
            advance
            skipQuoted .plain
          else throw .grammar
        skipFrom fuel (.more false) stack
  | _ + 1, .more _, [] => return
  | fuel + 1, .more first, bracket :: stack => do
    let b ← peek
    let close := match bracket with
      | .record => byte '\x7d'
      | .list => byte ']'
    if b = some close then
      advance
      skipFrom fuel (.more false) stack
    else
      if ¬ first then
        if b = some (byte ',') then advance else throw .grammar
      if bracket = .record then
        if (← peek) = some (byte '"') then
          advance
          skipQuoted .plain
          colon
        else throw .grammar
      skipFrom fuel .value (bracket :: stack)

def skipValue : Reader Unit := do
  skipFrom (2 * (← bound)) .value []

/-- Reads a whole text: after the value only white space may follow. -/
def readAll {α : Type} (r : Reader α) (b : Bytes) : Except Fault α :=
  match r b with
  | (.error e, _) => .error e
  | (.ok a, rest) => if rest.all isSpace then .ok a else .error .grammar

end Turnstile.Json
