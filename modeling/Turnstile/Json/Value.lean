import Turnstile.Text.Hex

/-! JSON values and the two ways of writing them. -/

namespace Turnstile

/-- A JSON value without fractional numbers. Members keep their order. -/
inductive Json where
  | null
  | bool (b : Bool)
  | int (n : Int)
  | text (s : String)
  | list (items : List Json)
  | record (members : List (String × Json))
  deriving Repr, Inhabited

namespace Json

def texts (l : List String) : Json :=
  list (l.map text)

/-- A text, or null. -/
def ofText? : Option String → Json
  | some s => text s
  | none => null

def text? : Json → Option String
  | text s => some s
  | _ => none

def textsIn : Json → List String
  | list items => items.filterMap text?
  | _ => []

def escape (c : Char) : List Char :=
  if c = '"' then ['\\', '"']
  else if c = '\\' then ['\\', '\\']
  else if c.toNat = 8 then ['\\', 'b']
  else if c.toNat = 9 then ['\\', 't']
  else if c.toNat = 10 then ['\\', 'n']
  else if c.toNat = 12 then ['\\', 'f']
  else if c.toNat = 13 then ['\\', 'r']
  else if c.toNat < 0x20 then
    ['\\', 'u', '0', '0', hexDigit (c.toNat / 16), hexDigit (c.toNat % 16)]
  else [c]

def quote (s : String) : List Char :=
  '"' :: s.toList.flatMap escape ++ ['"']

mutual

def compact : Json → List Char
  | null => "null".toList
  | bool true => "true".toList
  | bool false => "false".toList
  | int n => (toString n).toList
  | text s => quote s
  | list items => '[' :: compactItems items ++ [']']
  | record members => '\x7b' :: compactMembers members ++ ['\x7d']

def compactItems : List Json → List Char
  | [] => []
  | [v] => compact v
  | v :: vs => compact v ++ ',' :: compactItems vs

def compactMembers : List (String × Json) → List Char
  | [] => []
  | [(k, v)] => quote k ++ ':' :: compact v
  | (k, v) :: rest => quote k ++ ':' :: compact v ++ ',' :: compactMembers rest

end

def newline (n : Nat) : List Char :=
  '\n' :: List.replicate (2 * n) ' '

mutual

/-- A value on several lines, one for each item or member, indented from step `n`. -/
def pretty (n : Nat) : Json → List Char
  | list [] => ['[', ']']
  | list (v :: vs) => '[' :: prettyItems n (v :: vs) ++ newline n ++ [']']
  | record [] => ['\x7b', '\x7d']
  | record (m :: ms) => '\x7b' :: prettyMembers n (m :: ms) ++ newline n ++ ['\x7d']
  | null => "null".toList
  | bool true => "true".toList
  | bool false => "false".toList
  | int i => (toString i).toList
  | text s => quote s

def prettyItems (n : Nat) : List Json → List Char
  | [] => []
  | [v] => newline (n + 1) ++ pretty (n + 1) v
  | v :: vs => newline (n + 1) ++ pretty (n + 1) v ++ ',' :: prettyItems n vs

def prettyMembers (n : Nat) : List (String × Json) → List Char
  | [] => []
  | [(k, v)] => newline (n + 1) ++ quote k ++ [':', ' '] ++ pretty (n + 1) v
  | (k, v) :: rest =>
    newline (n + 1) ++ quote k ++ [':', ' '] ++ pretty (n + 1) v ++ ',' :: prettyMembers n rest

end

def toText (v : Json) : String :=
  String.ofList v.compact

def toLines (v : Json) : String :=
  String.ofList (v.pretty 0)

end Json

end Turnstile
