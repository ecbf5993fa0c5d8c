import Turnstile.Config.Secret
import Turnstile.Text.Blank
import Turnstile.Text.Letter

/-! Files with settings, one `NAME=value` on each line. -/

namespace Turnstile.Dotenv

/-- Where reading stands between lines. A line goes on after its end while a quote is open. -/
inductive LineState where
  | complete
  | escape
  | strong
  | strongEscape
  | weak
  | weakEscape
  | blank
  deriving Repr, DecidableEq

def LineState.outside (c : Char) : LineState :=
  if c = '\\' then escape
  else if c = '"' then weak
  else if c = '\'' then strong
  else complete

/-- The state after a character; a comment ends the line. -/
def LineState.step (s : LineState) (c : Char) : Option LineState :=
  match s with
  | blank => if c = '#' then none else some (.outside c)
  | escape => some complete
  | complete =>
    if isBlank c ∧ c ≠ '\n' ∧ c ≠ '\r' then some blank else some (.outside c)
  | weak => some (if c = '\\' then weakEscape else if c = '"' then complete else weak)
  | weakEscape => some weak
  | strong => some (if c = '\\' then strongEscape else if c = '\'' then complete else strong)
  | strongEscape => some strong

/-- Follows the characters of a physical line: the state after them, or the characters before a
comment. -/
def scanLine : LineState → List Char → List Char → List Char ⊕ LineState
  | s, _, [] => .inr s
  | s, done, c :: cs =>
    match s.step c with
    | none => .inl done.reverse
    | some s => scanLine s (c :: done) cs

def withoutEnd (cs : List Char) : List Char :=
  match cs.reverse with
  | '\n' :: '\r' :: rest => rest.reverse
  | '\n' :: rest => rest.reverse
  | _ => cs

/-- The physical lines of a file, each with its end. `done` holds the line so far in reverse. -/
def physicalLines : Bytes → Bytes → List Bytes
  | [], [] => []
  | done, [] => [done.reverse]
  | done, b :: rest =>
    if b = 0x0A then (b :: done).reverse :: physicalLines [] rest
    else physicalLines (b :: done) rest

def isComment (cs : List Char) : Bool :=
  (cs.dropWhile isBlank).head? = some '#'

/-- The logical lines of a file, up to the first that is broken off or not UTF-8. -/
def logicalLines : List Char → LineState → List Bytes → List (List Char)
  | _, _, [] => []
  | before, state, bytes :: rest =>
    match ofUtf8? bytes with
    | none => []
    | some text =>
      let line := before ++ text.toList
      if isComment line then [] :: logicalLines [] .complete rest
      else
        match scanLine state [] text.toList with
        | .inl beforeComment => (before ++ beforeComment) :: logicalLines [] .complete rest
        | .inr .complete => withoutEnd line :: logicalLines [] .complete rest
        | .inr state => logicalLines line state rest

/-- The variables set so far: those of the program, and those read, a name without value
included. -/
structure Known where
  environment : Environment
  read : List (String × String) := []

def Known.value (k : Known) (name : String) : String :=
  (k.environment.lookup name).getD ((k.read.lookup name).getD "")

/-- A name to be replaced, as far as it is read: after a dollar sign, or also after a brace. -/
inductive Replacing where
  | no
  | plain
  | braced
  deriving Repr, DecidableEq

structure ValueState where
  strong : Bool := false
  weak : Bool := false
  escaped : Bool := false
  ending : Bool := false
  replacing : Replacing := .no
  /-- The characters of the name, in reverse. -/
  name : List Char := []
  /-- The characters of the value, in reverse. -/
  out : List Char := []

/-- Puts a value in place of the name read so far. -/
def ValueState.replace (k : Known) (s : ValueState) : ValueState :=
  { s with
    out := (k.value (String.ofList s.name.reverse)).toList.reverse ++ s.out
    name := [] }

/-- One character of a value outside a name; `none` if it may not stand there. -/
def ValueState.plainStep (s : ValueState) (c : Char) : Option ValueState :=
  if c = '$' then some { s with replacing := .plain }
  else if s.weak then
    if c = '"' then some { s with weak := false }
    else if c = '\\' then some { s with escaped := true }
    else some { s with out := c :: s.out }
  else if c = '\'' then some { s with strong := true }
  else if c = '"' then some { s with weak := true }
  else if c = '\\' then some { s with escaped := true }
  else if c = ' ' ∨ c = '\t' then some { s with ending := true }
  else some { s with out := c :: s.out }

/-- One character of a value; `none` if it may not stand there. -/
def ValueState.step (k : Known) (s : ValueState) (c : Char) : Option ValueState :=
  if s.escaped then
    if c = '\\' ∨ c = '\'' ∨ c = '"' ∨ c = '$' ∨ c = ' ' then
      some { s with out := c :: s.out, escaped := false }
    else if c = 'n' then some { s with out := '\n' :: s.out, escaped := false }
    else none
  else if s.strong then
    if c = '\'' then some { s with strong := false } else some { s with out := c :: s.out }
  else
    match s.replacing with
    | .no => s.plainStep c
    | .plain =>
      if isLetterOrDigit c then some { s with name := c :: s.name }
      else if c = '\x7b' ∧ s.name = [] then some { s with replacing := .braced }
      else
        let s := s.replace k
        if c = '$' then some s
        else some { s with replacing := .no, out := c :: s.out }
    | .braced =>
      if isLetterOrDigit c then some { s with name := c :: s.name }
      else if c = '\x7d' then some { s.replace k with replacing := .no }
      else some { s with name := c :: s.name }

def readValue (k : Known) : ValueState → List Char → Option String
  | s, [] =>
    if s.replacing = .braced ∨ s.strong ∨ s.weak then none
    else some (String.ofList (s.replace k).out.reverse)
  | s, c :: cs =>
    if s.ending then
      if c = ' ' ∨ c = '\t' then readValue k s cs
      else if c = '#' then readValue k s []
      else none
    else
      match s.step k c with
      | some s => readValue k s cs
      | none => none

def isKeyChar (c : Char) : Bool :=
  c.isAlphanum || c = '_' || c = '.'

def readKey (cs : List Char) : Option (List Char × List Char) :=
  if cs.head?.any fun c => c.isAlpha || c = '_' then
    some (cs.takeWhile isKeyChar, cs.dropWhile isKeyChar)
  else none

/-- The name and the rest after the equals sign. The word `export` may stand before the name. -/
def readName (cs : List Char) : Option (List Char × List Char) := do
  let (key, rest) ← readKey cs
  match rest.dropWhile isBlank with
  | '=' :: value => return (key, value)
  | rest =>
    guard (key = "export".toList)
    let (key, rest) ← readKey rest
    match rest.dropWhile isBlank with
    | '=' :: value => return (key, value)
    | _ => none

inductive Line where
  | nothing
  | setting (name value : String)
  | broken
  deriving Repr, DecidableEq

def readLine (k : Known) (cs : List Char) : Line :=
  let cs := cs.dropWhile isBlank
  if cs = [] ∨ cs.head? = some '#' then .nothing
  else
    match readName cs with
    | none => .broken
    | some (key, rest) =>
      let rest := rest.dropWhile isBlank
      if rest = [] ∨ rest.head? = some '#' then .setting (String.ofList key) ""
      else
        match readValue k {} rest with
        | some value => .setting (String.ofList key) value
        | none => .broken

/-- Sets the variables of some lines, up to the first broken one. A variable that is set already
keeps its value. -/
def applyLines : Known → List (List Char) → Environment
  | k, [] => k.environment
  | k, line :: rest =>
    match readLine k line with
    | .nothing => applyLines k rest
    | .broken => k.environment
    | .setting name value =>
      let read := (name, value) :: k.read
      match k.environment.lookup name with
      | some _ => applyLines { k with read } rest
      | none =>
        let others := k.environment.entries.filter fun v => v.1 ≠ name
        applyLines ⟨⟨(name, utf8 value) :: others⟩, read⟩ rest

/-- The environment with the settings of a file for what was unset. -/
def load (env : Environment) (content : Bytes) : Environment :=
  let content := if [0xEF, 0xBB, 0xBF].isPrefixOf content then content.drop 3 else content
  applyLines ⟨env, []⟩ (logicalLines [] .complete (physicalLines [] content))

end Turnstile.Dotenv
