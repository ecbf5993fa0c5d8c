/-! Media types, as far as JSON is told from anything else. -/

namespace Turnstile.Http

/-- The characters of types, subtypes and parameters. -/
def isTokenChar (c : Char) : Bool :=
  c.isAlphanum || "!#$%&'*+-.^_|~".toList.contains c || c.toNat = 0x60

def isQuotedChar (c : Char) : Bool :=
  31 < c.toNat && c.toNat ≠ 127

inductive ParamState where
  | beforeName
  | name
  | beforeValue
  | value
  | beforeQuoted
  | quoted
  | afterQuoted
  deriving Repr, DecidableEq

def ParamState.step (s : ParamState) (c : Char) : Option ParamState :=
  match s with
  | beforeName => if c = ' ' then some beforeName else if isTokenChar c then some name else none
  | name => if c = '=' then some beforeValue else if isTokenChar c then some name else none
  | beforeValue =>
    if c = '"' then some beforeQuoted else if isTokenChar c then some value else none
  | value => if c = ';' then some beforeName else if isTokenChar c then some value else none
  | beforeQuoted => if isQuotedChar c then some quoted else none
  | quoted => if c = '"' then some afterQuoted else if isQuotedChar c then some quoted else none
  | afterQuoted =>
    if c = ';' then some beforeName else if c = ' ' then some afterQuoted else none

def ParamState.final : ParamState → Bool
  | beforeName | beforeValue | value | afterQuoted => true
  | name | beforeQuoted | quoted => false

def wellFormedParams (cs : List Char) : Bool :=
  (cs.foldlM ParamState.step .beforeName).any ParamState.final

/-- Whether a media type is JSON: `application/json`, or a subtype of `application` with the
suffix `json`. -/
def isJsonType (text : String) : Bool :=
  let cs := text.toList
  let type := cs.takeWhile (· ≠ '/')
  let rest := (cs.dropWhile (· ≠ '/')).drop 1
  let subtype := rest.takeWhile (· ≠ ';')
  let params := (rest.dropWhile (· ≠ ';')).drop 1
  let lower := subtype.map Char.toLower
  let suffix := (lower.reverse.takeWhile (· ≠ '+')).reverse
  let hasSuffix := (lower.drop 1).contains '+'
  let main := if hasSuffix then lower.take (lower.length - suffix.length - 1) else lower
  type.all isTokenChar && type.map Char.toLower = "application".toList &&
    cs.contains '/' && subtype ≠ [] && subtype.all isTokenChar &&
    wellFormedParams params &&
    (main = "json".toList || (hasSuffix && suffix = "json".toList))

end Turnstile.Http
