import Turnstile.Text.Integer

/-! Command-line arguments: options, flags and positional arguments. -/

namespace Turnstile.Arguments

inductive Kind where
  /-- An option without value, given at most once. -/
  | flag
  /-- An option with a value, given at most once. -/
  | single
  /-- An option with a natural number of some bits, given at most once. -/
  | number (bits : Nat)
  /-- An option with a value, given any number of times. -/
  | repeated
  /-- A flag that asks for the version and ends reading. -/
  | version
  /-- A flag that asks for help and ends reading. -/
  | help
  deriving Repr, DecidableEq

/-- An option: its long name, its letter if it has one, and its kind. -/
structure Opt where
  long : String
  letter : Option Char
  kind : Kind
  deriving Repr, DecidableEq

def helpOption : Opt := ⟨"help", some 'h', .help⟩

inductive Positionals where
  | atMost (n : Nat)
  /-- Reading stops at the first one. -/
  | stop
  deriving Repr, DecidableEq

def Positionals.allow : Positionals → Nat → Bool
  | .atMost n, count => count ≤ n
  | .stop, _ => false

/-- What was given, in order: options with their values, flags with an empty one, and positional
arguments. -/
structure Given where
  options : List (String × String) := []
  positionals : List String := []
  deriving Repr, DecidableEq

inductive Outcome where
  /-- What was given, and the arguments from the first positional one on if reading stops there. -/
  | given (g : Given) (rest : List String)
  | version
  /-- Help was asked for, by the long option or its letter. -/
  | help (long : Bool)
  /-- Arguments that do not fit. -/
  | usage
  deriving Repr, DecidableEq

/-- A natural number below `2 ^ bits`, in any spelling of an integer. -/
def number? (bits : Nat) (text : String) : Option Nat :=
  (((int64? text.toList).filter (0 ≤ ·)).map Int.toNat).filter (· < 1 <<< bits)

def Opt.fits (o : Opt) (value : String) : Bool :=
  match o.kind with
  | .number bits => (number? bits value).isSome
  | _ => true

namespace Given

def values (g : Given) (long : String) : List String :=
  (g.options.filter fun o => o.1 = long).map (·.2)

def value? (g : Given) (long : String) : Option String :=
  (g.values long).head?

def has (g : Given) (long : String) : Bool :=
  (g.value? long).isSome

/-- An option added, unless its value does not fit, or it was given before and may not be again. -/
def add? (g : Given) (o : Opt) (value : String) : Option Given :=
  if ¬ o.fits value ∨ (o.kind ≠ .repeated ∧ g.has o.long) then none
  else some { g with options := g.options ++ [(o.long, value)] }

end Given

def isValue (s : String) : Bool :=
  s = "-" || s.toList.head? ≠ some '-'

/-- Reads a cluster of letters, each a flag. -/
def letters (options : List Opt) : List Char → Given → Outcome
  | [], g => .given g []
  | c :: cs, g =>
    match options.find? fun o => o.letter = some c with
    | none => .usage
    | some o =>
      match o.kind with
      | .version => .version
      | .help => .help false
      | .flag =>
        match g.add? o "" with
        | some g => letters options cs g
        | none => .usage
      | .single | .number _ | .repeated => .usage

/-- What a long option is: its name and the value after an equals sign. -/
def longParts (s : String) : String × Option String :=
  let cs := s.toList.drop 2
  let name := String.ofList (cs.takeWhile (· ≠ '='))
  match cs.dropWhile (· ≠ '=') with
  | [] => (name, none)
  | _ :: value => (name, some (String.ofList value))

/-- Reads arguments, of which the first is the value of `pending` if there is such an option. -/
def read (options : List Opt) (positionals : Positionals) :
    List String → Option Opt → Given → Outcome
  | [], some _, _ => .usage
  | [], none, g => .given g []
  | arg :: rest, some o, g =>
    if isValue arg then
      match g.add? o arg with
      | some g => read options positionals rest none g
      | none => .usage
    else .usage
  | arg :: rest, none, g =>
    if arg = "--" then
      if positionals.allow (g.positionals.length + rest.length) then
        .given { g with positionals := g.positionals ++ rest } []
      else .usage
    else if "--".toList.isPrefixOf arg.toList then
      let (name, attached) := longParts arg
      match options.find? fun o => o.long = name with
      | none => .usage
      | some o =>
        match o.kind, attached with
        | .version, none => .version
        | .help, none => .help true
        | .version, some _ | .help, some _ | .flag, some _ => .usage
        | .single, none | .number _, none | .repeated, none =>
          read options positionals rest (some o) g
        | .flag, none | .single, some _ | .number _, some _ | .repeated, some _ =>
          match g.add? o (attached.getD "") with
          | some g => read options positionals rest none g
          | none => .usage
    else if isValue arg then
      if positionals = .stop then .given g (arg :: rest)
      else if positionals.allow (g.positionals.length + 1) then
        read options positionals rest none { g with positionals := g.positionals ++ [arg] }
      else .usage
    else
      match letters options (arg.toList.drop 1) g with
      | .given g _ => read options positionals rest none g
      | .version => .version
      | .help long => .help long
      | .usage => .usage

end Turnstile.Arguments
