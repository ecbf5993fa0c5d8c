import Turnstile.Text.Blank
import Turnstile.Text.Integer
import Turnstile.Text.Letter

/-! Log levels and the settings that say which messages are shown. -/

namespace Turnstile

/-- The levels of messages, from the most to the least important; `off` is for settings only. -/
inductive LogLevel where
  | off | error | warn | info | debug | trace
  deriving Repr, DecidableEq

namespace LogLevel

def rank : LogLevel → Nat
  | off => 0 | error => 1 | warn => 2 | info => 3 | debug => 4 | trace => 5

def name : LogLevel → String
  | off => "off" | error => "error" | warn => "warn" | info => "info" | debug => "debug"
  | trace => "trace"

def all : List LogLevel := [off, error, warn, info, debug, trace]

def label (l : LogLevel) : String :=
  String.ofList (l.name.toList.map Char.toUpper)

def ofName? (s : List Char) : Option LogLevel :=
  all.find? fun l => l.name.toList = s.map Char.toLower

def ofNameOrRank? (s : List Char) : Option LogLevel :=
  (ofName? s).or ((natural? 64 s).bind fun n => all.find? fun l => l.rank = n)

end LogLevel

/-- A setting: messages from sources that start with a name, or from all, up to a level. -/
structure LogRule where
  source : Option (List Char)
  level : LogLevel
  deriving Repr, DecidableEq

namespace LogRule

/-- The length of the name, by which the most specific rule is found. -/
def specificity (r : LogRule) : Nat :=
  (r.source.getD []).length

def covers (r : LogRule) (source : List Char) : Bool :=
  (r.source.getD []).isPrefixOf source

/-- The most specific rule about a source, the first of equally specific ones. -/
def best? (source : List Char) : List LogRule → Option LogRule
  | [] => none
  | r :: rest =>
    match best? source rest with
    | none => if r.covers source then some r else none
    | some s => if r.covers source ∧ s.specificity ≤ r.specificity then some r else some s

end LogRule

def occursIn (part : List Char) : List Char → Bool
  | [] => part.isEmpty
  | c :: cs => part.isPrefixOf (c :: cs) || occursIn part cs

/-- Settings for messages: the rules, and a text without which a message is not shown. -/
structure LogFilter where
  rules : List LogRule
  required : List Char := []
  deriving Repr, DecidableEq

def LogFilter.shows (f : LogFilter) (source : String) (level : LogLevel) (message : String) :
    Bool :=
  ((LogRule.best? source.toList f.rules).any fun r => level.rank ≤ r.level.rank) &&
    occursIn f.required message.toList

/-- One part of a setting: a level for all sources, a source, or a source with a level. -/
def toolRule? (part : List Char) : Option LogRule :=
  match (part.splitOn '=').map trimBlanks with
  | name :: rest =>
    if name.any isBlank then none
    else
      match rest with
      | [] =>
        match LogLevel.ofName? name with
        | some l => some ⟨none, l⟩
        | none => some ⟨some name, .trace⟩
      | [[]] => some ⟨some name, .trace⟩
      | [level] => (LogLevel.ofName? level).map (⟨some name, ·⟩)
      | _ => none
  | [] => none

/-- The rules of a setting, and the text that may follow them after a slash. -/
def toolFilter? (setting : String) : Option LogFilter :=
  let rules? (cs : List Char) : Option (List LogRule) :=
    (((cs.splitOn ',').map trimBlanks).filter (· ≠ [])).mapM toolRule?
  match setting.toList.splitOn '/' with
  | [rules] => (rules? rules).map (⟨·, []⟩)
  | [rules, required] => (rules? rules).map (⟨·, required⟩)
  | _ => none

def serverLevel? (cs : List Char) : Option LogLevel :=
  if cs = [] then some .trace else LogLevel.ofNameOrRank? cs

/-- What follows the name of a span in brackets, up to its end: whether it is well-formed. -/
def isSpanRest (cs : List Char) : Bool :=
  let inside := cs.dropWhile fun c => c ≠ ']' && c ≠ '\x7b'
  let after := match inside with
    | '\x7b' :: fields => (fields.dropWhile (· ≠ '\x7d')).drop 1
    | _ => inside
  match after with
  | [']'] => true
  | ']' :: '=' :: level => (serverLevel? level).isSome
  | _ => false

/-- One part of a setting: a level for all sources, a source, or a source with a level. Parts about
spans are well-formed too, but say nothing about other messages. -/
def serverRule? (part : List Char) : Option (List LogRule) :=
  let isStart (c : Char) : Bool := isLetterOrDigit c || c = '-' || c = ':' || c = '_' || c = '['
  if ¬ part.head?.any isStart then none
  else
    let name := part.takeWhile fun c => c ≠ '=' && c ≠ '['
    match part.dropWhile fun c => c ≠ '=' && c ≠ '[' with
    | [] =>
      match LogLevel.ofNameOrRank? name with
      | some l => some [⟨none, l⟩]
      | none => some [⟨some name, .trace⟩]
    | '=' :: level => (serverLevel? level).map ([⟨some name, ·⟩])
    | _ :: span => if isSpanRest span then some [] else none

/-- The rules of a setting, the last of equal ones first. An empty setting shows errors only. -/
def serverFilter? (setting : String) : Option LogFilter :=
  match (setting.toList.splitOn ',').filter (· ≠ []) with
  | [] => some ⟨[⟨none, .error⟩], []⟩
  | parts => (parts.mapM serverRule?).map fun rules => ⟨rules.flatten.reverse, []⟩

/-- The rules without a setting, or with one that makes no sense. -/
def defaultServerFilter : LogFilter where
  rules := [⟨none, .info⟩, ⟨some "tollgate_api".toList, .debug⟩,
    ⟨some "tollgate_core".toList, .debug⟩]

end Turnstile
