import Turnstile.Json.Reader

/-! Values of any kind, as far as their structure and texts go. -/

namespace Turnstile.Json

inductive Outline where
  | null
  | bool
  | number
  | text (s : String)
  | list (items : List Outline)
  | record (members : List (String × Outline))
  deriving Repr, Inhabited

/-- A value of any kind. Items and members are read by `inner`; without it, brackets are refused. -/
def outlineWith (inner : Option (Reader Outline)) : Reader Outline := do
  match ← peek with
  | none => throw .grammar
  | some b =>
    match literalFrom b with
    | some word =>
      literal word
      return if b = byte 'n' then .null else .bool
    | none =>
      if beginsNumber b then
        let _ ← number
        return .number
      else if b = byte '"' then
        advance
        return .text (← textBody)
      else
        match inner with
        | none => throw .grammar
        | some inner =>
          if b = byte '[' then
            advance
            let fuel ← bound
            return .list (← enclosed (items inner fuel true) closeList)
          else if b = byte '\x7b' then
            advance
            let fuel ← bound
            return .record (← enclosed (members inner fuel true) closeRecord)
          else throw .grammar

/-- A value of any kind in which brackets nest at most `depth` deep. -/
def outline : Nat → Reader Outline
  | 0 => outlineWith none
  | depth + 1 => outlineWith (some (outline depth))

/-- The brackets still allowed around the members of an outermost record. -/
def memberDepth : Nat := 126

namespace Outline

def text? : Outline → Option String
  | text s => some s
  | _ => none

def isTexts : Outline → Bool
  | text _ => true
  | list items => items.all fun v => v.text?.isSome
  | _ => false

end Outline

end Turnstile.Json
