import Turnstile.Json.Outline
import Turnstile.Json.Shape

/-! The registered claims of a payload: expiry and audience, whatever else the payload means. -/

namespace Turnstile.Registered

/-- A point in time: a number that is an unsigned integer, or null for any other number. A list or
record is entered but not read. -/
def instant : Json.Reader Json := do
  match ← Json.peek with
  | none => throw .grammar
  | some b =>
    if b = Json.byte '[' then
      Json.advance
      Json.enclosed (throw .shape) Json.closeList
    else if b = Json.byte '\x7b' then
      Json.advance
      Json.enclosed (throw .shape) Json.closeRecord
    else if Json.beginsNumber b then
      match ← Json.number with
      | .whole n => return if 0 ≤ n then .int n else .null
      | .real => return .null
    else Json.mismatch

/-- The result of a reader, or null where it fails. -/
def orNull (r : Json.Reader Json) : Json.Reader Json := do
  return (← Json.tried r).getD .null

/-- A value of any kind, null included, kept as whether it is a text or a list of texts. -/
def texts : Json.Reader Json := do
  return .bool (← Json.outline Json.memberDepth).isTexts

def claim (name : String) (read : Json.Reader Json) : Json.Field :=
  { name, read := orNull read, missing := some .null }

/-- The registered claims. A claim of the wrong kind counts as missing. -/
def fields : List Json.Field :=
  [claim "exp" instant, claim "nbf" instant, claim "sub" (Json.readOption Json.readText),
    claim "iss" (Json.readOption texts), claim "aud" (Json.readOption texts)]

structure Claims where
  expiry : Int
  hasAudience : Bool
  deriving Repr, DecidableEq

/-- The registered claims of a payload, which must be a record with an expiry. -/
def parse (payload : Bytes) : Except Json.Fault Claims :=
  Json.readAll read payload
where
  /-- Reads the registered claims. -/
  read : Json.Reader Claims := do
    match ← Json.readFields fields with
    | [.int expiry, _, _, _, audience] =>
      return ⟨expiry, match audience with | .bool b => b | _ => false⟩
    | _ => throw .shape

end Turnstile.Registered
