import Turnstile.Json.Shape

/-! Types with a JSON form: a record with fixed fields. -/

namespace Turnstile.Json

/-- The JSON form of a type: its fields, the values of the fields, and the way back. -/
structure Format (α : Type) where
  fields : List Field
  values : α → List Json
  build : List Json → Option α

namespace Format

variable {α : Type} (f : Format α)

/-- The JSON value of an element, with the fields in order. -/
def toJson (a : α) : Json :=
  record (List.zip (f.fields.map (·.name)) (f.values a))

/-- The element with the given JSON value, as `readRecord` leaves it. -/
def ofJson? : Json → Option α
  | record members => f.build (members.map (·.2))
  | _ => none

def ofItems? : Json → Option (List α)
  | list items => items.mapM f.ofJson?
  | _ => none

def json : Reader Json :=
  readRecord f.fields

def read : Reader α := do
  match f.build (← readFields f.fields) with
  | some a => return a
  | none => throw .shape

def parse (b : Bytes) : Except Fault α :=
  readAll f.read b

def write (a : α) : String :=
  (f.toJson a).toText

end Format

end Turnstile.Json
