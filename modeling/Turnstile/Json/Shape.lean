import Turnstile.Json.Reader
import Turnstile.Text.Integer

/-! Readers for values of a given kind. -/

namespace Turnstile.Json

def readText : Reader Json := do
  if (← peek) = some (byte '"') then
    advance
    return text (← textBody)
  else mismatch

def readInt64 : Reader Json := do
  match ← peek with
  | none => throw .grammar
  | some b =>
    if beginsNumber b then
      match ← number with
      | .whole n => if n ≤ int64Max then return int n else throw .shape
      | .real => throw .shape
    else mismatch

def readBool : Reader Json := do
  let b ← peek
  if b = some (byte 't') then
    literal "true".toList
    return bool true
  else if b = some (byte 'f') then
    literal "false".toList
    return bool false
  else mismatch

/-- Null, or what `r` reads. -/
def readOption (r : Reader Json) : Reader Json := do
  if (← peek) = some (byte 'n') then
    literal "null".toList
    return null
  else r

def readList (item : Reader Json) : Reader Json := do
  if (← peek) = some (byte '[') then
    advance
    let fuel ← bound
    return list (← enclosed (items item fuel true) closeList)
  else mismatch

structure Field where
  name : String
  read : Reader Json
  /-- The value when the member is missing, if it may be. -/
  missing : Option Json := none
  /-- Whether a record written as a list may end before this member. -/
  trailing : Bool := false

def required (name : String) (read : Reader Json) : Field :=
  { name, read }

/-- A member that is null when it is missing. -/
def optional (name : String) (read : Reader Json) : Field :=
  { name, read := readOption read, missing := some null }

/-- The members of a record after its opening brace, in any order: a value for each field seen.
Unknown members are passed over. -/
def readMembers (fields : List Field) : Nat → Bool → List (Option Json) → Reader (List (Option Json))
  | 0, _, _ => throw .grammar
  | fuel + 1, first, values => do
    match ← memberName? first with
    | none => return values
    | some name =>
      match fields.findIdx? fun f => f.name = name with
      | none =>
        colon
        skipValue
        readMembers fields fuel false values
      | some i =>
        if (values.getD i none).isSome then throw .shape
        colon
        let v ← (fields[i]?.map (·.read)).getD mismatch
        readMembers fields fuel false (values.set i (some v))

/-- The values of all fields, missing ones filled in. -/
def complete : List Field → List (Option Json) → Except Fault (List Json)
  | [], _ => .ok []
  | f :: fs, values => do
    match (values.head?.getD none).or f.missing with
    | none => throw .shape
    | some v => return v :: (← complete fs values.tail)

/-- The members of a record written as a list, after its opening bracket. -/
def readPositions : List Field → Bool → Reader (List Json)
  | [], _ => return []
  | f :: fs, first => do
    if ← hasItem first then
      let v ← f.read
      return v :: (← readPositions fs false)
    else if f.trailing then return (f :: fs).map fun f => f.missing.getD null
    else throw .shape

/-- A record with the given fields: their values in the order of the fields. -/
def readFields (fields : List Field) : Reader (List Json) := do
  let b ← peek
  if b = some (byte '\x7b') then
    advance
    let fuel ← bound
    let inside : Reader (List Json) := do
      let values ← readMembers fields fuel true (fields.map fun _ => none)
      complete fields values
    enclosed inside closeRecord
  else if b = some (byte '[') then
    advance
    enclosed (readPositions fields true) closeList
  else mismatch

/-- A record with the given fields, as a record with exactly these members in order. -/
def readRecord (fields : List Field) : Reader Json := do
  return record (List.zip (fields.map (·.name)) (← readFields fields))

/-- One of some names, as a text or as the only member of a record, with the value null. -/
def readChoice (names : List String) : Reader Json := do
  let b ← peek
  if b = some (byte '\x7b') then
    advance
    let name ← readName
    colon
    let b ← peek
    if b = some (byte 'n') then literal "null".toList else mismatch
    closeRecord
    return name
  else if b = some (byte '"') then readName
  else throw .grammar
where
  /-- A text that is one of the names. -/
  readName : Reader Json := do
    match ← readText with
    | text s => if s ∈ names then return text s else throw .shape
    | _ => throw .shape

end Turnstile.Json
