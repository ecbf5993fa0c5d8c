import Turnstile.Text.Hex
import Turnstile.Text.Lossy

/-! Query strings. -/

namespace Turnstile.Http

/-- Splits at the first occurrence of a byte, which is dropped. -/
def splitFirst (sep : UInt8) (b : Bytes) : Bytes × Bytes :=
  (b.takeWhile (· ≠ sep), (b.dropWhile (· ≠ sep)).drop 1)

/-- Undoes percent encoding; a percent sign without two digits stands for itself. -/
def percentDecode : Bytes → Bytes
  | 0x25 :: a :: b :: rest =>
    match hexValue? (Char.ofNat a.toNat), hexValue? (Char.ofNat b.toNat) with
    | some x, some y => UInt8.ofNat (16 * x + y) :: percentDecode rest
    | _, _ => 0x25 :: percentDecode (a :: b :: rest)
  | b :: rest => b :: percentDecode rest
  | [] => []

/-- A name or value of a query: plus signs are spaces, and percent encoding is undone. -/
def queryText (b : Bytes) : String :=
  lossyText (percentDecode (b.map fun x => if x = 0x2B then 0x20 else x))

def queryPairs (query : Bytes) : List (String × String) :=
  ((query.splitOn 0x26).filter (· ≠ [])).map fun part =>
    let (name, value) := splitFirst 0x3D part
    (queryText name, queryText value)

def onlyValue? (pairs : List (String × String)) (name : String) : Option String :=
  match pairs.filter fun p => p.1 = name with
  | [p] => some p.2
  | _ => none

end Turnstile.Http
