import Turnstile.Time

/-! Instants written as dates. -/

namespace Turnstile

def paddedNumber (width n : Nat) : String :=
  let ds := Nat.toDigits 10 n
  String.ofList (List.replicate (width - ds.length) '0' ++ ds)

/-- Year, month and day of a day counted from the start of 1970, in the Gregorian calendar. Years
are counted from March, in eras of 400 years. -/
def dateOfDay (day : Int) : Int × Nat × Nat :=
  let z := day + 719468
  let era := z / 146097
  let dayOfEra := (z % 146097).toNat
  let yearOfEra := (dayOfEra - dayOfEra / 1460 + dayOfEra / 36524 - dayOfEra / 146096) / 365
  let dayOfYear := dayOfEra - (365 * yearOfEra + yearOfEra / 4 - yearOfEra / 100)
  let shifted := (5 * dayOfYear + 2) / 153
  let dayOfMonth := dayOfYear - (153 * shifted + 2) / 5 + 1
  let month := if shifted < 10 then shifted + 3 else shifted - 9
  let year : Int := yearOfEra + era * 400
  (if month ≤ 2 then year + 1 else year, month, dayOfMonth)

/-- A year with at least four digits, marked if it has more. -/
def yearText (year : Int) : String :=
  if year < 0 then "-" ++ paddedNumber 4 (-year).toNat
  else if 9999 < year then "+" ++ toString year
  else paddedNumber 4 year.toNat

/-- An instant with date, time and microseconds. -/
def timestamp (t : Nanos) : String :=
  let seconds := t.seconds
  let (year, month, day) := dateOfDay (seconds / 86400)
  let second := (seconds % 86400).toNat
  let micros := (t % 1000000000).toNat / 1000
  yearText year ++ "-" ++ paddedNumber 2 month ++ "-" ++ paddedNumber 2 day ++ "T" ++
    paddedNumber 2 (second / 3600) ++ ":" ++ paddedNumber 2 (second / 60 % 60) ++ ":" ++
    paddedNumber 2 (second % 60) ++ "." ++ paddedNumber 6 micros ++ "Z"

end Turnstile
