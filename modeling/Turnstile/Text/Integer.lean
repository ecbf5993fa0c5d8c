/-! Decimal integers as settings and arguments spell them. -/

namespace Turnstile

def digits? : List Char → Option Nat
  | [] => none
  | cs => cs.foldl step (some 0)
where
  step (acc : Option Nat) (c : Char) : Option Nat :=
    acc.bind fun n => if c.isDigit then some (10 * n + (c.toNat - '0'.toNat)) else none

/-- A natural number below `2 ^ bits`, with an optional `+` before its digits. -/
def natural? (bits : Nat) (cs : List Char) : Option Nat :=
  let value? := match cs with
    | '+' :: rest => digits? rest
    | _ => digits? cs
  value?.filter (· < 1 <<< bits)

def int64Min : Int := -9223372036854775808

def int64Max : Int := 9223372036854775807

/-- A 64-bit integer, with an optional sign before its digits. -/
def int64? (cs : List Char) : Option Int :=
  let value? : Option Int := match cs with
    | '-' :: rest => (digits? rest).map fun n => -(n : Int)
    | '+' :: rest => (digits? rest).map Int.ofNat
    | _ => (digits? cs).map Int.ofNat
  value?.filter fun n => int64Min ≤ n && n ≤ int64Max

end Turnstile
