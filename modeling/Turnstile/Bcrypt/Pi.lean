/-! The first words of the fractional part of π, with which Blowfish starts. -/

namespace Turnstile.Bcrypt

/-- Adds up the series for the arctangent of `1 / x`, in units of which `power` started as `1 / x`.
The running sums of the terms with plus and with minus sign are kept apart. -/
def arctanTerms (x : Nat) : Nat → Nat → Nat → Nat → Nat → Nat × Nat
  | 0, _, _, plus, minus => (plus, minus)
  | fuel + 1, k, power, plus, minus =>
    if power = 0 then (plus, minus)
    else if k % 4 = 1 then arctanTerms x fuel (k + 2) (power / (x * x)) (plus + power / k) minus
    else arctanTerms x fuel (k + 2) (power / (x * x)) plus (minus + power / k)

/-- The arctangent of `1 / x` in units of `2 ^ (-bits)`, up to one unit for each term. -/
def arctan (x bits : Nat) : Nat :=
  let sums := arctanTerms x bits 1 ((1 <<< bits) / x) 0 0
  sums.1 - sums.2

/-- π in units of `2 ^ (-bits)`, as `16 arctan (1 / 5) - 4 arctan (1 / 239)` with 64 bits more than are
kept. -/
def pi (bits : Nat) : Nat :=
  (4 * (4 * arctan 5 (bits + 64) - arctan 239 (bits + 64))) >>> 64

/-- The first `n` 32-bit words of the fractional part of π. -/
def piWords (n : Nat) : Array UInt32 :=
  let digits := pi (32 * n)
  Array.ofFn fun i : Fin n => UInt32.ofNat (digits >>> (32 * (n - 1 - i)))

end Turnstile.Bcrypt
