/-! Fractional parts of roots of primes, from which SHA-2 takes its constants. -/

namespace Turnstile

/-- The greatest `r` with `r ^ k ≤ n` among the numbers reached from `r` by adding distinct
powers of two below `2 ^ bits`. -/
def rootBits (k n : Nat) : Nat → Nat → Nat
  | 0, r => r
  | b + 1, r =>
    let s := r + (1 <<< b)
    rootBits k n b (if Nat.pow s k ≤ n then s else r)

/-- Whether `n` is prime, by trial division. -/
def isPrime (n : Nat) : Bool :=
  2 ≤ n && (List.range n).all fun d => d < 2 || n % d ≠ 0

def firstPrimes : List Nat :=
  (List.range 410).filter isPrime

/-- The first 64 bits of the fractional part of the `k`-th root of `p`, for a root below 256. -/
def rootFraction (k p : Nat) : Nat :=
  rootBits k (p <<< (64 * k)) 72 0 % (1 <<< 64)

end Turnstile
