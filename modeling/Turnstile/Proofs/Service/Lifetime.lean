import Turnstile.Service.Tokens

/-! The time a token has left: it is counted in whole milliseconds, from the beginning of the current
one, so it may be too long by less than a millisecond but is never too short. -/

namespace Turnstile

variable {expiry : Int} {t u limit : Nanos}

/-- The whole milliseconds of an instant tell whether a whole second has come. -/
theorem Nanos.millis_le_iff : 1000 * expiry ≤ t.millis ↔ ofSeconds expiry ≤ t := by
  unfold ofSeconds millis Nanos at *
  omega

theorem remainingLifetime_le (expiry : Int) (t : Nanos) :
    remainingLifetime expiry t ≤ Nanos.ofMillis int64Max := by
  unfold remainingLifetime saturate Nanos.ofMillis int64Min int64Max Nanos
  omega

/-- An expired token has no time left. -/
theorem remainingLifetime_of_expired (ht : 0 ≤ t) (h : Nanos.ofSeconds expiry ≤ t) :
    remainingLifetime expiry t = 0 := by
  unfold remainingLifetime saturate int64Min int64Max
  unfold Nanos.ofSeconds Nanos.millis Nanos at *
  omega

/-- Only an expired token has no time left. -/
theorem expired_of_remainingLifetime (hmax : t.millis < int64Max)
    (h : remainingLifetime expiry t = 0) : Nanos.ofSeconds expiry ≤ t := by
  unfold remainingLifetime saturate int64Min at h
  unfold Nanos.ofSeconds
  unfold Nanos.millis int64Max Nanos at *
  omega

/-- Time left reaches to the expiry from the beginning of the current millisecond, as far as 64 bits
go. -/
theorem remainingLifetime_of_fresh (ht : 0 ≤ t) (hmax : t.millis ≤ int64Max)
    (hfresh : t < Nanos.ofSeconds expiry) :
    (remainingLifetime expiry t : Int) =
      Nanos.ofMillis (min (1000 * expiry) int64Max - t.millis) := by
  unfold remainingLifetime saturate int64Min
  unfold Nanos.ofSeconds Nanos.ofMillis Nanos.millis int64Max Nanos at *
  omega

/-- The time left covers the time to the expiry, as far as 64 bits reach. -/
theorem le_add_remainingLifetime (hmax : limit ≤ Nanos.ofMillis int64Max)
    (hlimit : limit ≤ Nanos.ofSeconds expiry) (hfar : limit ≤ t + Nanos.ofMillis int64Max)
    (htu : t ≤ u) : limit ≤ u + remainingLifetime expiry t := by
  unfold remainingLifetime saturate int64Min
  unfold Nanos.ofSeconds Nanos.ofMillis Nanos.millis int64Max Nanos at *
  omega

end Turnstile
