import Turnstile.Store.Program
import Turnstile.Token.Codec

/-! Issuing, checking, rotating and revoking tokens.

A user has at most one refresh token in force: the one whose hash is stored. Issuing another,
rotating it and logging out all end it, though it may still verify. -/

namespace Turnstile

open Program

def blacklistKey (token : String) : String :=
  "blacklist:" ++ token

def saturate (n : Int) : Int :=
  max int64Min (min n int64Max)

/-- The time from an instant to an expiry in seconds, none if it has passed. Both are counted in
milliseconds, and the part of the current one that is over is not taken off. -/
def remainingLifetime (expiry : Int) (now : Nanos) : Nat :=
  1000000 * (saturate (saturate (expiry * 1000) - now.millis)).toNat

/-- Deletes the record of a refresh token that is being used up. Only the first to do so gets
past here. -/
def consume (record : RefreshRecord) : Program Unit := do
  if ¬ (← ask (.deleteMatching record.userId record.tokenHash)) then fail .invalidRefreshToken

def denyFor (token : String) (claims : AccessClaims) : Program Unit := do
  let t ← now
  ask (.revoke (blacklistKey token) (remainingLifetime claims.expiry t))

namespace Codec

variable (c : Codec)

def createAccess (p : Principal) : Program String := do
  let t ← now
  ofExcept (c.encodeAccess (c.accessClaims t p))

/-- A signed refresh token for a principal; its hash becomes the user's stored record. -/
def createRefresh (p : Principal) : Program String := do
  let t ← now
  let d ← fresh
  let token ← ofExcept (c.encodeRefresh (c.refreshClaims t d p))
  let t ← now
  ask (.upsert ⟨p.subject, hashToken token, t + c.refreshLifetime, t⟩)
  return token

def createTokens (p : Principal) : Program TokenPair := do
  let access ← c.createAccess p
  let refresh ← c.createRefresh p
  return ⟨access, refresh⟩

/-- The claims of an access token in force by signature and expiry. -/
def tokenData (token : String) : Program AccessClaims := do
  let t ← now
  ofExcept (c.decodeAccess t token)

/-- The claims of an access token that is not on the deny-list either. -/
def checkAccess (token : String) : Program AccessClaims := do
  let claims ← c.tokenData token
  if ← ask (.isRevoked (blacklistKey token)) then fail .tokenRevoked
  return claims

/-- The claims and the stored record of a refresh token in force. Every reason against it is
reported alike. -/
def checkRefresh (token : String) : Program (RefreshClaims × RefreshRecord) := do
  let t ← now
  let .ok claims := c.decodeRefresh t token | fail .invalidRefreshToken
  let some record ← ask (.findByUser claims.subject) | fail .invalidRefreshToken
  if record.tokenHash ≠ hashToken token then fail .invalidRefreshToken
  let t ← now
  if record.expiresAt ≤ t then fail .invalidRefreshToken
  return (claims, record)

def rotate (p : Principal) (record : RefreshRecord) : Program TokenPair := do
  if p.subject ≠ record.userId then fail .invalidRefreshToken
  consume record
  c.createTokens p

/-- Ends a session: both tokens are verified, and must have the same subject, before the refresh
record is used up and the access token goes on the deny-list. -/
def revokePair (access refresh : String) : Program Unit := do
  let (refreshClaims, record) ← c.checkRefresh refresh
  let claims ← ofExcept (c.decodeAccessAnyAge access)
  if claims.subject ≠ refreshClaims.subject then fail .invalidToken
  consume record
  denyFor access claims

/-- Puts an access token on the deny-list, expired or not. -/
def blacklist (token : String) : Program Unit := do
  let claims ← ofExcept (c.decodeAccessAnyAge token)
  denyFor token claims

end Codec

end Turnstile
