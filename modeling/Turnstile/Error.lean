import Turnstile.Bcrypt.Hash
import Turnstile.Token.Algorithm

/-! The ways an operation can fail, and the text shown for each. -/

namespace Turnstile

inductive Invalid where
  | email
  | shortPassword
  | emailTaken
  | unknownRole (name : String)
  | other (text : String)
  deriving Repr, DecidableEq

def minPasswordLength : Nat := 8

def Invalid.message : Invalid → String
  | email => "A valid email is required"
  | shortPassword => s!"Password must be at least {minPasswordLength} characters"
  | emailTaken => "Email already registered"
  | unknownRole name => s!"Unknown role '{name}'"
  | other text => text

/-- The longest token lifetime in minutes: ten years. -/
def maxLifetimeMinutes : Int := 10 * 365 * 24 * 60

inductive Misconfigured where
  | emptySecret
  | unknownAlgorithm (text : String)
  /-- A setting names an algorithm that is not symmetric. -/
  | asymmetricSetting (text : String)
  | asymmetric (algorithm : Algorithm)
  | notInteger (setting text : String)
  | lifetimeRange (setting : String) (minutes : Int)
  | other (text : String)
  deriving Repr, DecidableEq

def Misconfigured.message : Misconfigured → String
  | emptySecret => "signing secret is empty"
  | unknownAlgorithm text => s!"unknown JWT algorithm '{text}'"
  | asymmetricSetting text =>
    s!"unsupported algorithm '{text}': only HS256, HS384 and HS512 are allowed"
  | asymmetric algorithm =>
    s!"unsupported algorithm {algorithm.name}: only HS256, HS384 and HS512 are allowed"
  | notInteger setting text => s!"{setting} must be an integer, got '{text}'"
  | lifetimeRange setting minutes =>
    s!"{setting} must be between 1 and {maxLifetimeMinutes}, got {minutes}"
  | other text => text

inductive DbError where
  /-- A statement refused by the database, with its SQLSTATE. -/
  | refused (code text : String)
  /-- No row where one was expected. -/
  | noRow
  /-- Null in a column that cannot be null. -/
  | unexpectedNull (column : Nat)
  /-- A column of another type than expected. -/
  | wrongType (column : Nat)
  | protocol (text : String)
  deriving Repr, DecidableEq

def DbError.message : DbError → String
  | refused _ text => s!"error returned from database: {text}"
  | noRow => "no rows returned by a query that expected to return at least one row"
  | unexpectedNull column =>
    s!"error occurred while decoding column {column}: unexpected null; try decoding as an `Option`"
  | wrongType column => s!"error occurred while decoding column {column}: mismatched types"
  | protocol text => s!"encountered unexpected or invalid data: {text}"

inductive Malfunction where
  /-- Signing with an algorithm that does not fit the key. -/
  | signing
  | unusableHash (fault : Bcrypt.Fault)
  /-- A time to live that is too long for the database. -/
  | lifetimeOverflow
  | other (text : String)
  deriving Repr, DecidableEq

def Malfunction.message : Malfunction → String
  | signing => "jwt encode: InvalidAlgorithm"
  | unusableHash fault => s!"bcrypt verify: {fault.message}"
  | lifetimeOverflow =>
    "revocation ttl: Source duration value is out of range for the target type"
  | other text => text

inductive AuthError where
  | invalidCredentials
  | invalidToken
  | tokenExpired
  | tokenRevoked
  | invalidRefreshToken
  | permissionDenied
  | validation (problem : Invalid)
  | config (problem : Misconfigured)
  | db (failure : DbError)
  | internal (failure : Malfunction)
  deriving Repr, DecidableEq

def AuthError.message : AuthError → String
  | invalidCredentials => "Invalid credentials"
  | invalidToken => "Invalid token"
  | tokenExpired => "Token has expired"
  | tokenRevoked => "Token has been revoked"
  | invalidRefreshToken => "Invalid refresh token"
  | permissionDenied => "Permission denied"
  | validation problem => s!"Validation error: {problem.message}"
  | config problem => s!"Configuration error: {problem.message}"
  | db failure => s!"Database error: {failure.message}"
  | internal failure => s!"Internal error: {failure.message}"

end Turnstile
