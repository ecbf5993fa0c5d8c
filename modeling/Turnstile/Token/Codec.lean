import Turnstile.Config.Token
import Turnstile.Token.Claims
import Turnstile.Token.Header
import Turnstile.Token.Registered
import Turnstile.Uuid

/-! Signing and verifying tokens. -/

namespace Turnstile

/-- What tokens are signed and verified with, and how long they live. -/
structure Codec where
  secret : String
  algorithm : Algorithm
  accessMinutes : Int
  refreshMinutes : Int
  deriving Repr, DecidableEq

def hashToken (token : String) : String :=
  hex (Sha2.sha256.digest (utf8 token))

def splitLast? (c : Char) (l : List Char) : Option (List Char × List Char) :=
  let back := l.reverse
  match back.dropWhile (· ≠ c) with
  | [] => none
  | _ :: front => some (front.reverse, (back.takeWhile (· ≠ c)).reverse)

namespace Codec

def clampLifetime (minutes : Int) : Int :=
  max 1 (min minutes maxLifetimeMinutes)

/-- The codec for some settings. Lifetimes out of range are clamped. -/
def ofConfig (c : TokenConfig) : Codec :=
  ⟨c.secret, c.algorithm, clampLifetime c.accessMinutes, clampLifetime c.refreshMinutes⟩

variable (c : Codec)

def accessLifetime : Nanos := c.accessMinutes * nanosPerMinute

def refreshLifetime : Nanos := c.refreshMinutes * nanosPerMinute

def accessClaims (now : Nanos) (p : Principal) : AccessClaims where
  subject := p.subject
  email := p.email
  roles := p.roles
  expiry := (now + c.accessLifetime).seconds
  superuser := superadminRole ∈ p.roles

/-- The claims of a refresh token issued now, with an identifier from a fresh draw. -/
def refreshClaims (now : Nanos) (draw : Draw) (p : Principal) : RefreshClaims where
  subject := p.subject
  email := p.email
  expiry := (now + c.refreshLifetime).seconds
  tokenId := tokenIdOf draw

/-- The signature segment for the text before it, if the algorithm signs with a secret. -/
def signature? (message : String) : Option String :=
  c.algorithm.hash?.map fun h => Base64.urlSafe.encode (hmac h (utf8 c.secret) (utf8 message))

def sign (payload : Json) : Except AuthError String :=
  let message := Base64.urlSafe.encode (utf8 (Header.toJson c.algorithm).toText) ++ "." ++
    Base64.urlSafe.encode (utf8 payload.toText)
  match c.signature? message with
  | none => .error (.internal .signing)
  | some s => .ok (message ++ "." ++ s)

def encodeAccess (claims : AccessClaims) : Except AuthError String :=
  c.sign (AccessClaims.format.toJson claims)

def encodeRefresh (claims : RefreshClaims) : Except AuthError String :=
  c.sign (RefreshClaims.format.toJson claims)

/-- The payload of a token with a good header and signature. The segments are found from the end,
and the signature is compared as it is written. -/
def payload? (token : String) : Option Bytes := do
  let (message, signature) ← splitLast? '.' token.toList
  let (header, payload) ← splitLast? '.' message
  let headerBytes ← (Base64.urlSafe.decode (utf8 (String.ofList header))).toOption
  let algorithm ← (Header.algorithm headerBytes).toOption
  guard (algorithm = c.algorithm)
  let expected ← c.signature? (String.ofList message)
  guard (String.ofList signature = expected)
  (Base64.urlSafe.decode (utf8 (String.ofList payload))).toOption

/-- The claims of a token. The payload must hold claims of the kind asked for, and an expiry that
is not `expired`; a payload with an audience is refused. -/
def decode {α : Type} (format : Json.Format α) (expired : Int → Bool) (token : String) :
    Except AuthError α := do
  let some payload := c.payload? token | throw .invalidToken
  let .ok claims := format.parse payload | throw .invalidToken
  let .ok registered := Registered.parse payload | throw .invalidToken
  if expired registered.expiry then throw .tokenExpired
  if registered.hasAudience then throw .invalidToken
  return claims

/-- The claims of a token that is still good in the whole second of `now`. A token is no longer
good in the second it expires. -/
def decodeAt {α : Type} (format : Json.Format α) (expiry : α → Int) (now : Nanos)
    (token : String) : Except AuthError α := do
  let claims ← c.decode format (· < now.seconds) token
  if expiry claims ≤ now.seconds then throw .tokenExpired
  return claims

def decodeAccess (now : Nanos) (token : String) : Except AuthError AccessClaims :=
  c.decodeAt AccessClaims.format AccessClaims.expiry now token

/-- The claims of an access token, expired or not. -/
def decodeAccessAnyAge (token : String) : Except AuthError AccessClaims :=
  c.decode AccessClaims.format (fun _ => false) token

def decodeRefresh (now : Nanos) (token : String) : Except AuthError RefreshClaims :=
  c.decodeAt RefreshClaims.format RefreshClaims.expiry now token

end Codec

end Turnstile
