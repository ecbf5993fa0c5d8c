import Turnstile.Error
import Turnstile.Json.Value

/-! Failures as the API reports them. -/

namespace Turnstile

/-- Failures as the API reports them, each with a text. -/
inductive ApiError where
  | validation (text : String)
  | unauthorized (text : String)
  | tokenExpired (text : String)
  | tokenRevoked (text : String)
  | forbidden (text : String)
  /-- The text is for the log only. -/
  | internal (text : String)
  deriving Repr, DecidableEq

namespace ApiError

def ofAuth : AuthError → ApiError
  | .tokenExpired => tokenExpired AuthError.tokenExpired.message
  | .tokenRevoked => tokenRevoked AuthError.tokenRevoked.message
  | .permissionDenied => forbidden AuthError.permissionDenied.message
  | .validation problem => validation problem.message
  | .config problem => internal problem.message
  | .internal failure => internal failure.message
  | .db failure => internal failure.message
  | e@.invalidCredentials | e@.invalidToken | e@.invalidRefreshToken => unauthorized e.message

def status : ApiError → Nat
  | validation _ => 400
  | unauthorized _ | tokenExpired _ | tokenRevoked _ => 401
  | forbidden _ => 403
  | internal _ => 500

def code : ApiError → String
  | validation _ => "validation_error"
  | unauthorized _ => "unauthorized"
  | tokenExpired _ => "token_expired"
  | tokenRevoked _ => "token_revoked"
  | forbidden _ => "forbidden"
  | internal _ => "internal_error"

/-- The text shown to clients, which says nothing about internal failures. -/
def clientText : ApiError → String
  | validation text | unauthorized text | tokenExpired text | tokenRevoked text
  | forbidden text => text
  | internal _ => "Internal server error"

def display : ApiError → String
  | validation text => s!"Validation error: {text}"
  | unauthorized text => s!"Unauthorized: {text}"
  | tokenExpired text => s!"Token expired: {text}"
  | tokenRevoked text => s!"Token revoked: {text}"
  | forbidden text => s!"Forbidden: {text}"
  | internal _ => "Internal server error"

def body (e : ApiError) : Json :=
  .record [("error", .text e.code), ("message", .text e.clientText)]

end ApiError

end Turnstile
