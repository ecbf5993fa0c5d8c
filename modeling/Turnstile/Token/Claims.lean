import Turnstile.Account
import Turnstile.Text.Integer

/-! The claims carried by access and refresh tokens. -/

namespace Turnstile

/-- The claims of an access token: who it speaks for, and until which second. -/
structure AccessClaims where
  subject : String
  email : String
  roles : RoleSet
  expiry : Int
  superuser : Bool
  deriving DecidableEq

/-- The claims of a refresh token. Its identifier makes every token different. -/
structure RefreshClaims where
  subject : String
  email : String
  expiry : Int
  tokenId : String
  deriving Repr, DecidableEq

namespace AccessClaims

def principal (c : AccessClaims) : Principal :=
  ⟨c.subject, c.email, c.roles⟩

def format : Json.Format AccessClaims where
  fields := [Json.required "sub" Json.readText, Json.required "email" Json.readText,
    Json.required "roles" (Json.readList Json.readText), Json.required "exp" Json.readInt64,
    Json.required "is_superuser" Json.readBool]
  values c := [.text c.subject, .text c.email, Json.texts c.roles.elems, .int c.expiry,
    .bool c.superuser]
  build
    | [.text subject, .text email, roles, .int expiry, .bool superuser] =>
      some ⟨subject, email, .ofList roles.textsIn, expiry, superuser⟩
    | _ => none

end AccessClaims

namespace RefreshClaims

def format : Json.Format RefreshClaims where
  fields := [Json.required "sub" Json.readText, Json.required "email" Json.readText,
    Json.required "exp" Json.readInt64, Json.required "jti" Json.readText]
  values c := [.text c.subject, .text c.email, .int c.expiry, .text c.tokenId]
  build
    | [.text subject, .text email, .int expiry, .text tokenId] =>
      some ⟨subject, email, expiry, tokenId⟩
    | _ => none

end RefreshClaims

end Turnstile
