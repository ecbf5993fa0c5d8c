import Turnstile.Password
import Turnstile.Service.Access
import Turnstile.Service.Messages
import Turnstile.Text.Blank

/-! Registration, login, refresh and logout. -/

namespace Turnstile

open Program

def loadPrincipal (userId email : String) : Program Principal := do
  let roles ← ask (.rolesForUser userId)
  return ⟨userId, email, .ofList roles⟩

def describeCaller (claims : AccessClaims) : Program MeResponse := do
  let permissions ← effectivePermissions claims.roles
  return ⟨claims.subject, claims.email, claims.roles.elems, permissions.elems, claims.superuser,
    claims.expiry⟩

namespace Codec

variable (c : Codec)

def tokenResponse (pair : TokenPair) : TokenResponse :=
  ⟨pair.access, pair.refresh, "bearer", c.accessLifetime.seconds⟩

/-- A fresh pair for the user with an email and password. An unknown email, a missing or unusable
hash and a wrong password all fail alike. -/
def login (email password : String) : Program TokenResponse := do
  let some found ← ask (.findByEmail email) | fail .invalidCredentials
  let some stored := found.passwordHash | fail .invalidCredentials
  let .ok true := Password.verify password stored | fail .invalidCredentials
  let p ← loadPrincipal found.user.id found.user.email
  return c.tokenResponse (← c.createTokens p)

/-- Creates a user and issues a first pair. The first user of a store becomes superadmin. The email
is looked up before hashing, which is costly; the store has the last word on it. -/
def register (email password : String) (name : Option String) : Program TokenResponse := do
  let email := trim email
  if email = "" ∨ '@' ∉ email.toList then fail (.validation .email)
  ofExcept (Password.validate password)
  if ← ask (.emailExists email) then fail (.validation .emailTaken)
  let salt ← fresh
  let created ← ask (.createUser email name (Password.hash salt password))
  if created.isFirst then ask (.grantRole created.id superadminRole)
  let p ← loadPrincipal created.id email
  return c.tokenResponse (← c.createTokens p)

/-- Exchanges a refresh token for a fresh pair, for a user that still exists. -/
def refresh (token : String) : Program TokenResponse := do
  let (claims, record) ← c.checkRefresh token
  let some user ← ask (.findById claims.subject) | fail .invalidRefreshToken
  let p ← loadPrincipal user.id user.email
  return c.tokenResponse (← c.rotate p record)

def logout (access refresh : String) : Program MessageResponse := do
  c.revokePair access refresh
  return ⟨"logged out"⟩

def confirmPermission (access resource method : String) : Program MessageResponse := do
  let _ ← c.requirePermission access resource method
  return ⟨"permission granted"⟩

end Codec

end Turnstile
