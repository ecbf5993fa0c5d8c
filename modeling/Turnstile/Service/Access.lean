import Turnstile.Service.Tokens

/-! Whether the bearer of a token may use a method on a resource. -/

namespace Turnstile

open Program

/-- Whether some role of the given names grants a permission. Unknown names grant nothing. -/
def someRoleGrants (resource method : String) : List String → Program Bool
  | [] => return false
  | name :: names => do
    match ← ask (.findRole name) with
    | none => someRoleGrants resource method names
    | some role =>
      if role.grants resource method then return true
      else someRoleGrants resource method names

/-- Whether claims carry a permission. A superuser has every one, without looking at roles. -/
def claimsPermit (claims : AccessClaims) (resource method : String) : Program Bool :=
  if claims.superuser then return true
  else someRoleGrants resource method claims.roles.elems

def effectivePermissions (names : RoleSet) : Program PermissionSet := do
  return permissionsFor (← ask (.rolesByNames names.elems))

namespace Codec

variable (c : Codec)

def requirePermission (token resource method : String) : Program AccessClaims := do
  let claims ← c.checkAccess token
  if ¬ (← claimsPermit claims resource method) then fail .permissionDenied
  return claims

/-- Whether a token carries a permission. What is wrong with the token itself is a failure. -/
def checkPermission (token resource method : String) : Program Bool := do
  match ← (c.requirePermission token resource method).attempt with
  | .ok _ => return true
  | .error .permissionDenied => return false
  | .error e => fail e

end Codec

end Turnstile
