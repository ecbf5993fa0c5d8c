import Turnstile.Account
import Turnstile.Error

/-! What services ask of a store. -/

namespace Turnstile

/-- A call to a store. Each call takes effect as a whole. -/
inductive Call where
  | findByEmail (email : String)
  | findById (userId : String)
  | emailExists (email : String)
  /-- Creates a user; a taken email is refused as invalid. -/
  | createUser (email : String) (name : Option String) (passwordHash : String)
  /-- Stores a refresh record in place of the user's old one. -/
  | upsert (record : RefreshRecord)
  | findByUser (userId : String)
  | delete (userId : String)
  /-- Deletes the user's refresh record if it still has this hash; answers whether it did. -/
  | deleteMatching (userId tokenHash : String)
  /-- Whether a key is on the deny-list. -/
  | isRevoked (key : String)
  /-- Puts a key on the deny-list for a span of time. -/
  | revoke (key : String) (ttl : Nat)
  | findRole (name : String)
  /-- The known roles among some names. -/
  | rolesByNames (names : List String)
  /-- The names of a user's roles. -/
  | rolesForUser (userId : String)
  /-- Grants a role to a user; an unknown role is refused as invalid. -/
  | grantRole (userId role : String)
  deriving Repr, DecidableEq

@[reducible] def Call.Answer : Call → Type
  | findByEmail _ => Option Credentials
  | findById _ => Option User
  | emailExists _ => Bool
  | createUser _ _ _ => CreatedUser
  | upsert _ => Unit
  | findByUser _ => Option RefreshRecord
  | delete _ => Unit
  | deleteMatching _ _ => Bool
  | isRevoked _ => Bool
  | revoke _ _ => Unit
  | findRole _ => Option Role
  | rolesByNames _ => List Role
  | rolesForUser _ => List String
  | grantRole _ _ => Unit

inductive Method where
  | findByEmail | findById | emailExists | createUser
  | upsert | findByUser | delete | deleteMatching
  | isRevoked | revoke
  | findRole | rolesByNames | rolesForUser | grantRole
  deriving Repr, DecidableEq

def Call.method : Call → Method
  | findByEmail _ => .findByEmail
  | findById _ => .findById
  | emailExists _ => .emailExists
  | createUser _ _ _ => .createUser
  | upsert _ => .upsert
  | findByUser _ => .findByUser
  | delete _ => .delete
  | deleteMatching _ _ => .deleteMatching
  | isRevoked _ => .isRevoked
  | revoke _ _ => .revoke
  | findRole _ => .findRole
  | rolesByNames _ => .rolesByNames
  | rolesForUser _ => .rolesForUser
  | grantRole _ _ => .grantRole

end Turnstile
