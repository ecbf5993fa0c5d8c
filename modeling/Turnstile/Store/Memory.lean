import Turnstile.Store.Program
import Turnstile.Table

/-! A store that is kept in memory. -/

namespace Turnstile

/-- Users under their ids, ids under emails, refresh records and role names under user ids,
deadlines under revoked keys, and roles under their names. The first user to be created sets
`firstUserCreated`. -/
structure MemoryStore where
  users : Table Credentials := {}
  emails : Table String := {}
  firstUserCreated : Bool := false
  refreshTokens : Table RefreshRecord := {}
  revocations : Table Nanos := {}
  roles : Table Role := {}
  userRoles : Table RoleSet := {}

namespace MemoryStore

def findByEmail (s : MemoryStore) (email : String) : Option Credentials :=
  (s.emails.get? email).bind s.users.get?

def findById (s : MemoryStore) (id : String) : Option User :=
  (s.users.get? id).map Credentials.user

/-- Creates a user, unless the email is taken. The `n`-th user, counted from zero, gets the id
`ids n`. -/
def createUser (ids : Nat → String) (email : String) (name : Option String)
    (passwordHash : String) (s : MemoryStore) : Except AuthError CreatedUser × MemoryStore :=
  if s.emails.contains email then (.error (.validation .emailTaken), s)
  else
    let id := ids s.emails.size
    (.ok ⟨id, !s.firstUserCreated⟩,
      { s with
        users := s.users.insert id ⟨⟨id, email, name⟩, some passwordHash⟩
        emails := s.emails.insert email id
        firstUserCreated := true })

def deleteMatching (userId tokenHash : String) (s : MemoryStore) : Bool × MemoryStore :=
  match s.refreshTokens.get? userId with
  | none => (false, s)
  | some record =>
    if record.tokenHash = tokenHash then
      (true, { s with refreshTokens := s.refreshTokens.erase userId })
    else (false, s)

/-- Whether a key is on the deny-list. An entry that has reached its deadline is dropped. -/
def isRevoked (now : Nanos) (key : String) (s : MemoryStore) : Bool × MemoryStore :=
  match s.revocations.get? key with
  | none => (false, s)
  | some deadline =>
    if deadline ≤ now then (false, { s with revocations := s.revocations.erase key })
    else (true, s)

/-- Puts a key on the deny-list; no time at all changes nothing. -/
def revoke (now : Nanos) (key : String) (ttl : Nat) (s : MemoryStore) : MemoryStore :=
  if ttl = 0 then s else { s with revocations := s.revocations.insert key (now + ttl) }

/-- The time left on the deny-list, down to zero at the deadline itself. -/
def revocationTtl (now : Nanos) (key : String) (s : MemoryStore) : Option Nat :=
  (s.revocations.get? key).bind fun deadline =>
    if now ≤ deadline then some (deadline - now).toNat else none

/-- Defines a role, in place of an old one with the same name. -/
def insertRole (role : Role) (s : MemoryStore) : MemoryStore :=
  { s with roles := s.roles.insert role.name role }

def rolesOf (s : MemoryStore) (userId : String) : RoleSet :=
  (s.userRoles.get? userId).getD .empty

def grantRole (userId role : String) (s : MemoryStore) : Except AuthError Unit × MemoryStore :=
  if s.roles.contains role then
    (.ok (), { s with userRoles := s.userRoles.insert userId ((s.rolesOf userId).insert role) })
  else (.error (.validation (.unknownRole role)), s)

/-- The effect of each call on a store that takes the ids of new users from `ids`. -/
def model (ids : Nat → String) : StoreModel MemoryStore
  | _, .findByEmail email, s => (.ok (s.findByEmail email), s)
  | _, .findById id, s => (.ok (s.findById id), s)
  | _, .emailExists email, s => (.ok (s.emails.contains email), s)
  | _, .createUser email name passwordHash, s => s.createUser ids email name passwordHash
  | _, .upsert record, s =>
    (.ok (), { s with refreshTokens := s.refreshTokens.insert record.userId record })
  | _, .findByUser userId, s => (.ok (s.refreshTokens.get? userId), s)
  | _, .delete userId, s => (.ok (), { s with refreshTokens := s.refreshTokens.erase userId })
  | _, .deleteMatching userId tokenHash, s =>
    let (b, s) := s.deleteMatching userId tokenHash
    (.ok b, s)
  | now, .isRevoked key, s =>
    let (b, s) := s.isRevoked now key
    (.ok b, s)
  | now, .revoke key ttl, s => (.ok (), s.revoke now key ttl)
  | _, .findRole name, s => (.ok (s.roles.get? name), s)
  | _, .rolesByNames names, s => (.ok (names.filterMap s.roles.get?), s)
  | _, .rolesForUser userId, s => (.ok (s.rolesOf userId).elems, s)
  | _, .grantRole userId role, s => s.grantRole userId role

end MemoryStore

end Turnstile
