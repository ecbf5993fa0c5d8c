import Turnstile.Postgres.RoleRow
import Turnstile.Postgres.Script
import Turnstile.Store.Program
import Turnstile.Text.Integer

/-! The store kept in a PostgreSQL database. -/

namespace Turnstile.Postgres

open Script

def findByEmail (email : String) : Script (Option Credentials) :=
  fetchOptional
    (fun row => do
      let id ← column Value.text? row 0
      let name ← nullable Value.text? row 1
      let passwordHash ← nullable Value.text? row 2
      return ⟨⟨id, email, name⟩, passwordHash⟩)
    ⟨"SELECT id::text, name, password_hash FROM users WHERE email = $1", [.text email]⟩

def findById (userId : String) : Script (Option User) :=
  fetchOptional
    (fun row => do
      let email ← column Value.text? row 0
      let name ← nullable Value.text? row 1
      return ⟨userId, email, name⟩)
    ⟨"SELECT email, name FROM users WHERE id = $1::uuid", [.text userId]⟩

def truth (row : List Value) : Except DbError Bool :=
  column Value.bool? row 0

def emailExists (email : String) : Script Bool :=
  fetchOne truth ⟨"SELECT EXISTS(SELECT 1 FROM users WHERE email = $1)", [.text email]⟩

/-- The SQLSTATE of a second row where only one is allowed. -/
def uniqueViolation : String := "23505"

def insertFailure : DbError → AuthError
  | e@(.refused code _) => if code = uniqueViolation then .validation .emailTaken else .db e
  | e => .db e

/-- Keeps other creators out, for these take turns. -/
def lockUsers : Statement :=
  ⟨"LOCK TABLE users IN SHARE ROW EXCLUSIVE MODE", []⟩

def noUsers : Statement :=
  ⟨"SELECT NOT EXISTS(SELECT 1 FROM users)", []⟩

def insertUser (email : String) (name : Option String) (passwordHash : String) : Statement :=
  ⟨"INSERT INTO users (email, name, password_hash) VALUES ($1, $2, $3) RETURNING id::text",
    [.text email, Value.ofText? name, .text passwordHash]⟩

/-- Creates a user in one transaction. The table is locked before it is looked at, so only one
creator can find it empty. -/
def createUser (email : String) (name : Option String) (passwordHash : String) :
    Script CreatedUser :=
  transaction do
    perform lockUsers
    let isFirst ← fetchOne truth noUsers
    match ← trySend (insertUser email name passwordHash) with
    | .error e => fail (insertFailure e)
    | .ok reply =>
      let id ← ofDb (firstRow (fun row => column Value.text? row 0) reply)
      return ⟨id, isFirst⟩

def upsert (r : RefreshRecord) : Script Unit :=
  perform
    ⟨"INSERT INTO refresh_tokens (user_id, token_hash, expires_at, created_at) " ++
      "VALUES ($1::uuid, $2, $3, $4) ON CONFLICT (user_id) DO UPDATE " ++
      "SET token_hash = EXCLUDED.token_hash, expires_at = EXCLUDED.expires_at, " ++
      "created_at = EXCLUDED.created_at",
      [.text r.userId, .text r.tokenHash, .time r.expiresAt, .time r.createdAt]⟩

def findByUser (userId : String) : Script (Option RefreshRecord) :=
  fetchOptional
    (fun row => do
      let tokenHash ← column Value.text? row 0
      let expiresAt ← column Value.time? row 1
      let createdAt ← column Value.time? row 2
      return ⟨userId, tokenHash, expiresAt, createdAt⟩)
    ⟨"SELECT token_hash, expires_at, created_at FROM refresh_tokens WHERE user_id = $1::uuid",
      [.text userId]⟩

def delete (userId : String) : Script Unit :=
  perform ⟨"DELETE FROM refresh_tokens WHERE user_id = $1::uuid", [.text userId]⟩

/-- Deletes the refresh record of a user if it has the given hash; whether it did. -/
def deleteMatching (userId tokenHash : String) : Script Bool := do
  let affected ← execute
    ⟨"DELETE FROM refresh_tokens WHERE user_id = $1::uuid AND token_hash = $2",
      [.text userId, .text tokenHash]⟩
  return 0 < affected

/-- Whether a key is on the deny-list, by the clock of the database. -/
def isRevoked (key : String) : Script Bool :=
  fetchOne truth
    ⟨"SELECT EXISTS(SELECT 1 FROM revoked_tokens WHERE key = $1 AND expires_at > now())",
      [.text key]⟩

/-- Puts a key on the deny-list, and clears entries past their deadline away. -/
def revoke (now : Nanos) (key : String) (ttl : Nat) : Script Unit :=
  if ttl = 0 then return ()
  else if Nanos.ofMillis int64Max < ttl then fail (.internal .lifetimeOverflow)
  else do
    perform
      ⟨"INSERT INTO revoked_tokens (key, expires_at) VALUES ($1, $2) " ++
        "ON CONFLICT (key) DO UPDATE SET expires_at = EXCLUDED.expires_at",
        [.text key, .time (now + ttl)]⟩
    perform ⟨"DELETE FROM revoked_tokens WHERE expires_at <= now()", []⟩

def rolePermissions : String :=
  "SELECT r.name, p.name, p.resource, p.http_method FROM roles r " ++
    "LEFT JOIN role_permissions rp ON rp.role_id = r.id " ++
    "LEFT JOIN permissions p ON p.id = rp.permission_id"

def roleRow (row : List Value) : Except DbError RoleRow := do
  let role ← column Value.text? row 0
  let name ← nullable Value.text? row 1
  let resource ← nullable Value.text? row 2
  let method ← nullable Value.text? row 3
  return ⟨role, name, resource, method⟩

def findRole (name : String) : Script (Option Role) := do
  let rows ← fetchAll roleRow ⟨rolePermissions ++ " WHERE r.name = $1", [.text name]⟩
  return (groupRoles rows).head?

/-- The known roles among some names, in order of their names. -/
def rolesByNames (names : List String) : Script (List Role) :=
  if names = [] then return []
  else do
    let rows ← fetchAll roleRow ⟨rolePermissions ++ " WHERE r.name = ANY($1)", [.texts names]⟩
    return groupRoles rows

def rolesForUser (userId : String) : Script (List String) :=
  fetchAll (fun row => column Value.text? row 0)
    ⟨"SELECT r.name FROM user_roles ur JOIN roles r ON r.id = ur.role_id " ++
      "WHERE ur.user_id = $1::uuid ORDER BY r.name", [.text userId]⟩

def grantRole (userId role : String) : Script Unit := do
  let known ← fetchOne truth
    ⟨"SELECT EXISTS(SELECT 1 FROM roles WHERE name = $1)", [.text role]⟩
  if ¬ known then fail (.validation (.unknownRole role))
  perform
    ⟨"INSERT INTO user_roles (user_id, role_id) SELECT $1::uuid, id FROM roles " ++
      "WHERE name = $2 ON CONFLICT DO NOTHING", [.text userId, .text role]⟩

def script (now : Nanos) : (c : Call) → Script c.Answer
  | .findByEmail email => findByEmail email
  | .findById userId => findById userId
  | .emailExists email => emailExists email
  | .createUser email name passwordHash => createUser email name passwordHash
  | .upsert record => upsert record
  | .findByUser userId => findByUser userId
  | .delete userId => delete userId
  | .deleteMatching userId tokenHash => deleteMatching userId tokenHash
  | .isRevoked key => isRevoked key
  | .revoke key ttl => revoke now key ttl
  | .findRole name => findRole name
  | .rolesByNames names => rolesByNames names
  | .rolesForUser userId => rolesForUser userId
  | .grantRole userId role => grantRole userId role

/-- The effect of calls on a database that takes statements one at a time. -/
def model {σ : Type} (database : Statement → σ → Except DbError Reply × σ) : StoreModel σ :=
  fun now c s => run database (script now c) s
where
  /-- Sends the statements of a script. -/
  run {α : Type} (database : Statement → σ → Except DbError Reply × σ) :
      Script α → σ → Except AuthError α × σ
    | .done r, s => (r, s)
    | .send statement next, s =>
      let (reply, s) := database statement s
      run database (next reply) s

/-- Whether a statement can be sent: no instant in it is beyond the last one. -/
def Statement.sendable (s : Statement) : Bool :=
  s.params.all fun
    | .time t => t ≤ lastInstant
    | _ => true

/-- A database for programs. Arithmetic beyond the last instant has no result: a call ends without an
answer where it comes to a statement that cannot be sent. -/
def host {σ : Type} (database : Statement → σ → Except DbError Reply × σ) (entropy : Nat → Draw) :
    Host (World σ) where
  clock w := w.clock
  draw w := (entropy w.drawn, { w with drawn := w.drawn + 1 })
  answer c w :=
    let (r, store) := run? database (script w.clock c) w.store
    (r, { w with store })
where
  /-- Sends the statements of a script up to one that cannot be sent. -/
  run? {α : Type} (database : Statement → σ → Except DbError Reply × σ) :
      Script α → σ → Option (Except AuthError α) × σ
    | .done r, s => (some r, s)
    | .send statement next, s =>
      if statement.sendable then
        let (reply, s) := database statement s
        run? database (next reply) s
      else (none, s)

end Turnstile.Postgres
