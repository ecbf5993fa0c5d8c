import Turnstile.Digest.Sha2
import Turnstile.Error

/-! Migrations of the database schema. -/

namespace Turnstile

/-- A migration: a script that is run once. -/
structure Migration where
  version : Int
  description : String
  sql : String
  deriving Repr, DecidableEq

def Migration.checksum (m : Migration) : Bytes :=
  Sha2.sha384.digest (utf8 m.sql)

structure AppliedMigration where
  version : Int
  checksum : Bytes
  deriving Repr, DecidableEq

inductive MigrateError where
  /-- A statement about the migrations failed. -/
  | statement (failure : DbError)
  /-- The script of a migration failed. -/
  | script (version : Int) (failure : DbError)
  /-- A migration was applied in part. -/
  | partly (version : Int)
  /-- A migration was applied that is not known. -/
  | unknown (version : Int)
  /-- A migration was applied with another script. -/
  | changed (version : Int)
  deriving Repr, DecidableEq

def migrationTable : String := "_sqlx_migrations"

def MigrateError.message : MigrateError → String
  | statement failure => s!"while executing migrations: {failure.message}"
  | script version failure => s!"while executing migration {version}: {failure.message}"
  | partly version =>
    s!"migration {version} is partially applied; fix and remove row from `{migrationTable}` table"
  | unknown version =>
    s!"migration {version} was previously applied but is missing in the resolved migrations"
  | changed version => s!"migration {version} was previously applied but has been modified"

namespace Migration

/-- What migrations find: the records of earlier ones, and how the database takes statements. -/
structure Database where
  applied : List AppliedMigration
  /-- A migration recorded as begun but not finished. -/
  dirty : Option Int
  accept : String → Except DbError Unit

/-- Steps that send statements; those sent are kept, the latest first, also after a failure. -/
abbrev Steps := ExceptT MigrateError (StateM (List String))

def send (db : Database) (failing : DbError → MigrateError) (sql : String) : Steps Unit := do
  modify (sql :: ·)
  match db.accept sql with
  | .ok () => return
  | .error e => throw (failing e)

def lock : List String := ["SELECT current_database()", "SELECT pg_advisory_lock($1)"]

def unlock : String := "SELECT pg_advisory_unlock($1)"

def createTable : String :=
  "CREATE TABLE IF NOT EXISTS " ++ migrationTable ++ " (\n    version BIGINT PRIMARY KEY,\n" ++
    "    description TEXT NOT NULL,\n    installed_on TIMESTAMPTZ NOT NULL DEFAULT now(),\n" ++
    "    success BOOLEAN NOT NULL,\n    checksum BYTEA NOT NULL,\n" ++
    "    execution_time BIGINT NOT NULL\n);"

def selectDirty : String :=
  "SELECT version FROM " ++ migrationTable ++ " WHERE success = false ORDER BY version LIMIT 1"

def selectApplied : String :=
  "SELECT version, checksum FROM " ++ migrationTable ++ " ORDER BY version"

def insertApplied : String :=
  "INSERT INTO " ++ migrationTable ++
    " ( version, description, success, checksum, execution_time )\n" ++
    "    VALUES ( $1, $2, TRUE, $3, -1 )"

def updateTime : String :=
  "UPDATE " ++ migrationTable ++ "\n    SET execution_time = $1\n    WHERE version = $2"

/-- Runs a migration and records it, in one transaction. How long it took is recorded afterwards,
if that succeeds. -/
def apply (db : Database) (m : Migration) : Steps Unit := do
  send db .statement "BEGIN"
  send db (.script m.version) m.sql
  send db .statement insertApplied
  send db .statement "COMMIT"
  try send db .statement updateTime catch _ => return

/-- Runs a migration unless it has been applied; then it must be unchanged. -/
def bringUp (db : Database) (m : Migration) : Steps Unit :=
  match db.applied.find? fun a => a.version = m.version with
  | none => apply db m
  | some a => if a.checksum = m.checksum then return else throw (.changed m.version)

def least? (versions : List Int) : Option Int :=
  versions.foldl (fun least v => some (match least with | some l => min l v | none => v)) none

/-- Brings the schema up to date: no migration may be half applied, unknown or changed; those that
are missing are run in order. -/
def migrate (known : List Migration) (db : Database) : Steps Unit := do
  for sql in lock do
    send db .statement sql
  send db .statement createTable
  send db .statement selectDirty
  if let some version := db.dirty then throw (.partly version)
  send db .statement selectApplied
  let isKnown (a : AppliedMigration) : Bool := known.any fun m => m.version = a.version
  if let some version := least? ((db.applied.filter fun a => ¬ isKnown a).map (·.version)) then
    throw (.unknown version)
  for m in known do
    bringUp db m
  send db .statement unlock

end Migration

end Turnstile
