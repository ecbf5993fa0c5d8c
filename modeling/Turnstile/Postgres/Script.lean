import Turnstile.Error
import Turnstile.Time

/-! Sequences of SQL statements, each chosen after the reply to the one before. -/

namespace Turnstile.Postgres

/-- A parameter of a statement, or a column of a row. -/
inductive Value where
  | null
  | text (s : String)
  | bool (b : Bool)
  | time (t : Nanos)
  | texts (l : List String)
  deriving Repr, DecidableEq

structure Statement where
  sql : String
  params : List Value := []
  deriving Repr, DecidableEq

/-- The reply to a statement: the rows it returned and the number of rows it changed. -/
structure Reply where
  rows : List (List Value) := []
  affected : Nat := 0
  deriving Repr, DecidableEq

/-- The statements that open, keep and undo a transaction. -/
def begin : Statement := ⟨"BEGIN", []⟩

def commit : Statement := ⟨"COMMIT", []⟩

def rollback : Statement := ⟨"ROLLBACK", []⟩

inductive Script (α : Type) where
  | done (result : Except AuthError α)
  | send (s : Statement) (next : Except DbError Reply → Script α)

namespace Script

/-- Goes on with `f` after a result; a failure ends the whole. -/
def bind {α β : Type} : Script α → (α → Script β) → Script β
  | done (.ok a), f => f a
  | done (.error e), _ => done (.error e)
  | send s next, f => send s fun r => (next r).bind f

instance : Monad Script where
  pure a := done (.ok a)
  bind := bind

def fail {α : Type} (e : AuthError) : Script α :=
  done (.error e)

/-- The script with a result that is known already, or a failure of the database. -/
def ofDb {α : Type} (r : Except DbError α) : Script α :=
  done (r.mapError .db)

/-- The reply to a statement, or a failure as it came from the database. -/
def trySend (s : Statement) : Script (Except DbError Reply) :=
  send s fun r => done (.ok r)

def query (s : Statement) : Script Reply :=
  send s ofDb

/-- Runs a script inside a transaction. Unless the commit succeeds, what was begun is rolled
back. -/
def transaction {α : Type} (body : Script α) : Script α :=
  send begin fun
    | .error e => fail (.db e)
    | .ok _ => within body
where
  /-- The script with its end turned into a commit or a rollback. -/
  within : Script α → Script α
    | send s next => send s fun r => within (next r)
    | done (.error e) => send rollback fun _ => fail e
    | done (.ok a) =>
      send commit fun
        | .ok _ => done (.ok a)
        | .error e => send rollback fun _ => fail (.db e)

end Script

def column {α : Type} (read : Value → Option α) (row : List Value) (index : Nat) :
    Except DbError α :=
  match row.getD index .null with
  | .null => .error (.unexpectedNull index)
  | v =>
    match read v with
    | some a => .ok a
    | none => .error (.wrongType index)

def nullable {α : Type} (read : Value → Option α) (row : List Value) (index : Nat) :
    Except DbError (Option α) :=
  match row.getD index .null with
  | .null => .ok none
  | _ => (column read row index).map some

def Value.text? : Value → Option String
  | text s => some s
  | _ => none

def Value.bool? : Value → Option Bool
  | bool b => some b
  | _ => none

def Value.time? : Value → Option Nanos
  | time t => some t
  | _ => none

/-- A text, or null. -/
def Value.ofText? : Option String → Value
  | some s => text s
  | none => null

abbrev RowReader (α : Type) := List Value → Except DbError α

namespace Script

def fetchAll {α : Type} (read : RowReader α) (s : Statement) : Script (List α) := do
  let reply ← query s
  ofDb (reply.rows.mapM read)

/-- The first row of a reply, if there is one. -/
def firstRow? {α : Type} (read : RowReader α) (reply : Reply) : Except DbError (Option α) :=
  match reply.rows with
  | [] => .ok none
  | row :: _ => (read row).map some

/-- The first row of a reply, which must have one. -/
def firstRow {α : Type} (read : RowReader α) (reply : Reply) : Except DbError α :=
  match reply.rows with
  | [] => .error .noRow
  | row :: _ => read row

/-- The row returned by a statement, if there is one. -/
def fetchOptional {α : Type} (read : RowReader α) (s : Statement) : Script (Option α) := do
  let reply ← query s
  ofDb (firstRow? read reply)

def fetchOne {α : Type} (read : RowReader α) (s : Statement) : Script α := do
  let reply ← query s
  ofDb (firstRow read reply)

def execute (s : Statement) : Script Nat := do
  return (← query s).affected

def perform (s : Statement) : Script Unit := do
  let _ ← query s

end Script

end Turnstile.Postgres
