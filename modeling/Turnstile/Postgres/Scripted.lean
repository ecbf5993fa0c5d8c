import Turnstile.Postgres.Store

/-! A database that gives fixed replies. -/

namespace Turnstile.Postgres

/-- A reply to come. One with a word is for the next statement that is just this word. -/
structure PlannedReply where
  word : Option String := none
  outcome : Except DbError Reply

/-- The replies to come and the statements sent so far, the latest first. -/
structure Scripted where
  replies : List PlannedReply
  sent : List Statement := []

namespace Scripted

def isTransactionWord (s : Statement) : Bool :=
  s = begin || s = commit || s = rollback

/-- Takes the next reply; without one, a statement succeeds and does nothing. A word of a
transaction takes only a reply meant for it. -/
def database (s : Statement) (d : Scripted) : Except DbError Reply × Scripted :=
  let d := { d with sent := s :: d.sent }
  match d.replies with
  | [] => (.ok {}, d)
  | r :: rest =>
    if isTransactionWord s ∧ r.word ≠ some s.sql then (.ok {}, d)
    else (r.outcome, { d with replies := rest })

end Scripted

end Turnstile.Postgres
