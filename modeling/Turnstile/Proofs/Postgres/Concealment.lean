import Mathlib.Data.List.Forall2
import Turnstile.Postgres.Scripted
import Turnstile.Proofs.Postgres.Script
import Turnstile.Proofs.Store.Disturbed

/-! What a database tells about a failure, apart from its SQLSTATE, changes nothing but the details of
the failures of calls. -/

namespace Turnstile

def DbError.sqlState? : DbError → Option String
  | .refused code _ => some code
  | _ => none

namespace Postgres

/-- The same reply, or two failures with the same SQLSTATE. -/
abbrev SameReply {α : Type} : Except DbError α → Except DbError α → Prop :=
  SameUpTo fun e e' => e.sqlState? = e'.sqlState?

namespace Script

variable {α β : Type}

/-- Scripts that send the same statements and end alike, as long as the replies differ only in what
they tell about failures. -/
inductive Alike : Script α → Script α → Prop
  | done {r r' : Except AuthError α} : SameUpTo AuthError.Alike r r' → Alike (done r) (done r')
  | send (s : Statement) {next next' : Except DbError Reply → Script α} :
    (∀ r r', SameReply r r' → Alike (next r) (next' r')) → Alike (send s next) (send s next')

namespace Alike

theorem result (r : Except AuthError α) : Alike (.done r) (.done r) := .done (.refl .refl r)

theorem db {e e' : DbError} : Alike (fail (.db e) : Script α) (fail (.db e')) :=
  .done (.error (.inr ⟨trivial, trivial⟩))

theorem bind {x x' : Script α} {f f' : α → Script β} (hx : x.Alike x')
    (hf : ∀ a, (f a).Alike (f' a)) : (x >>= f).Alike (x' >>= f') := by
  rw [bind_eq, bind_eq]
  induction hx with
  | done h =>
    cases h with
    | ok a => exact hf a
    | error he => exact .done (.error he)
  | send s _ ih => exact .send s fun r r' h => ih r r' h

theorem query (s : Statement) : Alike (query s) (query s) :=
  .send s fun _ _ h => by
    cases h with
    | ok reply => exact result _
    | error _ => exact db

/-- A reply that is looked at must not tell failures apart by more than their SQLSTATE. -/
theorem trySend_bind (s : Statement) {f : Except DbError Reply → Script α}
    (hok : ∀ reply, (f (.ok reply)).Alike (f (.ok reply)))
    (herr : ∀ e e', e.sqlState? = e'.sqlState? → (f (.error e)).Alike (f (.error e'))) :
    (trySend s >>= f).Alike (trySend s >>= f) :=
  .send s fun _ _ h => by
    cases h with
    | ok reply => exact hok reply
    | error he => exact herr _ _ he

theorem fetchAll (read : RowReader α) (s : Statement) : Alike (fetchAll read s) (fetchAll read s) :=
  (query s).bind fun _ => result _

theorem fetchOptional (read : RowReader α) (s : Statement) :
    Alike (fetchOptional read s) (fetchOptional read s) :=
  (query s).bind fun _ => result _

theorem fetchOne (read : RowReader α) (s : Statement) : Alike (fetchOne read s) (fetchOne read s) :=
  (query s).bind fun _ => result _

theorem perform (s : Statement) : Alike (perform s) (perform s) :=
  (query s).bind fun _ => result _

theorem within {body body' : Script α} (h : body.Alike body') :
    (transaction.within body).Alike (transaction.within body') := by
  induction h with
  | done h =>
    cases h with
    | ok a =>
      refine .send commit fun r r' h => ?_
      cases h with
      | ok _ => exact result _
      | error _ => exact .send rollback fun _ _ _ => db
    | error he => exact .send rollback fun _ _ _ => .done (.error he)
  | send s _ ih => exact .send s fun r r' h => ih r r' h

theorem transaction {body body' : Script α} (h : body.Alike body') :
    (transaction body).Alike (transaction body') :=
  .send begin fun _ _ hreply => by
    cases hreply with
    | ok _ => exact h.within
    | error _ => exact db

/-- Over a database that replies alike, alike scripts end alike. -/
theorem run {σ : Type} {database : Statement → σ → Except DbError Reply × σ} {R : σ → σ → Prop}
    (hdatabase : ∀ s d d', R d d' →
      SameReply (database s d).1 (database s d').1 ∧ R (database s d).2 (database s d').2)
    {x x' : Script α} (h : x.Alike x') {d d' : σ} (hd : R d d') :
    SameUpTo AuthError.Alike (model.run database x d).1 (model.run database x' d').1 ∧
      R (model.run database x d).2 (model.run database x' d').2 := by
  induction h generalizing d d' with
  | done h => exact ⟨h, hd⟩
  | send s _ ih =>
    obtain ⟨hreply, hnext⟩ := hdatabase s d d' hd
    exact ih _ _ hreply hnext

end Alike

end Script

/-- Only the SQLSTATE decides what a failed insertion is. -/
theorem alike_insertFailure {e e' : DbError} (h : e.sqlState? = e'.sqlState?) :
    (insertFailure e).Alike (insertFailure e') := by
  cases e with
  | refused code text =>
    cases e' with
    | refused code' text' =>
      obtain rfl := Option.some.inj h
      dsimp only [insertFailure]
      split_ifs
      · exact .refl _
      · exact .inr ⟨trivial, trivial⟩
    | _ => cases h
  | _ =>
    cases e' with
    | refused => cases h
    | _ => exact .inr ⟨trivial, trivial⟩

theorem alike_createUser (email : String) (name : Option String) (passwordHash : String) :
    (createUser email name passwordHash).Alike (createUser email name passwordHash) := by
  refine .transaction (.bind (.perform _) fun _ => .bind (.fetchOne _ _) fun isFirst => ?_)
  refine .trySend_bind _ (fun reply => ?_) fun e e' h => .done (.error (alike_insertFailure h))
  exact .bind (.result _) fun id => .result _

theorem alike_revoke (now : Nanos) (key : String) (ttl : Nat) :
    (revoke now key ttl).Alike (revoke now key ttl) := by
  unfold revoke
  split_ifs
  · exact .result _
  · exact .result _
  · exact .bind (.perform _) fun _ => .perform _

theorem alike_rolesByNames (names : List String) :
    (rolesByNames names).Alike (rolesByNames names) := by
  unfold rolesByNames
  split_ifs
  · exact .result _
  · exact .bind (.fetchAll _ _) fun _ => .result _

theorem alike_grantRole (userId role : String) :
    (grantRole userId role).Alike (grantRole userId role) := by
  refine .bind (.fetchOne _ _) fun known => ?_
  split_ifs
  · exact .perform _
  · exact .result (.error _)

/-- No script tells failures apart by more than their SQLSTATE. -/
theorem alike_script (now : Nanos) (c : Call) : (script now c).Alike (script now c) := by
  cases c with
  | findByEmail | findById | findByUser => exact .fetchOptional _ _
  | emailExists | isRevoked => exact .fetchOne _ _
  | createUser => exact alike_createUser _ _ _
  | upsert | delete => exact .perform _
  | deleteMatching => exact .bind (.bind (.query _) fun _ => .result _) fun _ => .result _
  | revoke => exact alike_revoke _ _ _
  | findRole => exact .bind (.fetchAll _ _) fun _ => .result _
  | rolesByNames => exact alike_rolesByNames _
  | rolesForUser => exact .fetchAll _ _
  | grantRole => exact alike_grantRole _ _

theorem alike_model {σ : Type} {database : Statement → σ → Except DbError Reply × σ}
    {R : σ → σ → Prop} (hdatabase : ∀ s d d', R d d' →
      SameReply (database s d).1 (database s d').1 ∧ R (database s d).2 (database s d').2) :
    (model database).Alike R where
  answer now c _ _ h := (alike_script now c).run hdatabase h

namespace Scripted

/-- Databases with the same replies to come, but for what these tell about failures. -/
def Alike (d d' : Scripted) : Prop :=
  List.Forall₂ (fun r r' => r.word = r'.word ∧ SameReply r.outcome r'.outcome) d.replies d'.replies

theorem alike_database (s : Statement) {d d' : Scripted} (h : d.Alike d') :
    SameReply (database s d).1 (database s d').1 ∧ (database s d).2.Alike (database s d').2 := by
  obtain ⟨replies, sent⟩ := d
  obtain ⟨replies', sent'⟩ := d'
  cases h with
  | nil => exact ⟨.ok _, .nil⟩
  | cons hreply hrest =>
    obtain ⟨hword, hsame⟩ := hreply
    unfold database
    dsimp only
    rw [hword]
    split_ifs
    · exact ⟨.ok _, .cons ⟨hword, hsame⟩ hrest⟩
    · exact ⟨hsame, hrest⟩

end Scripted

end Postgres

end Turnstile
