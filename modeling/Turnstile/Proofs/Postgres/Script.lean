import Turnstile.Postgres.Store
import Turnstile.Proofs.Except

/-! Scripts taken apart, and what is read from columns. -/

namespace Turnstile.Postgres

/-- A column that is read is there. -/
theorem of_column_eq_ok {α : Type} {read : Value → Option α} {row : List Value} {index : Nat}
    {a : α} (h : column read row index = .ok a) : ∃ v, row[index]? = some v ∧ read v = some a := by
  unfold column at h
  rw [List.getD_eq_getElem?_getD] at h
  cases hv : row[index]? with
  | none =>
    rw [hv] at h
    cases h
  | some v =>
    rw [hv, Option.getD_some] at h
    refine ⟨v, rfl, ?_⟩
    cases hread : read v with
    | none => cases v <;> simp [hread] at h
    | some b => cases v <;> simp_all

theorem column_eq_ok {α : Type} {read : Value → Option α} {row : List Value} {index : Nat}
    {v : Value} {a : α} (hv : row[index]? = some v) (hnull : v ≠ .null) (hread : read v = some a) :
    column read row index = .ok a := by
  have hcell : row.getD index .null = v := by
    rw [List.getD_eq_getElem?_getD, hv, Option.getD_some]
  unfold column
  rw [hcell]
  cases v with
  | null => exact absurd rfl hnull
  | _ => simp [hread]

theorem text_of_column {row : List Value} {index : Nat} {s : String}
    (h : column Value.text? row index = .ok s) : row[index]? = some (.text s) := by
  obtain ⟨v, hv, hs⟩ := of_column_eq_ok h
  cases v <;> cases hs
  exact hv

theorem time_of_column {row : List Value} {index : Nat} {t : Nanos}
    (h : column Value.time? row index = .ok t) : row[index]? = some (.time t) := by
  obtain ⟨v, hv, ht⟩ := of_column_eq_ok h
  cases v <;> cases ht
  exact hv

namespace Script

variable {σ α β : Type} {database : Statement → σ → Except DbError Reply × σ} {s s' : σ}
  {read : RowReader α} {statement : Statement}

theorem bind_eq (x : Script α) (f : α → Script β) : x >>= f = x.bind f := rfl

@[simp] theorem pure_eq (a : α) : (pure a : Script α) = done (.ok a) := rfl

theorem fetchAll_eq : fetchAll read statement = send statement fun reply =>
    done ((reply >>= fun found => found.rows.mapM read).mapError .db) :=
  congrArg (send statement) (funext fun reply => by cases reply <;> rfl)

theorem fetchOptional_eq : fetchOptional read statement = send statement fun reply =>
    done ((reply >>= firstRow? read).mapError .db) :=
  congrArg (send statement) (funext fun reply => by cases reply <;> rfl)

theorem fetchOne_eq : fetchOne read statement = send statement fun reply =>
    done ((reply >>= firstRow read).mapError .db) :=
  congrArg (send statement) (funext fun reply => by cases reply <;> rfl)

theorem perform_eq : perform statement = send statement fun reply =>
    done ((reply.map fun _ => ()).mapError .db) :=
  congrArg (send statement) (funext fun reply => by cases reply <;> rfl)

/-- A row that is fetched is the first one of the reply. -/
theorem of_fetched {reply : Except DbError Reply} {a : α}
    (h : (reply >>= firstRow? read).mapError AuthError.db = .ok (some a)) :
    ∃ found row rows, reply = .ok found ∧ found.rows = row :: rows ∧ read row = .ok a := by
  obtain ⟨found, hreply, hfound⟩ := exists_of_bind_eq_ok (of_mapError_eq_ok h)
  unfold firstRow? at hfound
  cases hrows : found.rows with
  | nil =>
    rw [hrows] at hfound
    cases hfound
  | cons row rows =>
    rw [hrows] at hfound
    refine ⟨found, row, rows, hreply, hrows, ?_⟩
    cases hread : read row with
    | error e => simp [hread, Except.map] at hfound
    | ok b => simpa [hread, Except.map] using hfound

/-- A sequence stops where its first part fails. -/
theorem run_bind (x : Script α) (f : α → Script β) (s : σ) :
    model.run database (x.bind f) s =
      match model.run database x s with
      | (.ok a, s') => model.run database (f a) s'
      | (.error e, s') => (.error e, s') := by
  induction x generalizing s with
  | done r => cases r <;> rfl
  | send statement next ih => exact ih _ _

/-- All rows of a reply are fetched, as they are read. -/
theorem run_fetchAll {reply : Reply} (h : database statement s = (.ok reply, s')) :
    model.run database (fetchAll read statement) s =
      ((reply.rows.mapM read).mapError .db, s') := by
  rw [fetchAll_eq, model.run, h]
  rfl

end Script

end Turnstile.Postgres
