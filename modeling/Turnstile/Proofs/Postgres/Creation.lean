import Turnstile.Proofs.Postgres.Course

/-! What the creation of a user sends to a database, whatever it replies: a transaction whose statements
are sent one by one for as long as the replies serve, and that is undone unless it could be committed. -/

namespace Turnstile.Postgres

open Script

variable {σ α : Type} {sent xs ys : List Sent} {x : Sent}

inductive Closes : Except AuthError α → List Sent → Except AuthError α → Prop
  | undone (e : AuthError) (reply : Except DbError Reply) :
    Closes (.error e) [⟨rollback, reply⟩] (.error e)
  | lost (a : α) (e : DbError) (reply : Except DbError Reply) :
    Closes (.ok a) [⟨commit, .error e⟩, ⟨rollback, reply⟩] (.error (.db e))
  | kept (a : α) (reply : Reply) : Closes (.ok a) [⟨commit, .ok reply⟩] (.ok a)

private theorem sends_within {body : Script α} {r : Except AuthError α}
    (h : (transaction.within body).Sends sent r) :
    ∃ xs ys r₀, sent = xs ++ ys ∧ body.Sends xs r₀ ∧ Closes r₀ ys r := by
  induction body generalizing sent with
  | done r₀ =>
    refine ⟨[], sent, r₀, rfl, .done r₀, ?_⟩
    cases r₀ with
    | error e =>
      obtain ⟨reply, rfl, rfl⟩ := sends_once h
      exact .undone e reply
    | ok a =>
      cases h with
      | @send _ _ reply _ _ h =>
        cases reply with
        | ok reply =>
          cases h
          exact .kept a reply
        | error e =>
          obtain ⟨reply, rfl, rfl⟩ := sends_once h
          exact .lost a e reply
  | send statement next ih =>
    cases h with
    | send h =>
      obtain ⟨xs, ys, r₀, rfl, hbody, hclose⟩ := ih _ h
      exact ⟨_, ys, r₀, rfl, .send hbody, hclose⟩

/-- A transaction that cannot begin sends nothing else. -/
theorem sends_transaction {body : Script α} {r : Except AuthError α}
    (h : (transaction body).Sends sent r) :
    (∃ e, sent = [⟨begin, .error e⟩] ∧ r = .error (.db e)) ∨
      ∃ reply xs ys r₀, sent = ⟨begin, .ok reply⟩ :: xs ++ ys ∧ body.Sends xs r₀ ∧
        Closes r₀ ys r := by
  cases h with
  | @send _ _ reply _ _ h =>
    cases reply with
    | error e =>
      cases h
      exact .inl ⟨e, rfl, rfl⟩
    | ok reply =>
      obtain ⟨xs, ys, r₀, rfl, hbody, hclose⟩ := sends_within h
      exact .inr ⟨reply, xs, ys, r₀, rfl, hbody, hclose⟩

def Reply.cell? (reply : Reply) : Option Value :=
  reply.rows.head?.bind (·[0]?)

/-- The first column of the first row is read if it is there and of the kind that is read. -/
theorem firstRow_eq_ok {read : Value → Option α} (hnull : read .null = none) {reply : Reply} {a : α} :
    firstRow (fun row => column read row 0) reply = .ok a ↔
      ∃ v, reply.cell? = some v ∧ read v = some a := by
  unfold firstRow Reply.cell?
  cases reply.rows with
  | nil => simp
  | cons row rows =>
    refine ⟨of_column_eq_ok, ?_⟩
    rintro ⟨v, hv, hread⟩
    refine column_eq_ok hv ?_ hread
    rintro rfl
    cases hnull.symm.trans hread

theorem firstRow_truth {reply : Reply} {b : Bool} :
    firstRow truth reply = .ok b ↔ reply.cell? = some (.bool b) := by
  refine (firstRow_eq_ok rfl).trans ⟨?_, fun hv => ⟨_, hv, rfl⟩⟩
  rintro ⟨v, hv, hread⟩
  cases v <;> cases hread
  exact hv

theorem firstRow_text {reply : Reply} {s : String} :
    firstRow (fun row => column Value.text? row 0) reply = .ok s ↔
      reply.cell? = some (.text s) := by
  refine (firstRow_eq_ok rfl).trans ⟨?_, fun hv => ⟨_, hv, rfl⟩⟩
  rintro ⟨v, hv, hread⟩
  cases v <;> cases hread
  exact hv

namespace Sent

/-- The statement begins with some words, and its reply has a value in the first column of the first
row. -/
def Yields (x : Sent) (words : String) (v : Value) : Prop :=
  x.statement.Begins words ∧ ∃ reply, x.reply = .ok reply ∧ reply.cell? = some v

theorem Yields.succeeds {words : String} {v : Value} (h : x.Yields words v) : x.Succeeds := by
  obtain ⟨-, reply, hreply, -⟩ := h
  exact ⟨reply, hreply⟩

/-- The reply to a statement is no failure, and it has the row that is asked for: one with a truth value
to a question, and one with an identifier to an insertion. -/
structure Serves (x : Sent) : Prop where
  succeeds : x.Succeeds
  looked : x.statement.Begins "SELECT " → ∃ b, x.Yields "SELECT " (.bool b)
  inserted : x.statement.Begins "INSERT " → ∃ id, x.Yields "INSERT " (.text id)

/-- An insertion is refused for a second row where only one is allowed. -/
def Taken (x : Sent) : Prop :=
  x.statement.Begins "INSERT " ∧ ∃ text, x.reply = .error (.refused "23505" text)

inductive Fails (x : Sent) : AuthError → Prop
  | taken : x.Taken → Fails x (.validation .emailTaken)
  | db (e : DbError) : ¬ x.Serves → ¬ x.Taken → Fails x (.db e)

theorem not_serves_of_error {statement : Statement} {e : DbError} :
    ¬ Serves ⟨statement, .error e⟩ := by
  intro h
  obtain ⟨reply, hok⟩ := h.succeeds
  cases hok

theorem not_taken_of_ok {statement : Statement} {reply : Reply} :
    ¬ Taken ⟨statement, .ok reply⟩ := by
  rintro ⟨-, text, hrefused⟩
  cases hrefused

theorem Serves.not_taken (h : x.Serves) : ¬ x.Taken := by
  obtain ⟨statement, reply⟩ := x
  obtain ⟨reply, rfl⟩ := h.succeeds
  exact not_taken_of_ok

theorem Fails.not_serves {e : AuthError} (h : x.Fails e) : ¬ x.Serves := by
  cases h with
  | taken htaken => exact fun hserves => hserves.not_taken htaken
  | db _ hnot _ => exact hnot

theorem Fails.eq_taken_iff {e : AuthError} (h : x.Fails e) :
    e = .validation .emailTaken ↔ x.Taken := by
  cases h with
  | taken htaken => exact iff_of_true rfl htaken
  | db _ _ hnot => exact iff_of_false (fun he => nomatch he) hnot

end Sent

/-- Planned statements are sent one after another for as long as the replies serve. -/
inductive Advances : List Statement → List Sent → Option AuthError → Prop
  | done : Advances [] [] none
  | stop {plan : List Statement} {statement : Statement} {reply : Except DbError Reply}
      {e : AuthError} : Sent.Fails ⟨statement, reply⟩ e →
    Advances (statement :: plan) [⟨statement, reply⟩] (some e)
  | next {plan : List Statement} {statement : Statement} {reply : Except DbError Reply}
      {xs : List Sent} {failure : Option AuthError} : Sent.Serves ⟨statement, reply⟩ →
    Advances plan xs failure → Advances (statement :: plan) (⟨statement, reply⟩ :: xs) failure

namespace Advances

variable {plan more : List Statement} {failure : Option AuthError}

theorem prefix_plan (h : Advances plan xs failure) : xs.map Sent.statement <+: plan := by
  induction h with
  | done => exact List.prefix_rfl
  | stop _ => exact (List.prefix_cons_inj _).mpr (List.nil_prefix)
  | next _ _ ih => exact (List.prefix_cons_inj _).mpr ih

theorem ne_nil (h : Advances plan xs failure) (hplan : plan ≠ []) : xs ≠ [] := by
  cases h with
  | done => exact absurd rfl hplan
  | stop _ => exact List.cons_ne_nil _ _
  | next _ _ => exact List.cons_ne_nil _ _

/-- A statement is sent when the one before it has served. -/
theorem onward (h : Advances plan xs failure) {n : Nat} (hn : n + 1 < plan.length) :
    n + 1 < xs.length ↔ ∃ x, xs[n]? = some x ∧ x.Serves := by
  induction h generalizing n with
  | done => exact absurd hn (Nat.not_lt_zero _)
  | stop hfails =>
    refine iff_of_false (by simp) ?_
    rintro ⟨x, hx, hserves⟩
    obtain rfl := List.mem_singleton.mp (List.mem_of_getElem? hx)
    exact hfails.not_serves hserves
  | @next plan statement reply xs _ hserves hrest ih =>
    cases n with
    | zero =>
      have hplan : plan ≠ [] := List.ne_nil_of_length_pos (by simpa using hn)
      have hpos : 0 < xs.length := List.length_pos_iff.mpr (hrest.ne_nil hplan)
      exact iff_of_true (by simpa using hpos) ⟨⟨statement, reply⟩, rfl, hserves⟩
    | succ n => simpa using ih (by simpa using hn)

theorem eq_none_iff (h : Advances plan xs failure) :
    failure = none ↔ xs.map Sent.statement = plan ∧ ∀ x ∈ xs, x.Serves := by
  induction h with
  | done => simp
  | stop hfails =>
    refine iff_of_false (fun he => nomatch he) ?_
    rintro ⟨-, hserves⟩
    exact hfails.not_serves (hserves _ List.mem_cons_self)
  | next hserves _ ih => simp [ih, hserves]

theorem taken_iff (h : Advances plan xs failure) :
    failure = some (.validation .emailTaken) ↔ ∃ x ∈ xs, x.Taken := by
  induction h with
  | done => simp
  | stop hfails => simpa using hfails.eq_taken_iff
  | next hserves _ ih => simp [ih, hserves.not_taken]

theorem cases (h : Advances plan xs failure) :
    failure = none ∨ failure = some (.validation .emailTaken) ∨ ∃ e, failure = some (.db e) := by
  induction h with
  | done => exact .inl rfl
  | stop hfails =>
    cases hfails with
    | taken _ => exact .inr (.inl rfl)
    | db e _ _ => exact .inr (.inr ⟨e, rfl⟩)
  | next _ _ ih => exact ih

theorem append_of_some {e : AuthError} (h : Advances plan xs (some e)) (more : List Statement) :
    Advances (plan ++ more) xs (some e) := by
  generalize hf : some e = f at h
  induction h with
  | done => cases hf
  | stop hfails =>
    cases hf
    exact .stop hfails
  | next hserves _ ih => exact .next hserves (ih hf)

theorem append (h : Advances plan xs none) (hmore : Advances more ys failure) :
    Advances (plan ++ more) (xs ++ ys) failure := by
  generalize hf : none = f at h
  induction h with
  | done => exact hmore
  | stop _ => cases hf
  | next hserves _ ih => exact .next hserves (ih hf)

end Advances

def creation (email : String) (name : Option String) (passwordHash : String) : List Statement :=
  [begin, lockUsers, noUsers, insertUser email name passwordHash, commit]

/-- A step of a script ends it, or the script goes on with what is read from the reply. -/
theorem sends_step {β : Type} {statement : Statement} {f : Except DbError Reply → Except AuthError α}
    {next : α → Script β} {r : Except AuthError β}
    (h : ((send statement fun reply => done (f reply)).bind next).Sends sent r) :
    ∃ reply, (∃ e, f reply = .error e ∧ sent = [⟨statement, reply⟩] ∧ r = .error e) ∨
      ∃ a rest, f reply = .ok a ∧ sent = ⟨statement, reply⟩ :: rest ∧ (next a).Sends rest r := by
  cases h with
  | @send _ _ reply rest _ h =>
    refine ⟨reply, ?_⟩
    cases hf : f reply with
    | error e =>
      simp only [hf] at h
      cases h
      exact .inl ⟨e, rfl, rfl, rfl⟩
    | ok a =>
      simp only [hf] at h
      exact .inr ⟨a, rest, rfl, rfl, h⟩

theorem not_begins_mk {words sql : String} (h : ¬ words.toList <+: sql.toList) (params : List Value) :
    ¬ Statement.Begins words ⟨sql, params⟩ := h

/-- A statement that asks for no row serves if it does not fail. -/
private theorem serves_of_ok {statement : Statement} {reply : Reply}
    (hlook : ¬ statement.Begins "SELECT ") (hinsert : ¬ statement.Begins "INSERT ") :
    Sent.Serves ⟨statement, .ok reply⟩ :=
  ⟨⟨reply, rfl⟩, fun hb => absurd hb hlook, fun hb => absurd hb hinsert⟩

private theorem fails_of_error {statement : Statement} (hinsert : ¬ statement.Begins "INSERT ")
    (e : DbError) : Sent.Fails ⟨statement, .error e⟩ (.db e) :=
  .db e Sent.not_serves_of_error fun htaken => hinsert htaken.1

variable {email : String} {name : Option String} {passwordHash : String}

private theorem insertUser_begins : (insertUser email name passwordHash).Begins "INSERT " :=
  begins_mk (by decide) _

private theorem noUsers_begins : noUsers.Begins "SELECT " := by decide

private theorem noUsers_not_insert : ¬ noUsers.Begins "INSERT " := by decide

private theorem insertUser_not_look : ¬ (insertUser email name passwordHash).Begins "SELECT " :=
  not_begins_mk (by decide) _

/-- A user is created with what the replies to the question and to the insertion hold. -/
def ReadFrom (user : CreatedUser) (sent : List Sent) : Prop :=
  (∃ x ∈ sent, x.Yields "SELECT " (.bool user.isFirst)) ∧
    ∃ x ∈ sent, x.Yields "INSERT " (.text user.id)

private theorem readFrom_of_error {e : AuthError} (user : CreatedUser)
    (h : (.error e : Except AuthError CreatedUser) = .ok user) : ReadFrom user sent := by
  cases h

private def insertedId : Except DbError Reply → Except AuthError String
  | .error e => .error (insertFailure e)
  | .ok reply => (firstRow (fun row => column Value.text? row 0) reply).mapError .db

theorem insertFailure_refused (code text : String) : insertFailure (.refused code text) =
    if code = uniqueViolation then .validation .emailTaken else .db (.refused code text) := rfl

private theorem fails_of_insertFailure (e : DbError) :
    Sent.Fails ⟨insertUser email name passwordHash, .error e⟩ (insertFailure e) := by
  cases e with
  | refused code text =>
    rw [insertFailure_refused]
    by_cases hcode : code = uniqueViolation
    · rw [if_pos hcode, hcode]
      exact .taken ⟨insertUser_begins, text, rfl⟩
    · rw [if_neg hcode]
      refine .db _ Sent.not_serves_of_error ?_
      rintro ⟨-, text', hrefused⟩
      cases hrefused
      exact hcode rfl
  | _ => exact .db _ Sent.not_serves_of_error fun ⟨_, _, hrefused⟩ => nomatch hrefused

private theorem fails_of_insertedId {reply : Except DbError Reply} {e : AuthError}
    (h : insertedId reply = .error e) :
    Sent.Fails ⟨insertUser email name passwordHash, reply⟩ e := by
  cases reply with
  | error d =>
    obtain rfl : insertFailure d = e := Except.error.inj h
    exact fails_of_insertFailure d
  | ok found =>
    rw [insertedId] at h
    cases hrow : firstRow (fun row => column Value.text? row 0) found with
    | error d =>
      rw [hrow] at h
      cases h
      refine .db d (fun hserves => ?_) Sent.not_taken_of_ok
      obtain ⟨id, -, _, hreply, hcell⟩ := hserves.inserted insertUser_begins
      cases hreply
      cases hrow.symm.trans (firstRow_text.mpr hcell)
    | ok id =>
      rw [hrow] at h
      cases h

private theorem yields_of_insertedId {reply : Except DbError Reply} {id : String}
    (h : insertedId reply = .ok id) :
    Sent.Yields ⟨insertUser email name passwordHash, reply⟩ "INSERT " (.text id) := by
  cases reply with
  | error d => cases h
  | ok found => exact ⟨insertUser_begins, found, rfl, firstRow_text.mp (of_mapError_eq_ok h)⟩

private theorem fails_of_truth {reply : Except DbError Reply} {e : AuthError}
    (h : (reply >>= firstRow truth).mapError .db = .error e) : Sent.Fails ⟨noUsers, reply⟩ e := by
  have hnot : ¬ Sent.Taken ⟨noUsers, reply⟩ := fun htaken => absurd htaken.1 noUsers_not_insert
  cases reply with
  | error d =>
    cases h
    exact .db d Sent.not_serves_of_error hnot
  | ok found =>
    change (firstRow truth found).mapError AuthError.db = .error e at h
    cases hrow : firstRow truth found with
    | error d =>
      rw [hrow] at h
      cases h
      refine .db d (fun hserves => ?_) hnot
      obtain ⟨b, -, _, hreply, hcell⟩ := hserves.looked noUsers_begins
      cases hreply
      cases hrow.symm.trans (firstRow_truth.mpr hcell)
    | ok b =>
      rw [hrow] at h
      cases h

private theorem yields_of_truth {reply : Except DbError Reply} {b : Bool}
    (h : (reply >>= firstRow truth).mapError AuthError.db = .ok b) :
    Sent.Yields ⟨noUsers, reply⟩ "SELECT " (.bool b) := by
  obtain ⟨found, rfl, hrow⟩ := exists_of_bind_eq_ok (of_mapError_eq_ok h)
  exact ⟨noUsers_begins, found, rfl, firstRow_truth.mp hrow⟩

private theorem insertUser_eq {isFirst : Bool} :
    (trySend (insertUser email name passwordHash) >>= fun
      | .error e => fail (insertFailure e)
      | .ok reply => do
        let id ← ofDb (firstRow (fun row => column Value.text? row 0) reply)
        return (⟨id, isFirst⟩ : CreatedUser)) =
      (send (insertUser email name passwordHash) fun reply => done (insertedId reply)).bind
        fun id => done (.ok ⟨id, isFirst⟩) :=
  congrArg (send _) (funext fun reply => by cases reply <;> rfl)

/-- Within its transaction a user is created step by step. -/
private theorem advances_body {r : Except AuthError CreatedUser}
    (h : Script.Sends (do
      perform lockUsers
      let isFirst ← fetchOne truth noUsers
      match ← trySend (insertUser email name passwordHash) with
      | .error e => fail (insertFailure e)
      | .ok reply =>
        let id ← ofDb (firstRow (fun row => column Value.text? row 0) reply)
        return ⟨id, isFirst⟩) sent r) :
    Advances [lockUsers, noUsers, insertUser email name passwordHash] sent (failure? r) ∧
      ∀ user, r = .ok user → ReadFrom user sent := by
  rw [perform_eq] at h
  obtain ⟨locked, ⟨e, hlock, rfl, rfl⟩ | ⟨_, rest, hlock, rfl, hrest⟩⟩ := sends_step h
  · cases locked with
    | ok _ => cases hlock
    | error d =>
      obtain rfl : .db d = e := Except.error.inj hlock
      exact ⟨.stop (fails_of_error (by decide) d), readFrom_of_error⟩
  have hlocked : Sent.Serves ⟨lockUsers, locked⟩ := by
    cases locked with
    | error d => cases hlock
    | ok reply => exact serves_of_ok (by decide) (by decide)
  rw [fetchOne_eq] at hrest
  obtain ⟨looked, ⟨e, hlook, rfl, rfl⟩ | ⟨isFirst, rest, hlook, rfl, hinsert⟩⟩ := sends_step hrest
  · exact ⟨.next hlocked (.stop (fails_of_truth hlook)), readFrom_of_error⟩
  have hfirst := yields_of_truth hlook
  have hlooked : Sent.Serves ⟨noUsers, looked⟩ :=
    ⟨hfirst.succeeds, fun _ => ⟨isFirst, hfirst⟩, fun hb => absurd hb noUsers_not_insert⟩
  rw [insertUser_eq] at hinsert
  obtain ⟨inserted, ⟨e, hid, rfl, rfl⟩ | ⟨id, rest, hid, rfl, hdone⟩⟩ := sends_step hinsert
  · exact ⟨.next hlocked (.next hlooked (.stop (fails_of_insertedId hid))), readFrom_of_error⟩
  have hyields : Sent.Yields ⟨insertUser email name passwordHash, inserted⟩ "INSERT " (.text id) :=
    yields_of_insertedId hid
  have hinserted : Sent.Serves ⟨insertUser email name passwordHash, inserted⟩ :=
    ⟨hyields.succeeds, fun hb => absurd hb insertUser_not_look, fun _ => ⟨id, hyields⟩⟩
  cases hdone
  refine ⟨.next hlocked (.next hlooked (.next hinserted .done)), ?_⟩
  rintro user hr
  cases hr
  exact ⟨⟨_, by simp, hfirst⟩, ⟨_, by simp, hyields⟩⟩

def Accepted (statement : Statement) (sent : List Sent) : Prop :=
  ∃ x ∈ sent, x.statement = statement ∧ x.Succeeds

theorem accepted_append {statement : Statement} :
    Accepted statement (xs ++ ys) ↔ Accepted statement xs ∨ Accepted statement ys := by
  simp only [Accepted, List.mem_append, or_and_right, exists_or]

/-- How the creation of a user goes: the statements that are tried, those that undo them, and the
result. -/
structure Transacted (email : String) (name : Option String) (passwordHash : String)
    (tried undone : List Sent) (r : Except AuthError CreatedUser) : Prop where
  in_order : tried.map Sent.statement <+: creation email name passwordHash
  begun : tried ≠ []
  onward : ∀ n, n + 1 < (creation email name passwordHash).length →
    (n + 1 < tried.length ↔ ∃ x, tried[n]? = some x ∧ x.Serves)
  rolled_back : (∃ reply, undone = [⟨rollback, reply⟩]) ∧ Accepted begin tried ∧
    ¬ Accepted commit tried ∨ undone = [] ∧ (Accepted begin tried → Accepted commit tried)
  created_iff : (∃ user, r = .ok user) ↔
    tried.map Sent.statement = creation email name passwordHash ∧ ∀ x ∈ tried, x.Serves
  created : ∀ user, r = .ok user → ReadFrom user tried
  taken_iff : r = .error (.validation .emailTaken) ↔ ∃ x ∈ tried, x.Taken
  otherwise : (∀ user, r ≠ .ok user) → r ≠ .error (.validation .emailTaken) → ∃ e, r = .error (.db e)

theorem failure?_eq_none {r : Except AuthError α} : failure? r = none ↔ ∃ a, r = .ok a := by
  cases r <;> simp [failure?]

theorem failure?_eq_some {r : Except AuthError α} {e : AuthError} :
    failure? r = some e ↔ r = .error e := by
  cases r <;> simp [failure?]

variable {tried undone : List Sent} {r : Except AuthError CreatedUser}

private theorem transacted_of_advances
    (h : Advances (creation email name passwordHash) tried (failure? r))
    (hundone : (∃ reply, undone = [⟨rollback, reply⟩]) ∧ Accepted begin tried ∧
      ¬ Accepted commit tried ∨ undone = [] ∧ (Accepted begin tried → Accepted commit tried))
    (hcreated : ∀ user, r = .ok user → ReadFrom user tried) :
    Transacted email name passwordHash tried undone r where
  in_order := h.prefix_plan
  begun := h.ne_nil (List.cons_ne_nil _ _)
  onward _ hn := h.onward hn
  rolled_back := hundone
  created_iff := failure?_eq_none.symm.trans h.eq_none_iff
  created := hcreated
  taken_iff := failure?_eq_some.symm.trans h.taken_iff
  otherwise hok htaken := by
    rcases h.cases with hnone | hsome | ⟨e, hsome⟩
    · obtain ⟨user, hr⟩ := failure?_eq_none.mp hnone
      exact absurd hr (hok user)
    · exact absurd (failure?_eq_some.mp hsome) htaken
    · exact ⟨e, failure?_eq_some.mp hsome⟩

theorem ReadFrom.mono {user : CreatedUser} (h : ReadFrom user xs) (hsub : ∀ x ∈ xs, x ∈ ys) :
    ReadFrom user ys := by
  obtain ⟨⟨x, hx, hlook⟩, y, hy, hinsert⟩ := h
  exact ⟨⟨x, hsub x hx, hlook⟩, y, hsub y hy, hinsert⟩

/-- The statements inside the transaction do not commit it. -/
private theorem not_accepted_commit {failure : Option AuthError}
    (h : Advances [lockUsers, noUsers, insertUser email name passwordHash] xs failure) :
    ¬ Accepted commit xs := by
  rintro ⟨x, hx, hcommit, -⟩
  have hmem := h.prefix_plan.subset (List.mem_map_of_mem hx)
  rw [hcommit] at hmem
  simp [commit, lockUsers, noUsers, insertUser] at hmem

theorem transacted_createUser (h : (createUser email name passwordHash).Sends sent r) :
    ∃ tried undone, sent = tried ++ undone ∧ Transacted email name passwordHash tried undone r := by
  have hbegin (reply : Reply) : Sent.Serves ⟨begin, .ok reply⟩ :=
    serves_of_ok (by decide) (by decide)
  rcases sends_transaction h with ⟨e, rfl, rfl⟩ | ⟨reply, xs, ys, r₀, rfl, hbody, hclose⟩
  · refine ⟨[⟨begin, .error e⟩], [], rfl, transacted_of_advances
      (.stop (fails_of_error (by decide) e)) (.inr ⟨rfl, ?_⟩) readFrom_of_error⟩
    simp [Accepted, Sent.Succeeds]
  obtain ⟨hadvances, hread⟩ := advances_body hbody
  have hopened : Accepted begin (⟨begin, .ok reply⟩ :: xs) :=
    ⟨_, List.mem_cons_self, rfl, reply, rfl⟩
  have hopen : ¬ Accepted commit (⟨begin, .ok reply⟩ :: xs) := by
    have := not_accepted_commit hadvances
    simpa [Accepted, begin, commit] using this
  cases hclose with
  | undone e closed =>
    exact ⟨_, _, rfl, transacted_of_advances (.next (hbegin reply) (hadvances.append_of_some [commit]))
      (.inl ⟨⟨closed, rfl⟩, hopened, hopen⟩) readFrom_of_error⟩
  | lost user e closed =>
    refine ⟨⟨begin, .ok reply⟩ :: xs ++ [⟨commit, .error e⟩], [⟨rollback, closed⟩], by simp,
      transacted_of_advances ?_ (.inl ⟨⟨closed, rfl⟩, ?_, ?_⟩) readFrom_of_error⟩
    · exact .next (hbegin reply) (hadvances.append (.stop (fails_of_error (by decide) e)))
    · exact accepted_append.mpr (.inl hopened)
    · rw [accepted_append]
      rintro (hcommit | ⟨x, hx, -, kept, hkept⟩)
      · exact hopen hcommit
      · obtain rfl := List.mem_singleton.mp hx
        cases hkept
  | kept user closed =>
    refine ⟨⟨begin, .ok reply⟩ :: xs ++ [⟨commit, .ok closed⟩], [], (List.append_nil _).symm,
      transacted_of_advances ?_ (.inr ⟨rfl, fun _ => ?_⟩) fun other hother => ?_⟩
    · have hcommit : Sent.Serves ⟨commit, .ok closed⟩ := serves_of_ok (by decide) (by decide)
      exact .next (hbegin reply) (hadvances.append (.next hcommit .done))
    · exact accepted_append.mpr (.inr ⟨_, List.mem_cons_self, rfl, closed, rfl⟩)
    · exact (hread other hother).mono fun x hx => by simp [hx]

/-- The creation of a user is one transaction, whatever the database replies. Its statements are sent
in their order, each if the one before it has served, and they are undone just if the transaction was
begun and not committed. A user is created if all of them have served, with what the replies hold; an
email is reported as taken if the insertion was refused for a second row, and every other failure is one
of the database. -/
theorem one_transaction (database : Statement → σ → Except DbError Reply × σ) (now : Nanos)
    (email : String) (name : Option String) (passwordHash : String) (d : Recorded σ) :
    ∃ tried undone,
      (model (recorded database) now (.createUser email name passwordHash) d).2.sent =
        d.sent ++ (tried ++ undone) ∧
      Transacted email name passwordHash tried undone
        (model (recorded database) now (.createUser email name passwordHash) d).1 ∧
      Invalid.emailTaken.message = "Email already registered" := by
  obtain ⟨sent, hsends, hsent⟩ := (createUser email name passwordHash).exists_sends database d
  obtain ⟨tried, undone, rfl, htransacted⟩ := transacted_createUser hsends
  exact ⟨tried, undone, hsent, htransacted, rfl⟩

end Turnstile.Postgres
