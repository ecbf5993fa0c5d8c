import Turnstile.Proofs.Execution
import Turnstile.Proofs.Postgres.Script

/-! What programs send to a database, statement by statement, with the replies they get. Nothing is
assumed about these: every reply to a statement is possible. -/

namespace Turnstile.Postgres

open Program

structure Sent where
  statement : Statement
  reply : Except DbError Reply

/-- A database with a record of what was sent to it, the first statement first. -/
structure Recorded (σ : Type) where
  state : σ
  sent : List Sent := []

def recorded {σ : Type} (database : Statement → σ → Except DbError Reply × σ)
    (statement : Statement) (d : Recorded σ) : Except DbError Reply × Recorded σ :=
  let (reply, state) := database statement d.state
  (reply, ⟨state, d.sent ++ [⟨statement, reply⟩]⟩)

variable {σ α β : Type} {database : Statement → σ → Except DbError Reply × σ}

/-- A script that sends some statements, gets these replies, and ends with a result. -/
inductive Script.Sends : Script α → List Sent → Except AuthError α → Prop
  | done (r : Except AuthError α) : Sends (.done r) [] r
  | send {statement : Statement} {next : Except DbError Reply → Script α}
      {reply : Except DbError Reply} {sent : List Sent} {r : Except AuthError α} :
    Sends (next reply) sent r → Sends (.send statement next) (⟨statement, reply⟩ :: sent) r

namespace Script

variable {statement : Statement} {sent : List Sent}

theorem exists_sends (database : Statement → σ → Except DbError Reply × σ) (x : Script α)
    (d : Recorded σ) :
    ∃ sent, x.Sends sent (model.run (recorded database) x d).1 ∧
      (model.run (recorded database) x d).2.sent = d.sent ++ sent := by
  induction x generalizing d with
  | done r => exact ⟨[], .done r, (List.append_nil _).symm⟩
  | send statement next ih =>
    obtain ⟨sent, hsends, happended⟩ := ih _ (recorded database statement d).2
    exact ⟨_, .send hsends, happended.trans (by simp [recorded])⟩

/-- A script of one statement. -/
theorem sends_once {f : Except DbError Reply → Except AuthError α} {r : Except AuthError α}
    (h : (send statement fun reply => done (f reply)).Sends sent r) :
    ∃ reply, sent = [⟨statement, reply⟩] ∧ r = f reply := by
  cases h with
  | send h =>
    cases h
    exact ⟨_, rfl, rfl⟩

/-- A sequence sends what its first part sends, and goes on only if that succeeds. -/
theorem sends_bind {x : Script α} {f : α → Script β} {r : Except AuthError β}
    (h : (x.bind f).Sends sent r) :
    (∃ a xs ys, sent = xs ++ ys ∧ x.Sends xs (.ok a) ∧ (f a).Sends ys r) ∨
      ∃ e, r = .error e ∧ x.Sends sent (.error e) := by
  induction x generalizing sent with
  | done r₀ =>
    cases r₀ with
    | ok a => exact .inl ⟨a, [], sent, rfl, .done _, h⟩
    | error e =>
      cases h
      exact .inr ⟨e, rfl, .done _⟩
  | send statement next ih =>
    cases h with
    | send h =>
      rcases ih _ h with ⟨a, xs, ys, rfl, hx, hf⟩ | ⟨e, he, hx⟩
      · exact .inl ⟨a, _, ys, rfl, .send hx, hf⟩
      · exact .inr ⟨e, he, .send hx⟩

end Script

variable {entropy : Nat → Draw} {p : Program α} {w w' : World (Recorded σ)} {sent : List Sent}
  {r : Except AuthError α}

/-- Programs over a database that keeps a record, where no call is lost. -/
abbrev setting (database : Statement → σ → Except DbError Reply × σ) (entropy : Nat → Draw) :
    Setting (Recorded σ) :=
  ⟨model (recorded database), entropy, fun _ _ => False⟩

/-- A program run to its result, with what it sends to the database. -/
structure Talks (database : Statement → σ → Except DbError Reply × σ) (entropy : Nat → Draw)
    (p : Program α) (w : World (Recorded σ)) (sent : List Sent) (r : Except AuthError α)
    (w' : World (Recorded σ)) : Prop where
  runs : Runs (setting database entropy) p w r w'
  appended : w'.store.sent = w.store.sent ++ sent

theorem exists_talks (h : Runs (setting database entropy) p w r w') :
    ∃ sent, Talks database entropy p w sent r w' := by
  suffices ∃ sent, w'.store.sent = w.store.sent ++ sent by
    obtain ⟨sent, hsent⟩ := this
    exact ⟨sent, h, hsent⟩
  induction h with
  | done => exact ⟨[], (List.append_nil _).symm⟩
  | wait _ _ ih => exact ih
  | step hs _ ih =>
    obtain ⟨ys, hys⟩ := ih
    cases hs with
    | clock => exact ⟨ys, hys⟩
    | draw => exact ⟨ys, hys⟩
    | call c next =>
      obtain ⟨xs, -, hxs⟩ := (script _ c).exists_sends database _
      exact ⟨xs ++ ys, by rw [hys, ← List.append_assoc]; exact congrArg (· ++ ys) hxs⟩
    | lost _ _ _ hlost => exact hlost.elim

namespace Talks

theorem clock_le (h : Talks database entropy p w sent r w') : w.clock ≤ w'.clock :=
  h.runs.clock_le

theorem of_done {r₀ : Except AuthError α} (h : Talks database entropy (.done r₀) w sent r w') :
    sent = [] ∧ r = r₀ := by
  obtain ⟨hr, hw⟩ := runs_done h.runs
  have hsent : w.store.sent = w.store.sent ++ sent := by
    rw [← h.appended, hw]
    rfl
  exact ⟨List.self_eq_append_right.mp hsent, hr⟩

/-- What two runs send that follow each other is sent by the first and then by the second. -/
private theorem exists_split {q : Program β} {w₁ : World (Recorded σ)} {r' : Except AuthError β}
    (hp : Runs (setting database entropy) p w r w₁) (hq : Runs (setting database entropy) q w₁ r' w')
    (happended : w'.store.sent = w.store.sent ++ sent) :
    ∃ xs ys, sent = xs ++ ys ∧ Talks database entropy p w xs r w₁ ∧
      Talks database entropy q w₁ ys r' w' := by
  obtain ⟨xs, hp⟩ := exists_talks hp
  obtain ⟨ys, hq⟩ := exists_talks hq
  have hsent : w.store.sent ++ sent = w.store.sent ++ (xs ++ ys) := by
    rw [← happended, hq.appended, hp.appended, List.append_assoc]
  exact ⟨xs, ys, List.append_cancel_left hsent, hp, hq⟩

theorem of_bind {f : α → Program β} {r : Except AuthError β}
    (h : Talks database entropy (p.bind f) w sent r w') :
    (∃ a w₁ xs ys, sent = xs ++ ys ∧ Talks database entropy p w xs (.ok a) w₁ ∧
      Talks database entropy (f a) w₁ ys r w') ∨
      ∃ e, r = .error e ∧ Talks database entropy p w sent (.error e) w' := by
  rcases runs_bind h.runs with ⟨a, w₁, hp, hf⟩ | ⟨e, he, hp⟩
  · obtain ⟨xs, ys, hsent, hp, hf⟩ := exists_split hp hf h.appended
    exact .inl ⟨a, w₁, xs, ys, hsent, hp, hf⟩
  · exact .inr ⟨e, he, hp, h.appended⟩

theorem of_clock {next : Nanos → Program α} (h : Talks database entropy (.clock next) w sent r w') :
    ∃ t, w.clock ≤ t ∧ Talks database entropy (next t) (w.atTime t) sent r w' := by
  obtain ⟨t, ht, hr⟩ := runs_clock h.runs
  exact ⟨t, ht, hr, h.appended⟩

theorem of_draw {next : Draw → Program α} (h : Talks database entropy (.draw next) w sent r w') :
    ∃ d w₁, w.clock ≤ w₁.clock ∧ Talks database entropy (next d) w₁ sent r w' := by
  obtain ⟨t, ht, hr⟩ := runs_draw h.runs
  exact ⟨_, _, ht, hr, h.appended⟩

/-- A call sends the statements of its script at one instant. -/
theorem of_call {c : Call} {next : Except AuthError c.Answer → Program α}
    (h : Talks database entropy (.call c next) w sent r w') :
    ∃ xs ys answer w₁, w.clock ≤ w₁.clock ∧ sent = xs ++ ys ∧
      (script w₁.clock c).Sends xs answer ∧ Talks database entropy (next answer) w₁ ys r w' := by
  obtain ⟨t, ht, hr⟩ := runs_call_of_reliable (fun _ _ h => h) h.runs
  obtain ⟨xs, hsends, hxs⟩ := (script t c).exists_sends database w.store
  obtain ⟨ys, hnext⟩ := exists_talks hr
  have hsent : w.store.sent ++ sent = w.store.sent ++ (xs ++ ys) := by
    rw [← h.appended, hnext.appended, ← List.append_assoc]
    exact congrArg (· ++ ys) hxs
  exact ⟨xs, ys, _, _, ht, List.append_cancel_left hsent, hsends, hnext⟩

/-- A program that asks a store goes on with the answer, or fails for want of one. -/
theorem of_ask {c : Call} {f : c.Answer → Program α}
    (h : Talks database entropy (ask c >>= f) w sent r w') :
    (∃ a xs ys w₁, w.clock ≤ w₁.clock ∧ sent = xs ++ ys ∧ (script w₁.clock c).Sends xs (.ok a) ∧
      Talks database entropy (f a) w₁ ys r w') ∨
      ∃ e t, r = .error e ∧ (script t c).Sends sent (.error e) := by
  obtain ⟨xs, ys, answer, w₁, ht, hsent, hsends, hnext⟩ := h.of_call
  cases answer with
  | ok a => exact .inl ⟨a, xs, ys, w₁, ht, hsent, hsends, hnext⟩
  | error e =>
    obtain ⟨rfl, hr⟩ := hnext.of_done
    exact .inr ⟨e, w₁.clock, hr, by rwa [hsent, List.append_nil]⟩

/-- What comes after a program whose failure is caught always runs. -/
theorem of_attempt_bind {f : Except AuthError α → Program β} {r : Except AuthError β}
    (h : Talks database entropy (p.attempt >>= f) w sent r w') :
    ∃ r₀ w₁ xs ys, sent = xs ++ ys ∧ Talks database entropy p w xs r₀ w₁ ∧
      Talks database entropy (f r₀) w₁ ys r w' := by
  obtain ⟨zs, htraced⟩ := h.runs.exists_traced
  obtain ⟨r₀, w₁, _, _, _, hp, hf⟩ := traced_attempt_bind htraced
  obtain ⟨xs, ys, hsent, hp, hf⟩ := exists_split hp.runs hf.runs h.appended
  exact ⟨r₀, w₁, xs, ys, hsent, hp, hf⟩

end Talks

end Turnstile.Postgres
