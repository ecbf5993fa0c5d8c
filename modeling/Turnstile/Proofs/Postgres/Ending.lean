import Turnstile.Proofs.Postgres.Course
import Turnstile.Proofs.Postgres.Deadline

/-! How programs end over a database that takes no instant beyond the last one: with a result, or at a
call that gets no answer. -/

namespace Turnstile.Postgres

open Program

inductive Ending (α : Type) where
  | result (r : Except AuthError α)
  | unanswered (c : Call)

variable {σ α : Type} {database : Statement → σ → Except DbError Reply × σ} {entropy : Nat → Draw}

/-- A program run over a database to its end. The clock may move forward before every step. -/
inductive Ends (database : Statement → σ → Except DbError Reply × σ) (entropy : Nat → Draw) :
    Program α → World σ → Ending α → World σ → Prop
  | done (r : Except AuthError α) (w : World σ) : Ends database entropy (done r) w (.result r) w
  | wait {p : Program α} {w w' : World σ} {o : Ending α} {t : Nanos} : w.clock ≤ t →
    Ends database entropy p (w.atTime t) o w' → Ends database entropy p w o w'
  | clock {next : Nanos → Program α} {w w' : World σ} {o : Ending α} :
    Ends database entropy (next w.clock) w o w' → Ends database entropy (clock next) w o w'
  | draw {next : Draw → Program α} {w w' : World σ} {o : Ending α} :
    Ends database entropy (next (entropy w.drawn)) { w with drawn := w.drawn + 1 } o w' →
    Ends database entropy (draw next) w o w'
  | call {c : Call} {next : Except AuthError c.Answer → Program α} {w w₁ w' : World σ}
      {a : Except AuthError c.Answer} {o : Ending α} :
    (host database entropy).answer c w = (some a, w₁) →
    Ends database entropy (next a) w₁ o w' → Ends database entropy (call c next) w o w'
  | unanswered {c : Call} (next : Except AuthError c.Answer → Program α) {w w₁ : World σ} :
    (host database entropy).answer c w = (none, w₁) →
    Ends database entropy (call c next) w (.unanswered c) w₁

theorem exists_ends (database : Statement → σ → Except DbError Reply × σ) (entropy : Nat → Draw)
    (p : Program α) (w : World σ) : ∃ o w', Ends database entropy p w o w' := by
  induction p generalizing w with
  | done r => exact ⟨_, w, .done r w⟩
  | clock next ih =>
    obtain ⟨o, w', h⟩ := ih w.clock w
    exact ⟨o, w', .clock h⟩
  | draw next ih =>
    obtain ⟨o, w', h⟩ := ih (entropy w.drawn) { w with drawn := w.drawn + 1 }
    exact ⟨o, w', .draw h⟩
  | call c next ih =>
    rcases ha : (host database entropy).answer c w with ⟨_ | a, w₁⟩
    · exact ⟨_, w₁, .unanswered next ha⟩
    · obtain ⟨o, w', h⟩ := ih a w₁
      exact ⟨o, w', .call ha h⟩

theorem ends_of_run {p : Program α} {w w' : World σ} {r : Except AuthError α}
    (h : p.run (host database entropy) w = (some r, w')) :
    Ends database entropy p w (.result r) w' := by
  induction p generalizing w with
  | done r₀ =>
    obtain ⟨hr, rfl⟩ := Prod.mk.inj h
    obtain rfl := Option.some.inj hr
    exact .done _ _
  | clock next ih => exact .clock (ih _ h)
  | draw next ih => exact .draw (ih _ h)
  | call c next ih =>
    rcases ha : (host database entropy).answer c w with ⟨_ | a, w₁⟩
    · simp [Program.run, ha] at h
    · exact .call ha (ih a (by simpa [Program.run, ha] using h))

private theorem run_of_run? {x : Script α} {r : Except AuthError α} {s s' : σ}
    (h : host.run? database x s = (some r, s')) : model.run database x s = (r, s') := by
  induction x generalizing s with
  | done r₀ =>
    obtain ⟨hr, rfl⟩ := Prod.mk.inj h
    exact Prod.ext (Option.some.inj hr) rfl
  | send statement next ih =>
    rw [host.run?] at h
    split_ifs at h
    · exact ih _ h
    · cases h

private theorem step_of_answer {c : Call} {next : Except AuthError c.Answer → Program α}
    {w w₁ : World (Recorded σ)} {a : Except AuthError c.Answer}
    (h : (host (recorded database) entropy).answer c w = (some a, w₁)) :
    Step (setting database entropy) (.call c next) w (some ⟨c, a⟩) (next a) w₁ := by
  obtain ⟨hr, rfl⟩ := Prod.mk.inj h
  have hmodel : (setting database entropy).model w.clock c w.store = _ :=
    run_of_run? (Prod.ext hr rfl)
  have hstep := Step.call (S := setting database entropy) c next w
  rwa [hmodel] at hstep

/-- A script with one statement that may be beyond the last instant, and others that are not, gets no
answer only if that one cannot be sent. -/
private theorem run?_eq_none {statement : Statement} {next : Except DbError Reply → Script α}
    {s s' : σ} (hnext : ∀ reply, (next reply).Sendable)
    (h : host.run? database (.send statement next) s = (none, s')) : s' = s := by
  rw [host.run?] at h
  split_ifs at h with hsend
  · have hanswered :=
      run?_of_sendable database (hnext (database statement s).1) (database statement s).2
    cases hanswered.symm.trans h
  · exact (Prod.mk.inj h).2.symm

/-- A call that gets no answer would have stored an instant beyond the last one. Nothing is sent
for it. -/
theorem unanswered {c : Call} {w w₁ : World σ}
    (h : (host database entropy).answer c w = (none, w₁)) :
    w₁ = w ∧ (∃ t ∈ instants w.clock c, lastInstant < t) ∧
      ∃ statement next, script w.clock c = .send statement next ∧ statement.Begins "INSERT " := by
  have hbeyond : ∃ t ∈ instants w.clock c, lastInstant < t := by
    by_contra hgood
    rw [host_answer_eq c w fun t ht => Int.not_lt.mp fun hlt => hgood ⟨t, ht, hlt⟩] at h
    cases h
  obtain ⟨statement, next, hscript, hbegins, hnext⟩ :
      ∃ statement next, script w.clock c = .send statement next ∧ statement.Begins "INSERT " ∧
        ∀ reply, (next reply).Sendable := by
    cases c with
    | upsert record =>
      exact ⟨_, _, Script.perform_eq,
        begins_mk (begins_append (begins_append (begins_append (by decide) _) _) _) _, fun _ => .done _⟩
    | revoke key ttl =>
      obtain ⟨t, ht, -⟩ := hbeyond
      simp only [instants] at ht
      split_ifs at ht with hsent
      · cases ht
      · rw [not_or] at hsent
        have hscript : script w.clock (.revoke key ttl) = _ :=
          (if_neg hsent.1).trans (if_neg hsent.2)
        rw [Script.bind_eq, Script.perform_eq, Script.bind] at hscript
        exact ⟨_, _, hscript, begins_mk (begins_append (by decide) _) _,
          fun _ => Script.Sendable.bind (.done _) fun _ => Script.sendable_perform rfl⟩
    | _ => simp [instants] at hbeyond
  obtain ⟨hnone, rfl⟩ := Prod.mk.inj h
  have hrun : host.run? database (script w.clock c) w.store = (none, _) := Prod.ext hnone rfl
  rw [hscript] at hrun ⊢
  exact ⟨congrArg (World.mk · w.clock w.drawn) (run?_eq_none hnext hrun), hbeyond, statement, next,
    rfl, hbegins⟩

variable {p : Program α} {w w' : World (Recorded σ)}

/-- A program that comes to a result does so as if every instant could be stored. -/
theorem Ends.runs {r : Except AuthError α}
    (h : Ends (recorded database) entropy p w (.result r) w') :
    Runs (setting database entropy) p w r w' := by
  generalize ho : Ending.result r = o at h
  induction h with
  | done r₀ w =>
    cases ho
    exact .done _ _
  | wait ht _ ih => exact .wait ht (ih ho)
  | clock _ ih => exact .step (.clock _ _) (ih ho)
  | draw _ ih => exact .step (.draw _ _) (ih ho)
  | call ha _ ih => exact .step (step_of_answer ha) (ih ho)
  | unanswered next _ => cases ho

/-- A program that ends without an answer has come to a call that gets none. -/
private theorem Ends.proceeds {c : Call} (h : Ends (recorded database) entropy p w (.unanswered c) w') :
    ∃ next w₁, Proceeds (setting database entropy) p w (.call c next) w₁ ∧
      (host (recorded database) entropy).answer c w₁ = (none, w') := by
  generalize ho : Ending.unanswered c = o at h
  induction h with
  | done => cases ho
  | wait ht _ ih =>
    obtain ⟨next, w₁, hproceeds, hnone⟩ := ih ho
    exact ⟨next, w₁, .wait ht hproceeds, hnone⟩
  | clock _ ih =>
    obtain ⟨next, w₁, hproceeds, hnone⟩ := ih ho
    exact ⟨next, w₁, .step (.clock _ _) hproceeds, hnone⟩
  | draw _ ih =>
    obtain ⟨next, w₁, hproceeds, hnone⟩ := ih ho
    exact ⟨next, w₁, .step (.draw _ _) hproceeds, hnone⟩
  | call ha _ ih =>
    obtain ⟨next, w₁, hproceeds, hnone⟩ := ih ho
    exact ⟨next, w₁, .step (step_of_answer ha) hproceeds, hnone⟩
  | unanswered next hnone =>
    cases ho
    exact ⟨next, _, .start _ _, hnone⟩

/-- A program that ends without an answer would have gone on, if every instant could be stored, to
insert one that is beyond the last. -/
theorem Ends.exists_runs {c : Call}
    (h : Ends (recorded database) entropy p w (.unanswered c) w') :
    (∃ t ∈ instants w'.clock c, lastInstant < t) ∧
      ∃ r w'' x rest, Runs (setting database entropy) p w r w'' ∧ w''.clock = w'.clock ∧
        w''.store.sent = w'.store.sent ++ x :: rest ∧ x.statement.Begins "INSERT " := by
  obtain ⟨next, w₁, hproceeds, hnone⟩ := h.proceeds
  obtain ⟨rfl, hbeyond, statement, f, hscript, hbegins⟩ := Postgres.unanswered hnone
  let answered := model (recorded database) w'.clock c w'.store
  obtain ⟨r, w'', hrun⟩ :=
    exists_run (model (recorded database)) entropy (next answered.1) { w' with store := answered.2 }
  obtain ⟨ys, htalks⟩ := exists_talks (runs_of_run hrun)
  obtain ⟨xs, hsends, hxs⟩ := (script w'.clock c).exists_sends database w'.store
  rw [hscript] at hsends
  obtain ⟨reply, zs, rfl⟩ : ∃ reply zs, xs = ⟨statement, reply⟩ :: zs := by
    cases hsends with
    | send _ => exact ⟨_, _, rfl⟩
  have hgoes : Runs (setting database entropy) (.call c next) w' r w'' :=
    .step (.call c next w') htalks.runs
  have hclock := clock_of_run hrun
  refine ⟨hbeyond, r, w'', ⟨statement, reply⟩, zs ++ ys, hproceeds.runs hgoes, hclock, ?_, hbegins⟩
  rw [htalks.appended]
  exact (congrArg (· ++ ys) hxs).trans (by simp)

end Turnstile.Postgres
