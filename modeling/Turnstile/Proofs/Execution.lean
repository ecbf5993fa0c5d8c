import Turnstile.Store.Program

/-! How programs proceed over a store: one step at a time, with time passing between the steps.
`Runs` covers every way to get from a program to its result, and `Traced` tells which calls were made
on the way. -/

namespace Turnstile

/-- What a program runs in: the store, the random bytes, and the failures that may come in place of
an answer. A call that fails never reaches the store. -/
structure Setting (σ : Type) where
  model : StoreModel σ
  entropy : Nat → Draw
  mayFail : Call → AuthError → Prop := fun _ _ => False

def Setting.Reliable {σ : Type} (S : Setting σ) : Prop :=
  ∀ c e, ¬ S.mayFail c e

namespace World

variable {σ : Type}

def atTime (w : World σ) (t : Nanos) : World σ :=
  { w with clock := t }

@[simp] theorem atTime_store (w : World σ) (t : Nanos) : (w.atTime t).store = w.store := rfl

@[simp] theorem atTime_drawn (w : World σ) (t : Nanos) : (w.atTime t).drawn = w.drawn := rfl

@[simp] theorem atTime_clock (w : World σ) (t : Nanos) : (w.atTime t).clock = t := rfl

@[simp] theorem atTime_atTime (w : World σ) (t u : Nanos) :
    (w.atTime t).atTime u = w.atTime u := rfl

@[simp] theorem atTime_self (w : World σ) : w.atTime w.clock = w := rfl

end World

structure Exchange where
  call : Call
  answer : Except AuthError call.Answer

namespace Program

variable {σ α β : Type}

/-- One step of a program, with the call it makes and the answer it gets. -/
inductive Step (S : Setting σ) :
    Program α → World σ → Option Exchange → Program α → World σ → Prop
  | clock (next : Nanos → Program α) (w : World σ) : Step S (clock next) w none (next w.clock) w
  | draw (next : Draw → Program α) (w : World σ) :
    Step S (draw next) w none (next (S.entropy w.drawn)) { w with drawn := w.drawn + 1 }
  | call (c : Call) (next : Except AuthError c.Answer → Program α) (w : World σ) :
    Step S (call c next) w (some ⟨c, (S.model w.clock c w.store).1⟩)
      (next (S.model w.clock c w.store).1) { w with store := (S.model w.clock c w.store).2 }
  | lost (c : Call) (next : Except AuthError c.Answer → Program α) (w : World σ) {e : AuthError} :
    S.mayFail c e → Step S (call c next) w (some ⟨c, .error e⟩) (next (.error e)) w

/-- A program run to its result. The clock may move forward before every step. -/
inductive Runs (S : Setting σ) : Program α → World σ → Except AuthError α → World σ → Prop
  | done (r : Except AuthError α) (w : World σ) : Runs S (done r) w r w
  | wait {p : Program α} {w w' : World σ} {r : Except AuthError α} {t : Nanos} :
    w.clock ≤ t → Runs S p (w.atTime t) r w' → Runs S p w r w'
  | step {p p' : Program α} {w w₁ w' : World σ} {x : Option Exchange} {r : Except AuthError α} :
    Step S p w x p' w₁ → Runs S p' w₁ r w' → Runs S p w r w'

/-- The beginning of a run, which can be cut off anywhere. -/
inductive Proceeds (S : Setting σ) : Program α → World σ → Program α → World σ → Prop
  | start (p : Program α) (w : World σ) : Proceeds S p w p w
  | wait {p q : Program α} {w w' : World σ} {t : Nanos} :
    w.clock ≤ t → Proceeds S p (w.atTime t) q w' → Proceeds S p w q w'
  | step {p p' q : Program α} {w w₁ w' : World σ} {x : Option Exchange} :
    Step S p w x p' w₁ → Proceeds S p' w₁ q w' → Proceeds S p w q w'

/-- A program run to its result, with the calls it made and their answers, the first one first. -/
inductive Traced (S : Setting σ) :
    Program α → World σ → List Exchange → Except AuthError α → World σ → Prop
  | done (r : Except AuthError α) (w : World σ) : Traced S (done r) w [] r w
  | wait {p : Program α} {w w' : World σ} {xs : List Exchange} {r : Except AuthError α}
      {t : Nanos} :
    w.clock ≤ t → Traced S p (w.atTime t) xs r w' → Traced S p w xs r w'
  | step {p p' : Program α} {w w₁ w' : World σ} {x : Option Exchange} {xs : List Exchange}
      {r : Except AuthError α} :
    Step S p w x p' w₁ → Traced S p' w₁ xs r w' → Traced S p w (x.toList ++ xs) r w'

theorem bind_eq (p : Program α) (f : α → Program β) : p >>= f = p.bind f := rfl

@[simp] theorem done_ok_bind (a : α) (f : α → Program β) : (done (.ok a)).bind f = f a := rfl

@[simp] theorem done_error_bind (e : AuthError) (f : α → Program β) :
    (done (.error e) : Program α).bind f = done (.error e) := rfl

@[simp] theorem fail_eq (e : AuthError) : (fail e : Program α) = done (.error e) := rfl

@[simp] theorem pure_eq (a : α) : (pure a : Program α) = done (.ok a) := rfl

@[simp] theorem ofExcept_eq (r : Except AuthError α) : ofExcept r = done r := rfl

@[simp] theorem now_bind (f : Nanos → Program β) : now.bind f = clock f := rfl

@[simp] theorem fresh_bind (f : Draw → Program β) : fresh.bind f = draw f := rfl

@[simp] theorem ask_bind (c : Call) (f : c.Answer → Program β) :
    (ask c).bind f = call c fun r => (done r).bind f := rfl

@[simp] theorem clock_bind (next : Nanos → Program α) (f : α → Program β) :
    (clock next).bind f = clock fun t => (next t).bind f := rfl

@[simp] theorem call_bind (c : Call) (next : Except AuthError c.Answer → Program α)
    (f : α → Program β) : (call c next).bind f = call c fun r => (next r).bind f := rfl

@[simp] theorem bind_done (p : Program α) : p.bind (fun a => done (.ok a)) = p := by
  induction p with
  | done r => cases r <;> rfl
  | clock next ih => exact congrArg clock (funext ih)
  | draw next ih => exact congrArg draw (funext ih)
  | call c next ih => exact congrArg (call c) (funext ih)

protected theorem bind_assoc {γ : Type} (p : Program α) (f : α → Program β) (g : β → Program γ) :
    (p.bind f).bind g = p.bind fun a => (f a).bind g := by
  induction p with
  | done r => cases r <;> rfl
  | clock next ih => exact congrArg clock (funext ih)
  | draw next ih => exact congrArg draw (funext ih)
  | call c next ih => exact congrArg (call c) (funext ih)

variable {S : Setting σ} {w w' : World σ}

theorem Step.clock_eq {p p' : Program α} {x : Option Exchange} (h : Step S p w x p' w') :
    w'.clock = w.clock := by
  cases h <;> rfl

theorem Step.bind {p p' : Program α} {x : Option Exchange} (h : Step S p w x p' w')
    (f : α → Program β) : Step S (p.bind f) w x (p'.bind f) w' := by
  cases h with
  | clock next => exact .clock _ w
  | draw next => exact .draw _ w
  | call c next => exact .call c _ w
  | lost c next _ hl => exact .lost c _ w hl

/-- A step of a sequence is a step of its first part, unless that part is done. -/
theorem Step.of_bind {p : Program α} {f : α → Program β} {q : Program β} {x : Option Exchange}
    (h : Step S (p.bind f) w x q w') :
    (∃ a, p = done (.ok a) ∧ Step S (f a) w x q w') ∨
      ∃ p', Step S p w x p' w' ∧ q = p'.bind f := by
  cases p with
  | done r =>
    cases r with
    | ok a => exact .inl ⟨a, rfl, h⟩
    | error e => cases h
  | clock next =>
    cases h
    exact .inr ⟨_, .clock next w, rfl⟩
  | draw next =>
    cases h
    exact .inr ⟨_, .draw next w, rfl⟩
  | call c next =>
    cases h with
    | call => exact .inr ⟨_, .call c next w, rfl⟩
    | lost _ _ _ hl => exact .inr ⟨_, .lost c next w hl, rfl⟩

theorem Traced.runs {p : Program α} {xs : List Exchange} {r : Except AuthError α}
    (h : Traced S p w xs r w') : Runs S p w r w' := by
  induction h with
  | done r w => exact .done r w
  | wait ht _ ih => exact .wait ht ih
  | step hs _ ih => exact .step hs ih

theorem Runs.exists_traced {p : Program α} {r : Except AuthError α} (h : Runs S p w r w') :
    ∃ xs, Traced S p w xs r w' := by
  induction h with
  | done r w => exact ⟨[], .done r w⟩
  | wait ht _ ih =>
    obtain ⟨xs, h⟩ := ih
    exact ⟨xs, .wait ht h⟩
  | step hs _ ih =>
    obtain ⟨xs, h⟩ := ih
    exact ⟨_, .step hs h⟩

theorem Runs.proceeds {p : Program α} {r : Except AuthError α} (h : Runs S p w r w') :
    Proceeds S p w (Program.done r) w' := by
  induction h with
  | done r w => exact .start _ w
  | wait ht _ ih => exact .wait ht ih
  | step hs _ ih => exact .step hs ih

theorem Proceeds.runs {p q : Program α} {w₁ : World σ} {r : Except AuthError α}
    (h : Proceeds S p w q w₁) (hr : Runs S q w₁ r w') : Runs S p w r w' := by
  induction h with
  | start => exact hr
  | wait ht _ ih => exact .wait ht (ih hr)
  | step hs _ ih => exact .step hs (ih hr)

theorem Proceeds.clock_le {p q : Program α} (h : Proceeds S p w q w') : w.clock ≤ w'.clock := by
  induction h with
  | start => exact Int.le_refl _
  | wait ht _ ih => exact Int.le_trans ht ih
  | step hs _ ih => exact hs.clock_eq ▸ ih

theorem traced_done {r₀ r : Except AuthError α} {xs : List Exchange}
    (h : Traced S (done r₀) w xs r w') : xs = [] ∧ r = r₀ ∧ w' = w.atTime w'.clock := by
  generalize hp : Program.done r₀ = p at h
  induction h with
  | done r w => exact ⟨rfl, (Program.done.inj hp).symm, rfl⟩
  | wait _ _ ih => exact ih hp
  | step hs => subst hp; cases hs

theorem Traced.bind {p : Program α} {f : α → Program β} {a : α} {w₁ : World σ}
    {ys zs : List Exchange} {r : Except AuthError β} (hp : Traced S p w ys (.ok a) w₁)
    (hf : Traced S (f a) w₁ zs r w') : Traced S (p.bind f) w (ys ++ zs) r w' := by
  generalize hr : Except.ok a = r₀ at hp
  induction hp with
  | done r w =>
    subst hr
    exact hf
  | wait ht _ ih => exact .wait ht (ih hf hr)
  | @step p _ _ _ _ x xs _ hs _ ih =>
    rw [List.append_assoc]
    exact .step (hs.bind f) (ih hf hr)

theorem Traced.bind_error {p : Program α} {f : α → Program β} {e : AuthError}
    {xs : List Exchange} (hp : Traced S p w xs (.error e) w') :
    Traced S (p.bind f) w xs (.error e) w' := by
  generalize hr : Except.error e = r at hp
  induction hp with
  | done r w =>
    subst hr
    exact .done _ w
  | wait ht _ ih => exact .wait ht (ih hr)
  | step hs _ ih => exact .step (hs.bind f) (ih hr)

theorem traced_ask {c : Call} {r : Except AuthError c.Answer} {s : σ}
    (h : S.model w.clock c w.store = (r, s)) :
    Traced S (ask c) w [⟨c, r⟩] r { w with store := s } := by
  have hs := Step.call (S := S) c done w
  rw [h] at hs
  exact .step hs (.done r _)

/-- A run of a sequence runs the first part to a value and the rest from there, or fails with the
first part. -/
theorem traced_bind {p : Program α} {f : α → Program β} {xs : List Exchange}
    {r : Except AuthError β} (h : Traced S (p.bind f) w xs r w') :
    (∃ a w₁ ys zs, xs = ys ++ zs ∧ Traced S p w ys (.ok a) w₁ ∧ Traced S (f a) w₁ zs r w') ∨
      ∃ e, r = .error e ∧ Traced S p w xs (.error e) w' := by
  generalize hq : p.bind f = q at h
  induction h generalizing p with
  | done r w =>
    cases p with
    | done r₀ =>
      cases r₀ with
      | ok a =>
        have hf : f a = .done r := hq
        refine .inl ⟨a, w, [], [], rfl, .done _ _, ?_⟩
        rw [hf]
        exact .done _ _
      | error e => exact .inr ⟨e, (Program.done.inj hq).symm, .done _ _⟩
    | clock _ => cases hq
    | draw _ => cases hq
    | call _ _ => cases hq
  | wait ht hr ih =>
    rcases ih hq with ⟨a, w₁, ys, zs, hxs, hp, hf⟩ | ⟨e, he, hp⟩
    · exact .inl ⟨a, w₁, ys, zs, hxs, .wait ht hp, hf⟩
    · exact .inr ⟨e, he, .wait ht hp⟩
  | @step _ _ _ _ _ x xs _ hs hr ih =>
    subst hq
    rcases hs.of_bind with ⟨a, rfl, hf⟩ | ⟨p', hp', rfl⟩
    · exact .inl ⟨a, _, [], _, rfl, .done _ _, .step hf hr⟩
    · rcases ih rfl with ⟨a, w₁, ys, zs, rfl, hp, hf⟩ | ⟨e, he, hp⟩
      · exact .inl ⟨a, w₁, x.toList ++ ys, zs, by simp, .step hp' hp, hf⟩
      · exact .inr ⟨e, he, .step hp' hp⟩

theorem Step.attempt {p p' : Program α} {x : Option Exchange} (h : Step S p w x p' w') :
    Step S p.attempt w x p'.attempt w' := by
  cases h with
  | clock next => exact .clock _ w
  | draw next => exact .draw _ w
  | call c next => exact .call c _ w
  | lost c next _ hl => exact .lost c _ w hl

theorem Step.of_attempt {p : Program α} {q : Program (Except AuthError α)} {x : Option Exchange}
    (h : Step S p.attempt w x q w') : ∃ p', Step S p w x p' w' ∧ q = p'.attempt := by
  cases p with
  | done r => cases h
  | clock next =>
    cases h
    exact ⟨_, .clock next w, rfl⟩
  | draw next =>
    cases h
    exact ⟨_, .draw next w, rfl⟩
  | call c next =>
    cases h with
    | call => exact ⟨_, .call c next w, rfl⟩
    | lost _ _ _ hl => exact ⟨_, .lost c next w hl, rfl⟩

theorem Traced.attempt {p : Program α} {xs : List Exchange} {r : Except AuthError α}
    (h : Traced S p w xs r w') : Traced S p.attempt w xs (.ok r) w' := by
  induction h with
  | done r w => exact .done _ w
  | wait ht _ ih => exact .wait ht ih
  | step hs _ ih => exact .step hs.attempt ih

/-- A caught failure is the result of a run that does not catch it. -/
theorem traced_attempt {p : Program α} {xs : List Exchange} {r : Except AuthError (Except AuthError α)}
    (h : Traced S p.attempt w xs r w') : ∃ r₀, r = .ok r₀ ∧ Traced S p w xs r₀ w' := by
  generalize hq : p.attempt = q at h
  induction h generalizing p with
  | done r w =>
    cases p with
    | done r₀ => exact ⟨r₀, (Program.done.inj hq).symm, .done r₀ w⟩
    | clock _ => cases hq
    | draw _ => cases hq
    | call _ _ => cases hq
  | wait ht _ ih =>
    obtain ⟨r₀, hr, h⟩ := ih hq
    exact ⟨r₀, hr, .wait ht h⟩
  | step hs _ ih =>
    subst hq
    obtain ⟨p', hp', rfl⟩ := hs.of_attempt
    obtain ⟨r₀, hr, h⟩ := ih rfl
    exact ⟨r₀, hr, .step hp' h⟩

/-- What comes after a program whose failure is caught always runs. -/
theorem traced_attempt_bind {p : Program α} {f : Except AuthError α → Program β}
    {xs : List Exchange} {r : Except AuthError β} (h : Traced S (p.attempt >>= f) w xs r w') :
    ∃ r₀ w₁ ys zs, xs = ys ++ zs ∧ Traced S p w ys r₀ w₁ ∧ Traced S (f r₀) w₁ zs r w' := by
  rcases traced_bind h with ⟨a, w₁, ys, zs, hxs, hp, hf⟩ | ⟨e, -, hp⟩
  · obtain ⟨r₀, ha, hp⟩ := traced_attempt hp
    obtain rfl := Except.ok.inj ha
    exact ⟨a, w₁, ys, zs, hxs, hp, hf⟩
  · obtain ⟨r₀, he, -⟩ := traced_attempt hp
    cases he

/-- A run that begins with a known kind of step: time passes, then the step is made. -/
private theorem Traced.exists_step {p : Program α} {xs : List Exchange} {r : Except AuthError α}
    (h : Traced S p w xs r w') (hp : ∀ r₀, p ≠ Program.done r₀) :
    ∃ t x p' w₁ ys, w.clock ≤ t ∧ xs = x.toList ++ ys ∧ Step S p (w.atTime t) x p' w₁ ∧
      Traced S p' w₁ ys r w' := by
  induction h with
  | done r w => exact absurd rfl (hp r)
  | wait ht _ ih =>
    obtain ⟨u, x, p', w₁, ys, hu, hxs, hs, hr⟩ := ih hp
    exact ⟨u, x, p', w₁, ys, Int.le_trans ht hu, hxs, hs, hr⟩
  | @step p p' w w₁ w' x ys r hs hr _ => exact ⟨w.clock, x, p', w₁, ys, Int.le_refl _, rfl, hs, hr⟩

theorem traced_clock {next : Nanos → Program α} {xs : List Exchange} {r : Except AuthError α}
    (h : Traced S (clock next) w xs r w') :
    ∃ t, w.clock ≤ t ∧ Traced S (next t) (w.atTime t) xs r w' := by
  obtain ⟨t, x, p', w₁, ys, ht, rfl, hs, hr⟩ := h.exists_step (fun _ => by simp)
  cases hs
  exact ⟨t, ht, hr⟩

theorem traced_draw {next : Draw → Program α} {xs : List Exchange} {r : Except AuthError α}
    (h : Traced S (draw next) w xs r w') :
    ∃ t, w.clock ≤ t ∧
      Traced S (next (S.entropy w.drawn)) { w.atTime t with drawn := w.drawn + 1 } xs r w' := by
  obtain ⟨t, x, p', w₁, ys, ht, rfl, hs, hr⟩ := h.exists_step (fun _ => by simp)
  cases hs
  exact ⟨t, ht, hr⟩

/-- A call is answered at one instant of its run, or it is lost. -/
theorem traced_call {c : Call} {next : Except AuthError c.Answer → Program α}
    {xs : List Exchange} {r : Except AuthError α} (h : Traced S (call c next) w xs r w') :
    ∃ t ys, w.clock ≤ t ∧
      ((xs = ⟨c, (S.model t c w.store).1⟩ :: ys ∧ Traced S (next (S.model t c w.store).1)
          { w.atTime t with store := (S.model t c w.store).2 } ys r w') ∨
        ∃ e, S.mayFail c e ∧ xs = ⟨c, .error e⟩ :: ys ∧
          Traced S (next (.error e)) (w.atTime t) ys r w') := by
  obtain ⟨t, x, p', w₁, ys, ht, rfl, hs, hr⟩ := h.exists_step (fun _ => by simp)
  cases hs with
  | call => exact ⟨t, ys, ht, .inl ⟨rfl, hr⟩⟩
  | lost _ _ _ hl => exact ⟨t, ys, ht, .inr ⟨_, hl, rfl, hr⟩⟩

theorem Runs.clock_le {p : Program α} {r : Except AuthError α} (h : Runs S p w r w') :
    w.clock ≤ w'.clock := by
  induction h with
  | done => exact Int.le_refl _
  | wait ht _ ih => exact Int.le_trans ht ih
  | step hs _ ih => exact hs.clock_eq ▸ ih

theorem runs_done {r₀ r : Except AuthError α} (h : Runs S (done r₀) w r w') :
    r = r₀ ∧ w' = w.atTime w'.clock := by
  obtain ⟨xs, h⟩ := h.exists_traced
  exact (traced_done h).2

/-- A run of a sequence runs the first part to a value and the rest from there, or fails with the
first part. -/
theorem runs_bind {p : Program α} {f : α → Program β} {r : Except AuthError β}
    (h : Runs S (p.bind f) w r w') :
    (∃ a w₁, Runs S p w (.ok a) w₁ ∧ Runs S (f a) w₁ r w') ∨
      ∃ e, r = .error e ∧ Runs S p w (.error e) w' := by
  obtain ⟨xs, h⟩ := h.exists_traced
  rcases traced_bind h with ⟨a, w₁, ys, zs, -, hp, hf⟩ | ⟨e, he, hp⟩
  · exact .inl ⟨a, w₁, hp.runs, hf.runs⟩
  · exact .inr ⟨e, he, hp.runs⟩

/-- A sequence that succeeds runs all its parts to values. -/
theorem runs_bind_ok {p : Program α} {f : α → Program β} {b : β}
    (h : Runs S (p >>= f) w (.ok b) w') :
    ∃ a w₁, Runs S p w (.ok a) w₁ ∧ Runs S (f a) w₁ (.ok b) w' := by
  rcases runs_bind h with hok | ⟨e, he, -⟩
  · exact hok
  · cases he

theorem runs_clock {next : Nanos → Program α} {r : Except AuthError α}
    (h : Runs S (clock next) w r w') :
    ∃ t, w.clock ≤ t ∧ Runs S (next t) (w.atTime t) r w' := by
  obtain ⟨xs, h⟩ := h.exists_traced
  obtain ⟨t, ht, h⟩ := traced_clock h
  exact ⟨t, ht, h.runs⟩

theorem runs_draw {next : Draw → Program α} {r : Except AuthError α}
    (h : Runs S (draw next) w r w') :
    ∃ t, w.clock ≤ t ∧
      Runs S (next (S.entropy w.drawn)) { w.atTime t with drawn := w.drawn + 1 } r w' := by
  obtain ⟨xs, h⟩ := h.exists_traced
  obtain ⟨t, ht, h⟩ := traced_draw h
  exact ⟨t, ht, h.runs⟩

/-- A call is answered at one instant of its run, or it is lost. -/
theorem runs_call {c : Call} {next : Except AuthError c.Answer → Program α}
    {r : Except AuthError α} (h : Runs S (call c next) w r w') :
    ∃ t, w.clock ≤ t ∧
      (Runs S (next (S.model t c w.store).1)
          { w.atTime t with store := (S.model t c w.store).2 } r w' ∨
        ∃ e, S.mayFail c e ∧ Runs S (next (.error e)) (w.atTime t) r w') := by
  obtain ⟨xs, h⟩ := h.exists_traced
  obtain ⟨t, ys, ht, ⟨-, h⟩ | ⟨e, hl, -, h⟩⟩ := traced_call h
  · exact ⟨t, ht, .inl h.runs⟩
  · exact ⟨t, ht, .inr ⟨e, hl, h.runs⟩⟩

theorem runs_call_of_reliable {c : Call} {next : Except AuthError c.Answer → Program α}
    {r : Except AuthError α} (hS : S.Reliable) (h : Runs S (call c next) w r w') :
    ∃ t, w.clock ≤ t ∧ Runs S (next (S.model t c w.store).1)
      { w.atTime t with store := (S.model t c w.store).2 } r w' := by
  obtain ⟨t, ht, hr | ⟨e, hl, -⟩⟩ := runs_call h
  · exact ⟨t, ht, hr⟩
  · exact (hS c e hl).elim

/-- A program that makes only calls in `A`, whatever it is answered. -/
def CallsOnly (A : Call → Prop) : Program α → Prop
  | done _ => True
  | clock next => ∀ t, (next t).CallsOnly A
  | draw next => ∀ d, (next d).CallsOnly A
  | call c next => A c ∧ ∀ r, (next r).CallsOnly A

section

variable {A : Call → Prop} {p p' : Program α} {x : Option Exchange} {xs : List Exchange}
  {r : Except AuthError α}

theorem CallsOnly.mono {B : Call → Prop} (hp : p.CallsOnly A) (h : ∀ c, A c → B c) :
    p.CallsOnly B := by
  induction p with
  | done r => trivial
  | clock next ih => exact fun t => ih t (hp t)
  | draw next ih => exact fun d => ih d (hp d)
  | call c next ih => exact ⟨h c hp.1, fun r => ih r (hp.2 r)⟩

theorem CallsOnly.bind {f : α → Program β} (hp : p.CallsOnly A) (hf : ∀ a, (f a).CallsOnly A) :
    (p.bind f).CallsOnly A := by
  induction p with
  | done r =>
    cases r with
    | ok a => exact hf a
    | error e => trivial
  | clock next ih => exact fun t => ih t (hp t)
  | draw next ih => exact fun d => ih d (hp d)
  | call c next ih => exact ⟨hp.1, fun r => ih r (hp.2 r)⟩

theorem CallsOnly.attempt (hp : p.CallsOnly A) : p.attempt.CallsOnly A := by
  induction p with
  | done r => trivial
  | clock next ih => exact fun t => ih t (hp t)
  | draw next ih => exact fun d => ih d (hp d)
  | call c next ih => exact ⟨hp.1, fun r => ih r (hp.2 r)⟩

theorem CallsOnly.step (hp : p.CallsOnly A) (hs : Step S p w x p' w') :
    p'.CallsOnly A ∧ ∀ y ∈ x, A y.call := by
  cases hs with
  | clock next => exact ⟨hp _, by simp⟩
  | draw next => exact ⟨hp _, by simp⟩
  | call c next => exact ⟨hp.2 _, by simpa using hp.1⟩
  | lost c next => exact ⟨hp.2 _, by simpa using hp.1⟩

theorem CallsOnly.traced (hp : p.CallsOnly A) (h : Traced S p w xs r w') :
    ∀ y ∈ xs, A y.call := by
  induction h with
  | done => simp
  | wait _ _ ih => exact ih hp
  | step hs _ ih =>
    obtain ⟨hp', hx⟩ := hp.step hs
    intro y hy
    rcases List.mem_append.mp hy with hy | hy
    · exact hx y (Option.mem_toList.mp hy)
    · exact ih hp' y hy

/-- What the store keeps in every call in `A`, it keeps in a step. -/
theorem CallsOnly.step_keeps {I : σ → Prop} (hp : p.CallsOnly A)
    (hI : ∀ t c s, A c → I s → I (S.model t c s).2) (hs : Step S p w x p' w') (hw : I w.store) :
    I w'.store := by
  cases hs with
  | clock next => exact hw
  | draw next => exact hw
  | call c next => exact hI _ c _ hp.1 hw
  | lost c next => exact hw

theorem CallsOnly.keeps {I : σ → Prop} (hp : p.CallsOnly A)
    (hI : ∀ t c s, A c → I s → I (S.model t c s).2) (h : Runs S p w r w') (hw : I w.store) :
    I w'.store := by
  induction h with
  | done => exact hw
  | wait _ _ ih => exact ih hp hw
  | step hs _ ih => exact ih (hp.step hs).1 (hp.step_keeps hI hs hw)

end

/-- A program that fails only if one of its calls does. -/
def Fulfils : Program α → Prop
  | done (.ok _) => True
  | done (.error _) => False
  | clock next => ∀ t, (next t).Fulfils
  | draw next => ∀ d, (next d).Fulfils
  | call _ next => ∀ a, (next (.ok a)).Fulfils

theorem Fulfils.bind {p : Program α} {f : α → Program β} (hp : p.Fulfils) (hf : ∀ a, (f a).Fulfils) :
    (p.bind f).Fulfils := by
  induction p with
  | done r =>
    cases r with
    | ok a => exact hf a
    | error e => exact hp.elim
  | clock next ih => exact fun t => ih t (hp t)
  | draw next ih => exact fun d => ih d (hp d)
  | call c next ih => exact fun a => ih (.ok a) (hp a)

theorem Fulfils.step {p p' : Program α} {x : Option Exchange} (hp : p.Fulfils)
    (hs : Step S p w x p' w') (hx : ∀ y ∈ x, ∃ a, y.answer = .ok a) : p'.Fulfils := by
  cases hs with
  | clock next => exact hp _
  | draw next => exact hp _
  | call c next =>
    obtain ⟨a, ha⟩ := hx _ rfl
    have hanswer : (S.model w.clock c w.store).1 = .ok a := ha
    rw [hanswer]
    exact hp a
  | lost c next =>
    obtain ⟨a, ha⟩ := hx _ rfl
    cases ha

/-- What a program may call from an instant on, and what it can rely on in the answers. -/
structure Contract where
  start : Nanos
  allows : Call → Prop
  answers : (c : Call) → c.Answer → Prop

/-- A program that makes only allowed calls, as long as the answers are as it relies on, and returns
nothing outside of `Q`. It may fail at any time. -/
def Obeys (K : Contract) (Q : α → Prop) : Program α → Prop
  | done (.ok a) => Q a
  | done (.error _) => True
  | clock next => ∀ t, K.start ≤ t → (next t).Obeys K Q
  | draw next => ∀ d, (next d).Obeys K Q
  | call c next => K.allows c ∧ (∀ a, K.answers c a → (next (.ok a)).Obeys K Q) ∧
    ∀ e, (next (.error e)).Obeys K Q

namespace Obeys

variable {K : Contract} {Q : α → Prop} {Q' : β → Prop} {p p' : Program α} {x : Option Exchange}
  {r : Except AuthError α}

theorem bind {f : α → Program β} (hp : p.Obeys K Q) (hf : ∀ a, Q a → (f a).Obeys K Q') :
    (p >>= f).Obeys K Q' := by
  rw [bind_eq]
  induction p with
  | done r =>
    cases r with
    | ok a => exact hf a hp
    | error e => trivial
  | clock next ih => exact fun t ht => ih t (hp t ht)
  | draw next ih => exact fun d => ih d (hp d)
  | call c next ih => exact ⟨hp.1, fun a ha => ih _ (hp.2.1 a ha), fun e => ih _ (hp.2.2 e)⟩

/-- Allowed calls are all it takes where nothing is relied on. -/
theorem of_callsOnly {A : Call → Prop} (hp : p.CallsOnly A) (h : ∀ c, A c → K.allows c) :
    p.Obeys K fun _ => True := by
  induction p with
  | done r => cases r <;> trivial
  | clock next ih => exact fun t _ => ih t (hp t)
  | draw next ih => exact fun d => ih d (hp d)
  | call c next ih => exact ⟨h c hp.1, fun a _ => ih _ (hp.2 _), fun e => ih _ (hp.2 _)⟩

theorem now : now.Obeys K (K.start ≤ ·) := fun _ ht => ht

theorem fresh : fresh.Obeys K fun _ => True := fun _ => trivial

theorem ofExcept (r : Except AuthError α) (h : ∀ a, r = .ok a → Q a) : (ofExcept r).Obeys K Q := by
  cases r with
  | ok a => exact h a rfl
  | error e => trivial

theorem ask {c : Call} (h : K.allows c) : (ask c).Obeys K (K.answers c) :=
  ⟨h, fun _ ha => ha, fun _ => trivial⟩

/-- One step, from a state `I` that allowed calls keep and that answers them as relied on. -/
theorem step {S : Setting σ} {I : Nanos → σ → Prop} (hp : p.Obeys K Q)
    (hI : ∀ t c s, K.start ≤ t → K.allows c → I t s →
      I t (S.model t c s).2 ∧ ∀ a, (S.model t c s).1 = .ok a → K.answers c a)
    (hs : Step S p w x p' w') (hstart : K.start ≤ w.clock) (hw : I w.clock w.store) :
    p'.Obeys K Q ∧ I w'.clock w'.store := by
  cases hs with
  | clock next => exact ⟨hp _ hstart, hw⟩
  | draw next => exact ⟨hp _, hw⟩
  | call c next =>
    obtain ⟨hallows, hok, herr⟩ := hp
    obtain ⟨hkept, hanswers⟩ := hI _ c _ hstart hallows hw
    refine ⟨?_, hkept⟩
    cases ha : (S.model w.clock c w.store).1 with
    | ok a => exact hok a (hanswers a ha)
    | error e => exact herr e
  | lost c next => exact ⟨hp.2.2 _, hw⟩

/-- What allowed calls and the passing of time keep, a whole run keeps. -/
theorem keeps {S : Setting σ} {I : Nanos → σ → Prop} (hp : p.Obeys K Q)
    (hI : ∀ t c s, K.start ≤ t → K.allows c → I t s →
      I t (S.model t c s).2 ∧ ∀ a, (S.model t c s).1 = .ok a → K.answers c a)
    (hwait : ∀ t u s, t ≤ u → I t s → I u s) (h : Runs S p w r w') (hstart : K.start ≤ w.clock)
    (hw : I w.clock w.store) : I w'.clock w'.store := by
  induction h with
  | done => exact hw
  | wait ht _ ih => exact ih hp (Int.le_trans hstart ht) (hwait _ _ _ ht hw)
  | step hs _ ih =>
    obtain ⟨hp', hw'⟩ := hp.step hI hs hstart hw
    exact ih hp' (hs.clock_eq ▸ hstart) hw'

end Obeys

/-- A run while the clock stands still is one of the runs, whatever might fail. -/
theorem traced_of_run {entropy : Nat → Draw} {model : StoreModel σ}
    (mayFail : Call → AuthError → Prop) {p : Program α} {r : Except AuthError α}
    (h : p.run (model.host entropy) w = (some r, w')) :
    ∃ xs, Traced ⟨model, entropy, mayFail⟩ p w xs r w' := by
  induction p generalizing w with
  | done r₀ =>
    obtain ⟨hr, hw⟩ := Prod.mk.inj h
    obtain rfl := Option.some.inj hr
    exact ⟨[], hw ▸ .done _ _⟩
  | clock next ih =>
    obtain ⟨xs, h⟩ := ih _ h
    exact ⟨_, .step (.clock next w) h⟩
  | draw next ih =>
    obtain ⟨xs, h⟩ := ih _ h
    exact ⟨_, .step (.draw next w) h⟩
  | call c next ih =>
    obtain ⟨xs, h⟩ := ih _ h
    exact ⟨_, .step (.call c next w) h⟩

theorem runs_of_run {entropy : Nat → Draw} {model : StoreModel σ} {p : Program α}
    {r : Except AuthError α} (h : p.run (model.host entropy) w = (some r, w')) :
    Runs ⟨model, entropy, fun _ _ => False⟩ p w r w' := by
  obtain ⟨xs, h⟩ := traced_of_run (fun _ _ => False) h
  exact h.runs

/-- A program over a store always comes to a result. -/
theorem exists_run (model : StoreModel σ) (entropy : Nat → Draw) (p : Program α) (w : World σ) :
    ∃ r w', p.run (model.host entropy) w = (some r, w') := by
  induction p generalizing w with
  | done r => exact ⟨r, w, rfl⟩
  | clock next ih => exact ih _ _
  | draw next ih => exact ih _ _
  | call c next ih => exact ih _ _

/-- The clock stands still while a program runs at once. -/
theorem clock_of_run {model : StoreModel σ} {entropy : Nat → Draw} {p : Program α}
    {o : Option (Except AuthError α)} (h : p.run (model.host entropy) w = (o, w')) :
    w'.clock = w.clock := by
  induction p generalizing w with
  | done r => exact congrArg World.clock (Prod.mk.inj h).2.symm
  | clock next ih => exact ih _ h
  | draw next ih =>
    have hclock := ih _ h
    exact hclock
  | call c next ih =>
    have hclock := ih _ h
    exact hclock

section

variable (model : StoreModel σ) (entropy : Nat → Draw) (w : World σ)

theorem run_done (r : Except AuthError α) :
    (done r).run (model.host entropy) w = (some r, w) := rfl

theorem run_clock (next : Nanos → Program α) :
    (clock next).run (model.host entropy) w = (next w.clock).run (model.host entropy) w := rfl

theorem run_draw (next : Draw → Program α) :
    (draw next).run (model.host entropy) w =
      (next (entropy w.drawn)).run (model.host entropy) { w with drawn := w.drawn + 1 } := rfl

end

/-- A call that is answered goes on with the answer. -/
theorem run_ask_answer {h : Host σ} {c : Call} {f : c.Answer → Program β} {a : c.Answer} {s s' : σ}
    (ha : h.answer c s = (some (.ok a), s')) : ((ask c).bind f).run h s = (f a).run h s' := by
  simp only [ask_bind, Program.run, ha, done_ok_bind]

theorem run_ask {model : StoreModel σ} {entropy : Nat → Draw} {c : Call} {f : c.Answer → Program β}
    {a : c.Answer} {s : σ} (h : model w.clock c w.store = (.ok a, s)) :
    ((ask c).bind f).run (model.host entropy) w =
      (f a).run (model.host entropy) { w with store := s } := by
  have ha : (model.host entropy).answer c w = (some (.ok a), { w with store := s }) := by
    simp only [StoreModel.host, h]
  exact run_ask_answer ha

theorem run_ask_error {model : StoreModel σ} {entropy : Nat → Draw} {c : Call}
    {f : c.Answer → Program β} {e : AuthError} {s : σ}
    (h : model w.clock c w.store = (.error e, s)) :
    ((ask c).bind f).run (model.host entropy) w = (some (.error e), { w with store := s }) := by
  simp only [ask_bind, Program.run, StoreModel.host, h, done_error_bind]

/-- A sequence stops where its first part fails or does not come to an end. -/
theorem run_bind_eq (h : Host σ) (p : Program α) (f : α → Program β) (s : σ) :
    (p.bind f).run h s =
      match p.run h s with
      | (some (.ok a), s') => (f a).run h s'
      | (some (.error e), s') => (some (.error e), s')
      | (none, s') => (none, s') := by
  induction p generalizing s with
  | done r => cases r <;> rfl
  | clock next ih => exact ih _ _
  | draw next ih => exact ih _ _
  | call c next ih =>
    rcases ha : h.answer c s with ⟨_ | r, s₁⟩
    · simp only [call_bind, Program.run, ha]
    · simp only [call_bind, Program.run, ha]
      exact ih r s₁

theorem run_bind {h : Host σ} {p : Program α} {f : α → Program β} {s s' : σ} {a : α}
    (hp : p.run h s = (some (.ok a), s')) : (p.bind f).run h s = (f a).run h s' := by
  rw [run_bind_eq, hp]

theorem run_bind_error {h : Host σ} {p : Program α} {f : α → Program β} {s s' : σ} {e : AuthError}
    (hp : p.run h s = (some (.error e), s')) : (p.bind f).run h s = (some (.error e), s') := by
  rw [run_bind_eq, hp]

theorem run_attempt (h : Host σ) (p : Program α) (s : σ) :
    p.attempt.run h s = ((p.run h s).1.map .ok, (p.run h s).2) := by
  induction p generalizing s with
  | done r => rfl
  | clock next ih => exact ih _ _
  | draw next ih => exact ih _ _
  | call c next ih =>
    rcases ha : h.answer c s with ⟨_ | r, s₁⟩
    · simp only [attempt, Program.run, ha]
      rfl
    · simp only [attempt, Program.run, ha]
      exact ih r s₁

/-- Whatever a program comes to, what follows an attempt at it goes on from there. -/
theorem run_attempt_bind {h : Host σ} {p : Program α} {f : Except AuthError α → Program β}
    {s s' : σ} {r : Except AuthError α} (hp : p.run h s = (some r, s')) :
    (p.attempt.bind f).run h s = (f r).run h s' := by
  have hattempt : p.attempt.run h s = (some (.ok r), s') := by
    rw [run_attempt, hp]
    rfl
  exact run_bind hattempt

end Program

end Turnstile
