import Mathlib.Logic.Function.Basic
import Turnstile.Proofs.Execution

/-! Programs at work on one store, in every order of their steps. Each is interrupted at its calls and
may be cut off anywhere. -/

namespace Turnstile

open Program

variable {σ ι α β : Type}

/-- A program at work: what is left of it, and the instant it last read off the clock. -/
structure Task (α : Type) where
  left : Program α
  read : Option Nanos := none

/-- What a task has read off the clock after its next step, which is made at an instant. -/
def Task.readNext (t : Nanos) : Task α → Option Nanos
  | ⟨.clock _, _⟩ => some t
  | ⟨_, read⟩ => read

theorem Task.readNext_eq_some {T : Task α} {t u : Nanos} (h : T.readNext t = some u) :
    u = t ∨ T.read = some u := by
  obtain ⟨left, read⟩ := T
  cases left with
  | clock next => exact .inl (Option.some.inj h).symm
  | done r => exact .inr h
  | draw next => exact .inr h
  | call d next => exact .inr h

/-- A call made by one of several programs: what the program had last read off the clock, the instant
of the call, and the store before and after it. -/
structure Event (ι σ : Type) where
  thread : ι
  exchange : Exchange
  readAt : Option Nanos
  madeAt : Nanos
  before : σ
  after : σ

/-- Programs at work, and the calls they have made, the latest first. -/
structure Pool (ι σ α : Type) where
  world : World σ
  tasks : ι → Task α
  log : List (Event ι σ)

namespace Pool

def opened (w : World σ) (programs : ι → Program α) : Pool ι σ α :=
  ⟨w, fun i => ⟨programs i, none⟩, []⟩

def left (P : Pool ι σ α) (i : ι) : Program α :=
  (P.tasks i).left

@[simp] theorem left_opened (w : World σ) (programs : ι → Program α) (i : ι) :
    (opened w programs).left i = programs i := rfl

/-- The calls made, with who made them. -/
def calls (P : Pool ι σ α) : List (ι × Exchange) :=
  P.log.map fun x => (x.thread, x.exchange)

variable [DecidableEq ι]

def advance (P : Pool ι σ α) (i : ι) (x : Option Exchange) (p : Program α) (w : World σ) :
    Pool ι σ α where
  world := w
  tasks := Function.update P.tasks i ⟨p, (P.tasks i).readNext P.world.clock⟩
  log := (x.toList.map fun y =>
    ⟨i, y, (P.tasks i).read, P.world.clock, P.world.store, w.store⟩) ++ P.log

/-- The pools that come about when programs start in a world as `Start` says. Time may pass at any
moment, the store may change from outside as `Other` allows, and a program need not go on. -/
inductive Reaches (S : Setting σ) (Other : σ → σ → Prop) (Start : World σ → Prop)
    (programs : ι → Program α) : Pool ι σ α → Prop
  | start (w : World σ) : Start w → Reaches S Other Start programs (opened w programs)
  | wait {P : Pool ι σ α} {t : Nanos} : Reaches S Other Start programs P → P.world.clock ≤ t →
    Reaches S Other Start programs { P with world := P.world.atTime t }
  | other {P : Pool ι σ α} {s : σ} : Reaches S Other Start programs P → Other P.world.store s →
    Reaches S Other Start programs { P with world := { P.world with store := s } }
  | step {P : Pool ι σ α} {x : Option Exchange} {p : Program α} {w : World σ} (i : ι) :
    Reaches S Other Start programs P → Step S (P.left i) P.world x p w →
    Reaches S Other Start programs (P.advance i x p w)

variable {S : Setting σ} {Other : σ → σ → Prop} {Start : World σ → Prop}
  {programs : ι → Program α} {P : Pool ι σ α} {i j : ι} {x : Option Exchange} {p : Program α}
  {w w' : World σ}

@[simp] theorem world_advance : (P.advance i x p w).world = w := rfl

@[simp] theorem left_advance : (P.advance i x p w).left i = p := by
  simp [left, advance]

theorem left_advance_of_ne (h : j ≠ i) : (P.advance i x p w).left j = P.left j := by
  simp [left, advance, h]

theorem mem_log_advance {e : Event ι σ} : e ∈ (P.advance i x p w).log ↔
    (∃ y, x = some y ∧ e = ⟨i, y, (P.tasks i).read, P.world.clock, P.world.store, w.store⟩) ∨
      e ∈ P.log := by
  cases x <;> simp [advance]

theorem mem_log_of_advance {e : Event ι σ} (h : e ∈ (P.advance i x p w).log) (hne : e.thread ≠ i) :
    e ∈ P.log := by
  obtain ⟨y, -, rfl⟩ | h := mem_log_advance.mp h
  · exact absurd rfl hne
  · exact h

theorem exchanges_advance : (P.advance i x p w).log.map Event.exchange =
    x.toList ++ P.log.map Event.exchange := by
  cases x <;> rfl

theorem calls_advance : (P.advance i x p w).calls = x.toList.map (i, ·) ++ P.calls := by
  cases x <;> rfl

namespace Reaches

/-- What holds at the start, and is kept by time, by changes from outside and by every step, holds of
all pools that come about. -/
theorem keeps {I : Pool ι σ α → Prop} (hP : Reaches S Other Start programs P)
    (hstart : ∀ w, Start w → I (opened w programs))
    (hwait : ∀ P t, I P → P.world.clock ≤ t → I { P with world := P.world.atTime t })
    (hother : ∀ P s, I P → Other P.world.store s → I { P with world := { P.world with store := s } })
    (hstep : ∀ P i x p w, I P → Step S (P.left i) P.world x p w → I (P.advance i x p w)) : I P := by
  induction hP with
  | start w hw => exact hstart w hw
  | wait _ ht ih => exact hwait _ _ ih ht
  | other _ ho ih => exact hother _ _ ih ho
  | step i _ hs ih => exact hstep _ i _ _ _ ih hs

/-- A program of the pool goes on alone to the end of its first part. -/
theorem of_traced {f : β → Program α} {q : Program β} {xs : List Exchange} {r : Except AuthError β}
    (hP : Reaches S Other Start programs P) (hq : P.left i = q.bind f) (hw : P.world = w)
    (h : Traced S q w xs r w') :
    ∃ Q, Reaches S Other Start programs Q ∧ Q.world = w' ∧ Q.left i = (done r).bind f ∧
      (∀ j, j ≠ i → Q.left j = P.left j) ∧ Q.calls = xs.reverse.map (i, ·) ++ P.calls := by
  induction h generalizing P with
  | done r w => exact ⟨P, hP, hw, hq, fun _ _ => rfl, rfl⟩
  | @wait q w w' xs r t ht _ ih =>
    subst hw
    exact ih (P := { P with world := P.world.atTime t }) (.wait hP ht) hq rfl
  | @step q q' w w₁ w' x xs r hs _ ih =>
    subst hw
    have hs' : Step S (P.left i) P.world x (q'.bind f) w₁ := hq ▸ hs.bind f
    obtain ⟨Q, hQ, hworld, hleft, hothers, hcalls⟩ := ih (.step i hP hs') left_advance rfl
    refine ⟨Q, hQ, hworld, hleft, fun j hj => (hothers j hj).trans (left_advance_of_ne hj), ?_⟩
    rw [hcalls, calls_advance]
    cases x <;> simp

/-- A program of the pool goes on alone while the clock stands still. -/
theorem of_run {model : StoreModel σ} {entropy : Nat → Draw} {mayFail : Call → AuthError → Prop}
    (hP : Reaches ⟨model, entropy, mayFail⟩ Other Start programs P) {f : β → Program α}
    {q : Program β} {r : Except AuthError β} (hq : P.left i = q.bind f)
    (hw : P.world = w) (h : q.run (model.host entropy) w = (some r, w')) :
    ∃ Q, Reaches ⟨model, entropy, mayFail⟩ Other Start programs Q ∧ Q.world = w' ∧
      Q.left i = (done r).bind f ∧ (∀ j, j ≠ i → Q.left j = P.left j) ∧ P.calls <:+ Q.calls := by
  obtain ⟨xs, h⟩ := traced_of_run mayFail h
  obtain ⟨Q, hQ, hworld, hleft, hothers, hcalls⟩ := hP.of_traced hq hw h
  exact ⟨Q, hQ, hworld, hleft, hothers, _, hcalls.symm⟩

end Reaches

/-- What has been read off a clock that showed no earlier instant than `t₀`. -/
structure Timed (t₀ : Nanos) (P : Pool ι σ α) : Prop where
  clock : t₀ ≤ P.world.clock
  reads : ∀ i t, (P.tasks i).read = some t → t₀ ≤ t ∧ t ≤ P.world.clock
  log : ∀ e ∈ P.log, e.madeAt ≤ P.world.clock ∧ ∀ t, e.readAt = some t → t₀ ≤ t ∧ t ≤ e.madeAt

theorem Reaches.timed {t₀ : Nanos} (hP : Reaches S Other Start programs P)
    (hstart : ∀ w, Start w → t₀ ≤ w.clock) : P.Timed t₀ := by
  refine hP.keeps (I := Timed t₀) (fun w hw => ?_) (fun P t h ht => ?_) (fun P s h _ => ?_)
    fun P i x p w h hs => ?_
  · exact ⟨hstart w hw, fun i t hread => (nomatch hread), fun e he => (nomatch he)⟩
  · exact ⟨Int.le_trans h.clock ht,
      fun i u hu => ⟨(h.reads i u hu).1, Int.le_trans (h.reads i u hu).2 ht⟩,
      fun e he => ⟨Int.le_trans (h.log e he).1 ht, (h.log e he).2⟩⟩
  · exact ⟨h.clock, h.reads, h.log⟩
  · have hclock : w.clock = P.world.clock := hs.clock_eq
    constructor
    case clock => exact hclock ▸ h.clock
    case reads =>
      intro j t hread
      rw [world_advance, hclock]
      by_cases hj : j = i
      · subst hj
        simp only [advance, Function.update_self] at hread
        rcases Task.readNext_eq_some hread with rfl | hbefore
        · exact ⟨h.clock, Int.le_refl _⟩
        · exact h.reads j t hbefore
      · exact h.reads j t (by simpa [advance, hj] using hread)
    case log =>
      intro e he
      rw [world_advance, hclock]
      obtain ⟨y, -, rfl⟩ | he := mem_log_advance.mp he
      · exact ⟨Int.le_refl _, h.reads i⟩
      · exact h.log e he

end Pool

end Turnstile
