import Mathlib.Data.List.Forall2
import Turnstile.Proofs.Service.Concealment
import Turnstile.Store.Disturbed
import Turnstile.Store.Memory

/-! Disturbed stores whose failures differ in their details: programs cannot tell them apart by
anything else. -/

namespace Turnstile

/-- Two states of a store that calls can tell apart only by the details of failures. -/
structure StoreModel.Alike {σ : Type} (model : StoreModel σ) (R : σ → σ → Prop) : Prop where
  answer : ∀ t c s s', R s s' →
    SameUpTo AuthError.Alike (model t c s).1 (model t c s').1 ∧ R (model t c s).2 (model t c s').2

theorem MemoryStore.alike_model (ids : Nat → String) : (MemoryStore.model ids).Alike Eq where
  answer t c s s' h := by
    subst h
    exact ⟨.refl .refl _, rfl⟩

namespace Disturbed

/-- The same disturbance, or two failures that are alike. -/
inductive SameFault : Fault → Fault → Prop
  | same (f : Fault) : SameFault f f
  | error {e e' : AuthError} : e.Alike e' → SameFault (.error e) (.error e')

/-- Faults for the same calls that differ only in the details of failures. -/
def SameFaults : List (Method × Fault) → List (Method × Fault) → Prop :=
  List.Forall₂ fun x y => x.1 = y.1 ∧ SameFault x.2 y.2

variable {σ : Type} {R : σ → σ → Prop} {model : StoreModel σ}

/-- Worlds at the same instant with the same faults to come, but for the details of failures. -/
structure Alike (R : σ → σ → Prop) (d d' : Disturbed σ) : Prop where
  store : R d.world.store d'.world.store
  clock : d.world.clock = d'.world.clock
  drawn : d.world.drawn = d'.world.drawn
  faults : SameFaults d.faults d'.faults
  deadline : d.deadline = d'.deadline

theorem alike_takeFault (m : Method) {fs fs' : List (Method × Fault)} (h : SameFaults fs fs') :
    Option.Rel SameFault (takeFault m fs).1 (takeFault m fs').1 ∧
      SameFaults (takeFault m fs).2 (takeFault m fs').2 := by
  induction h with
  | nil => exact ⟨.none, .nil⟩
  | @cons x y xs ys hxy hrest ih =>
    obtain ⟨n, f⟩ := x
    obtain ⟨n', f'⟩ := y
    obtain ⟨rfl, hfault⟩ := hxy
    unfold takeFault
    split_ifs
    · exact ⟨.some hfault, hrest⟩
    · exact ⟨ih.1, .cons ⟨rfl, hfault⟩ ih.2⟩

theorem alike_plain (hmodel : model.Alike R) (c : Call) {d d' : Disturbed σ} (h : d.Alike R d') :
    SameUpTo AuthError.Alike (plain model c d).1 (plain model c d').1 ∧
      (plain model c d).2.Alike R (plain model c d').2 := by
  obtain ⟨hanswer, hstore⟩ := hmodel.answer d.world.clock c _ _ h.store
  unfold plain
  rw [← h.clock]
  exact ⟨hanswer, hstore, h.clock, h.drawn, h.faults, h.deadline⟩

/-- A call is answered alike, whatever befalls it. -/
theorem alike_answer (hmodel : model.Alike R) (c : Call) {d d' : Disturbed σ} (h : d.Alike R d') :
    Option.Rel (SameUpTo AuthError.Alike) (answer model c d).1 (answer model c d').1 ∧
      (answer model c d).2.Alike R (answer model c d').2 := by
  obtain ⟨hfault, hrest⟩ := alike_takeFault c.method h.faults
  unfold answer
  generalize takeFault c.method d.faults = x at hfault hrest ⊢
  generalize takeFault c.method d'.faults = y at hfault hrest ⊢
  obtain ⟨fault, faults⟩ := x
  obtain ⟨fault', faults'⟩ := y
  have hdisturbed : Alike R { d with faults, log := c :: d.log }
      { d' with faults := faults', log := c :: d'.log } :=
    ⟨h.store, h.clock, h.drawn, hrest, h.deadline⟩
  have hplain := alike_plain hmodel c hdisturbed
  cases hfault with
  | none => exact ⟨.some hplain.1, hplain.2⟩
  | @some f f' hsame =>
    cases hsame with
    | error he => exact ⟨.some (.error he), hdisturbed⟩
    | same =>
      cases f with
      | error e => exact ⟨.some (.refl .refl _), hdisturbed⟩
      | absent =>
        dsimp only
        cases absentAnswer? c with
        | none => exact ⟨.some hplain.1, hplain.2⟩
        | some a => exact ⟨.some (.ok a), hdisturbed⟩
      | noPassword => exact ⟨.some (hplain.1.map _), hplain.2⟩
      | delay span =>
        have hlater : Alike R
            { d with
              faults, log := c :: d.log
              world := { d.world with clock := d.world.clock + span } }
            { d' with
              faults := faults', log := c :: d'.log
              world := { d'.world with clock := d'.world.clock + span } } :=
          ⟨h.store, congrArg (· + span) h.clock, h.drawn, hrest, h.deadline⟩
        have hlate : d.deadline.any (· < d.world.clock + span) =
            d'.deadline.any (· < d'.world.clock + span) := by
          rw [h.deadline, h.clock]
        have hanswer := alike_plain hmodel c hlater
        dsimp only
        rw [hlate]
        split_ifs
        · exact ⟨.none, hlater⟩
        · exact ⟨.some hanswer.1, hanswer.2⟩

theorem alike_host (hmodel : model.Alike R) (entropy : Nat → Draw) :
    (host model entropy).Alike (host model entropy) (Alike R) where
  clock _ _ h := h.clock
  draw d d' h := by
    change entropy d.world.drawn = entropy d'.world.drawn ∧ _
    rw [h.drawn]
    exact ⟨rfl, h.store, h.clock, congrArg (· + 1) h.drawn, h.faults, h.deadline⟩
  answer c _ _ h := alike_answer hmodel c h

end Disturbed

end Turnstile
