import Turnstile.Proofs.Execution

/-! Operations made one after another, and what came of them. -/

namespace Turnstile

open Program

structure Entry (ω α : Type) where
  operation : ω
  result : Except AuthError α

variable {σ ω α : Type} {S : Setting σ} {program : ω → Program α} {Other : σ → σ → Prop}
  {w₀ w : World σ} {h : List (Entry ω α)}

/-- The operations made on the way from one world to another, the latest first. Time may pass
between them and while they run, and between them the store may change as `Other` allows. -/
inductive History (S : Setting σ) (program : ω → Program α) (Other : σ → σ → Prop) (w₀ : World σ) :
    List (Entry ω α) → World σ → Prop
  | start : History S program Other w₀ [] w₀
  | wait {h : List (Entry ω α)} {w : World σ} {t : Nanos} :
    History S program Other w₀ h w → w.clock ≤ t → History S program Other w₀ h (w.atTime t)
  | other {h : List (Entry ω α)} {w : World σ} {s : σ} :
    History S program Other w₀ h w → Other w.store s →
    History S program Other w₀ h { w with store := s }
  | next {h : List (Entry ω α)} {w w' : World σ} {r : Except AuthError α} (op : ω) :
    History S program Other w₀ h w → Runs S (program op) w r w' →
    History S program Other w₀ (⟨op, r⟩ :: h) w'

namespace History

theorem clock_le (hs : History S program Other w₀ h w) : w₀.clock ≤ w.clock := by
  induction hs with
  | start => exact Int.le_refl _
  | wait _ ht ih => exact Int.le_trans ih ht
  | other _ _ ih => exact ih
  | next op _ hr ih => exact Int.le_trans ih hr.clock_le

/-- What time, changes from outside and every operation keep, holds after any operations. -/
theorem keeps {I : World σ → Prop} (hs : History S program Other w₀ h w) (hstart : I w₀)
    (hwait : ∀ w t, I w → w.clock ≤ t → I (w.atTime t))
    (hother : ∀ w s, I w → Other w.store s → I { w with store := s })
    (hnext : ∀ op w r w', w₀.clock ≤ w.clock → I w → Runs S (program op) w r w' → I w') : I w := by
  induction hs with
  | start => exact hstart
  | wait _ ht ih => exact hwait _ _ ih ht
  | other _ ho ih => exact hother _ _ ih ho
  | next op hs hr ih => exact hnext op _ _ _ hs.clock_le ih hr

end History

end Turnstile
