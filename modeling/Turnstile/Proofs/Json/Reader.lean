import Turnstile.Json.Reader

/-! Readers as functions of the bytes ahead. -/

namespace Turnstile.Json

variable {α β : Type}

theorem bind_apply (r : Reader α) (f : α → Reader β) (s : Bytes) :
    (r >>= f) s = match r s with
      | (.ok a, s) => f a s
      | (.error e, s) => (.error e, s) := by
  change (match r s with | (a, s) => (ExceptT.bindCont f a) s) = _
  rcases r s with ⟨a | a, s⟩ <;> rfl

/-- A sequence of readers whose first one succeeds goes on with the bytes it left. -/
theorem bind_of_ok {r : Reader α} {f : α → Reader β} {s s' : Bytes} {a : α}
    (h : r s = (.ok a, s')) : (r >>= f) s = f a s' := by
  rw [bind_apply, h]

theorem bind_of_error {r : Reader α} {f : α → Reader β} {s s' : Bytes} {e : Fault}
    (h : r s = (.error e, s')) : (r >>= f) s = (.error e, s') := by
  rw [bind_apply, h]

/-- Both parts of a sequence that succeeds succeed. -/
theorem ok_of_bind_eq_ok {r : Reader α} {f : α → Reader β} {s s' : Bytes} {b : β}
    (h : (r >>= f) s = (.ok b, s')) :
    ∃ a s₁, r s = (.ok a, s₁) ∧ f a s₁ = (.ok b, s') := by
  rw [bind_apply] at h
  rcases hr : r s with ⟨e | a, s₁⟩
  · rw [hr] at h
    cases h
  · rw [hr] at h
    exact ⟨a, s₁, rfl, h⟩

@[simp] theorem pure_apply (a : α) (s : Bytes) : (pure a : Reader α) s = (.ok a, s) := rfl

@[simp] theorem throw_apply (e : Fault) (s : Bytes) : (throw e : Reader α) s = (.error e, s) := rfl

@[simp] theorem get_apply (s : Bytes) : (get : Reader Bytes) s = (.ok s, s) := rfl

@[simp] theorem set_apply (s s' : Bytes) : (set s' : Reader PUnit) s = (.ok ⟨⟩, s') := rfl

@[simp] theorem advance_apply (s : Bytes) : advance s = (.ok (), s.tail) := rfl

@[simp] theorem peek_apply (s : Bytes) :
    peek s = (.ok (s.dropWhile isSpace).head?, s.dropWhile isSpace) := rfl

@[simp] theorem bound_apply (s : Bytes) : bound s = (.ok (s.length + 1), s) := rfl

/-- What is next is seen at once unless it is white space. -/
theorem peek_cons {b : UInt8} (hb : isSpace b = false) (s : Bytes) :
    peek (b :: s) = (.ok (some b), b :: s) := by
  rw [peek_apply, List.dropWhile_cons_of_neg (by simp [hb])]
  rfl

/-- Reading between brackets, when the inside and the closing bracket are both there. -/
theorem enclosed_of_ok {inside : Reader α} {close : Reader Unit} {s s₁ s' : Bytes} {a : α}
    (h : inside s = (.ok a, s₁)) (hc : close s₁ = (.ok (), s')) :
    enclosed inside close s = (.ok a, s') := by
  unfold enclosed
  rw [h]
  simp only [hc]

theorem ok_of_enclosed_eq_ok {inside : Reader α} {close : Reader Unit} {s s' : Bytes} {a : α}
    (h : enclosed inside close s = (.ok a, s')) :
    ∃ s₁, inside s = (.ok a, s₁) ∧ close s₁ = (.ok (), s') := by
  unfold enclosed at h
  rcases hi : inside s with ⟨e | b, s₁⟩
  · rw [hi] at h
    cases h
  · rcases hc : close s₁ with ⟨e | u, s₂⟩
    · simp only [hi, hc] at h
      cases h
    · simp only [hi, hc] at h
      cases h
      exact ⟨s₁, rfl, hc⟩

theorem tried_of_ok {r : Reader α} {s s' : Bytes} {a : α} (h : r s = (.ok a, s')) :
    tried r s = (.ok (some a), s') := by
  unfold tried
  rw [h]

end Turnstile.Json
