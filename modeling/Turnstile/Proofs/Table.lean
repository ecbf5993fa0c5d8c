import Turnstile.Table

/-! What a table holds after an insertion or an erasure. -/

namespace Turnstile.Table

variable {α : Type} (t : Table α) (key k : String) (v : α)

@[simp] theorem get?_empty : ({} : Table α).get? k = none := rfl

private theorem lookup_filter_ne (l : List (String × α)) :
    (l.filter fun e => e.1 ≠ key).lookup k = if k = key then none else l.lookup k := by
  induction l with
  | nil => simp
  | cons e rest ih =>
    obtain ⟨k', v⟩ := e
    by_cases hk : k' = key
    · subst hk
      rw [List.filter_cons_of_neg (by simp), ih]
      by_cases hkk : k = k'
      · simp [hkk]
      · simp [hkk, List.lookup_cons, beq_eq_false_iff_ne.mpr hkk]
    · rw [List.filter_cons_of_pos (by simpa using hk), List.lookup_cons, List.lookup_cons, ih]
      by_cases hkk : k = k'
      · subst hkk
        simp [hk]
      · simp [beq_eq_false_iff_ne.mpr hkk]

@[simp] theorem get?_erase : (t.erase key).get? k = if k = key then none else t.get? k :=
  lookup_filter_ne key k t.entries

@[simp] theorem get?_insert : (t.insert key v).get? k = if k = key then some v else t.get? k := by
  have h := get?_erase t key k
  unfold get? at h ⊢
  rw [insert, List.lookup_cons]
  by_cases hk : k = key
  · simp [hk]
  · simpa [hk, beq_eq_false_iff_ne.mpr hk] using h

theorem erase_ne (h : t.get? key = some v) : t.erase key ≠ t := by
  intro heq
  have hnone : (t.erase key).get? key = none := by simp
  rw [heq, h] at hnone
  cases hnone

theorem contains_eq_false : t.contains key = false ↔ t.get? key = none :=
  Option.isSome_eq_false_iff.trans Option.isNone_iff_eq_none

@[simp] theorem contains_insert :
    (t.insert key v).contains k = true ↔ k = key ∨ t.contains k = true := by
  unfold contains
  rw [get?_insert]
  by_cases hk : k = key <;> simp [hk]

theorem size_insert (h : t.get? key = none) : (t.insert key v).size = t.size + 1 := by
  have hne : ∀ e ∈ t.entries, decide (e.1 ≠ key) = true := by
    intro e he
    have hbeq := List.lookup_eq_none_iff.mp h e he
    exact decide_eq_true fun heq => by simp [heq] at hbeq
  have herase : (t.erase key).entries = t.entries := List.filter_eq_self.mpr hne
  unfold size insert
  rw [herase, List.length_cons]

section

variable (f : α → String) (x : String)

theorem count_erase_le :
    ((t.erase key).entries.map fun e => f e.2).count x ≤ (t.entries.map fun e => f e.2).count x :=
  (List.filter_sublist.map _).count_le x

private theorem count_filter_lt (l : List (String × α)) (h : l.lookup key = some v) (hx : f v = x) :
    ((l.filter fun e => e.1 ≠ key).map fun e => f e.2).count x + 1 ≤
      (l.map fun e => f e.2).count x := by
  induction l with
  | nil => simp at h
  | cons e rest ih =>
    obtain ⟨k, v'⟩ := e
    by_cases hk : k = key
    · subst hk
      obtain rfl : v' = v := by simpa [List.lookup_cons] using h
      rw [List.filter_cons_of_neg (by simp), List.map_cons, List.count_cons, hx]
      have hle : ((rest.filter fun e => e.1 ≠ k).map fun e => f e.2).count x ≤
          (rest.map fun e => f e.2).count x := (List.filter_sublist.map _).count_le x
      simpa using hle
    · rw [List.lookup_cons, beq_eq_false_iff_ne.mpr (Ne.symm hk)] at h
      rw [List.filter_cons_of_pos (by simpa using hk), List.map_cons, List.map_cons,
        List.count_cons, List.count_cons]
      have hrec := ih h
      omega

/-- Erasing an entry takes it away. -/
theorem count_erase_lt (h : t.get? key = some v) (hx : f v = x) :
    ((t.erase key).entries.map fun e => f e.2).count x + 1 ≤
      (t.entries.map fun e => f e.2).count x :=
  count_filter_lt key v f x t.entries h hx

theorem count_insert_le :
    ((t.insert key v).entries.map fun e => f e.2).count x ≤
      (t.entries.map fun e => f e.2).count x + [f v].count x := by
  have h := count_erase_le t key f x
  simp only [insert, List.map_cons, List.count_cons, List.count_nil]
  omega

theorem count_pos_of_get? (h : t.get? key = some v) :
    0 < (t.entries.map fun e => f e.2).count (f v) := by
  have := count_erase_lt t key v f (f v) h rfl
  omega

end

end Turnstile.Table
