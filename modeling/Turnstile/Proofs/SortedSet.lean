import Turnstile.SortedSet

/-! What a sorted set holds, and that this is all there is to it. -/

namespace Turnstile.SortedSet

/-- Sets with the same elements are the same. -/
theorem eq_of_mem_iff {α : Type} [LT α] [LinearLT α] (hirrefl : ∀ a : α, ¬ a < a)
    {s t : SortedSet α} (h : ∀ a, a ∈ s ↔ a ∈ t) : s = t := by
  have hnodup (s : SortedSet α) : s.elems.Nodup := by
    refine List.Pairwise.imp ?_ s.increasing
    rintro a _ hlt rfl
    exact hirrefl a hlt
  have hperm : s.elems.Perm t.elems := (List.perm_ext_iff_of_nodup (hnodup s) (hnodup t)).mpr h
  have heq : s.elems = t.elems :=
    hperm.eq_of_pairwise (fun a b _ _ hab hba => absurd (LinearLT.trans hab hba) (hirrefl a))
      s.increasing t.increasing
  obtain ⟨l, hl⟩ := s
  obtain ⟨m, hm⟩ := t
  obtain rfl : l = m := heq
  rfl

section

variable {α : Type} [LT α] [DecidableLT α] [LinearLT α] {a x : α}

theorem mem_insertSorted {l : List α} : x ∈ insertSorted a l ↔ x = a ∨ x ∈ l := by
  refine ⟨mem_of_mem_insertSorted, fun h => ?_⟩
  induction l with
  | nil => simpa [insertSorted] using h
  | cons b rest ih =>
    unfold insertSorted
    by_cases hab : a < b
    · simpa [hab] using h
    · by_cases hba : b < a
      · simp only [hab, hba, if_true, if_false, List.mem_cons] at h ⊢
        rcases h with rfl | rfl | h
        · exact .inr (ih (.inl rfl))
        · exact .inl rfl
        · exact .inr (ih (.inr h))
      · obtain rfl : a = b := LinearLT.connected hab hba
        simpa [hab] using h

@[simp] theorem mem_insert {s : SortedSet α} : x ∈ s.insert a ↔ x = a ∨ x ∈ s :=
  mem_insertSorted

private theorem mem_foldl_insert (l : List α) (s : SortedSet α) :
    x ∈ l.foldl (fun s a => s.insert a) s ↔ x ∈ s ∨ x ∈ l := by
  induction l generalizing s with
  | nil => simp
  | cons a l ih =>
    rw [List.foldl_cons, ih, mem_insert, List.mem_cons]
    exact or_assoc.trans or_left_comm

@[simp] theorem mem_ofList {l : List α} : x ∈ ofList l ↔ x ∈ l := by
  have hempty : x ∉ (⟨[], .nil⟩ : SortedSet α) := List.not_mem_nil
  unfold ofList
  rw [mem_foldl_insert]
  exact or_iff_right hempty

end

/-- A set is made again from its elements. -/
theorem ofList_elems (s : SortedSet String) : ofList s.elems = s :=
  eq_of_mem_iff String.lt_irrefl fun _ => mem_ofList

end Turnstile.SortedSet
