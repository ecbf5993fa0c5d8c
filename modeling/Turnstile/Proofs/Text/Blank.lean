import Turnstile.Text.Blank

/-! Trimming takes away the blanks around a word and leaves the word. -/

namespace Turnstile

theorem isBlank_of_visible {x : Char} (h : 0x20 < x.toNat ∧ x.toNat < 0x7f) :
    isBlank x = false := by
  obtain ⟨hlow, hhigh⟩ := h
  unfold isBlank
  simp only [Bool.or_eq_false_iff, Bool.and_eq_false_imp, decide_eq_true_eq, decide_eq_false_iff_not]
  omega

theorem trimBlanks_append {left word right : List Char} (hleft : ∀ x ∈ left, isBlank x = true)
    (hword : ∀ x ∈ word, isBlank x = false) (hright : ∀ x ∈ right, isBlank x = true) :
    trimBlanks (left ++ word ++ right) = word := by
  have hkeep {l : List Char} (hl : ∀ x ∈ l, isBlank x = false) : l.dropWhile isBlank = l := by
    cases l with
    | nil => rfl
    | cons x l => exact List.dropWhile_cons_of_neg (by simp [hl x])
  have hfront : (left ++ word ++ right).dropWhile isBlank = (word ++ right).dropWhile isBlank := by
    rw [List.append_assoc, List.dropWhile_append_of_pos hleft]
  have hback : (word ++ right).reverse.dropWhile isBlank = word.reverse := by
    rw [List.reverse_append,
      List.dropWhile_append_of_pos fun x hx => hright x (List.mem_reverse.mp hx)]
    exact hkeep fun x hx => hword x (List.mem_reverse.mp hx)
  unfold trimBlanks
  rw [hfront]
  cases word with
  | nil =>
    have hnone : right.dropWhile isBlank = [] := by
      rw [← List.append_nil right, List.dropWhile_append_of_pos hright]
      rfl
    rw [List.nil_append, hnone]
    rfl
  | cons x word =>
    have hx : ¬ isBlank x = true := by simp [hword x]
    rw [List.cons_append, List.dropWhile_cons_of_neg hx, ← List.cons_append, hback,
      List.reverse_reverse]

def Padded (word text : List Char) : Prop :=
  ∃ left right, (∀ x ∈ left, isBlank x = true) ∧ (∀ x ∈ right, isBlank x = true) ∧
    text = left ++ word ++ right

theorem padded_trimBlanks (text : List Char) : Padded (trimBlanks text) text := by
  have hblank {l : List Char} : ∀ x ∈ l.takeWhile isBlank, isBlank x = true :=
    List.all_eq_true.mp List.all_takeWhile
  let inner := (text.dropWhile isBlank).reverse
  refine ⟨text.takeWhile isBlank, (inner.takeWhile isBlank).reverse, hblank,
    fun x hx => hblank x (List.mem_reverse.mp hx), ?_⟩
  have hinner : trimBlanks text ++ (inner.takeWhile isBlank).reverse = inner.reverse := by
    unfold trimBlanks
    rw [← List.reverse_append, List.takeWhile_append_dropWhile]
  rw [List.append_assoc, hinner, List.reverse_reverse, List.takeWhile_append_dropWhile]

def Stripped (word : List Char) : Prop :=
  (∀ x ∈ word.head?, isBlank x = false) ∧ ∀ x ∈ word.getLast?, isBlank x = false

private theorem not_blank_of_mem_head?_dropWhile {l : List Char} {x : Char}
    (hx : x ∈ (l.dropWhile isBlank).head?) : isBlank x = false := by
  have hnot := List.head?_dropWhile_not isBlank l
  rw [Option.mem_def.mp hx] at hnot
  exact hnot

theorem stripped_trimBlanks (text : List Char) : Stripped (trimBlanks text) := by
  let inner := text.dropWhile isBlank
  refine ⟨fun x hx => ?_, fun x hx => ?_⟩
  · -- Taking blanks off the back leaves the front alone, unless nothing is left.
    have hsuffix : trimBlanks text <+: inner := by
      have h := List.reverse_prefix.mpr (List.dropWhile_suffix (l := inner.reverse) isBlank)
      rwa [List.reverse_reverse] at h
    obtain ⟨rest, hrest⟩ := hsuffix
    refine not_blank_of_mem_head?_dropWhile (l := text) ?_
    change x ∈ inner.head?
    rw [← hrest, List.head?_append, Option.mem_def.mp hx]
    rfl
  · refine not_blank_of_mem_head?_dropWhile (l := inner.reverse) ?_
    unfold trimBlanks at hx
    rwa [List.getLast?_reverse] at hx

theorem trimBlanks_eq_nil {text : List Char} (h : ∀ x ∈ text, isBlank x = true) :
    trimBlanks text = [] := by
  have h := trimBlanks_append h (List.forall_mem_nil _) (List.forall_mem_nil _)
  simpa using h

theorem Padded.trimBlanks_eq {word text : List Char} (h : Padded word text)
    (hword : ∀ x ∈ word, isBlank x = false) : trimBlanks text = word := by
  obtain ⟨left, right, hleft, hright, rfl⟩ := h
  exact trimBlanks_append hleft hword hright

end Turnstile
