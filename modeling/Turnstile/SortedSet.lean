/-! Finite sets kept as strictly increasing lists. -/

namespace Turnstile

/-- A strict linear order: transitive, and of two different elements one is the lesser. -/
class LinearLT (α : Type) [LT α] : Prop where
  trans {a b c : α} : a < b → b < c → a < c
  connected {a b : α} : ¬ a < b → ¬ b < a → a = b

instance : LinearLT String where
  trans := String.lt_trans
  connected h h' := String.le_antisymm (String.not_lt.mp h') (String.not_lt.mp h)

/-- A finite set, listed in strictly increasing order. -/
structure SortedSet (α : Type) [LT α] where
  elems : List α
  increasing : elems.Pairwise (· < ·)

namespace SortedSet

variable {α : Type} [LT α] [DecidableLT α]

instance [DecidableEq α] : DecidableEq (SortedSet α) := fun s t =>
  decidable_of_iff (s.elems = t.elems) <| by cases s; cases t; simp

/-- Insertion into an increasing list; an element already there is left alone. -/
def insertSorted (a : α) : List α → List α
  | [] => [a]
  | b :: rest =>
    if a < b then a :: b :: rest
    else if b < a then b :: insertSorted a rest
    else b :: rest

theorem mem_of_mem_insertSorted {a x : α} {l : List α} (h : x ∈ insertSorted a l) :
    x = a ∨ x ∈ l := by
  induction l with
  | nil => simpa [insertSorted] using h
  | cons b rest ih =>
    simp only [insertSorted] at h
    split at h
    · simpa using h
    · split at h
      · rcases List.mem_cons.mp h with rfl | h
        · simp
        · rcases ih h with rfl | h <;> simp_all
      · exact .inr h

theorem insertSorted_increasing [LinearLT α] (a : α) {l : List α} (h : l.Pairwise (· < ·)) :
    (insertSorted a l).Pairwise (· < ·) := by
  induction l with
  | nil => simp [insertSorted]
  | cons b rest ih =>
    obtain ⟨hb, hrest⟩ := List.pairwise_cons.mp h
    simp only [insertSorted]
    split
    · rename_i hab
      refine List.pairwise_cons.mpr ⟨fun x hx => ?_, h⟩
      rcases List.mem_cons.mp hx with rfl | hx
      · exact hab
      · exact LinearLT.trans hab (hb x hx)
    · split
      · rename_i hba
        refine List.pairwise_cons.mpr ⟨fun x hx => ?_, ih hrest⟩
        rcases mem_of_mem_insertSorted hx with rfl | hx
        · exact hba
        · exact hb x hx
      · exact h

def empty : SortedSet α := ⟨[], .nil⟩

instance : Inhabited (SortedSet α) := ⟨⟨[], .nil⟩⟩

variable [LinearLT α]

def insert (a : α) (s : SortedSet α) : SortedSet α :=
  ⟨insertSorted a s.elems, insertSorted_increasing a s.increasing⟩

def ofList (l : List α) : SortedSet α :=
  l.foldl (fun s a => s.insert a) ⟨[], .nil⟩

instance : Membership α (SortedSet α) := ⟨fun s a => a ∈ s.elems⟩

instance [DecidableEq α] (a : α) (s : SortedSet α) : Decidable (a ∈ s) :=
  inferInstanceAs (Decidable (a ∈ s.elems))

end SortedSet

end Turnstile
