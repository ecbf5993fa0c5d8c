/-! Finite maps from text keys, as association lists with one entry per key. -/

namespace Turnstile

/-- Entries by key. `insert` and `erase` keep at most one entry for each key. -/
structure Table (α : Type) where
  entries : List (String × α) := []
  deriving Repr, DecidableEq

namespace Table

variable {α : Type}

instance : Inhabited (Table α) := ⟨{}⟩

def get? (t : Table α) (key : String) : Option α :=
  t.entries.lookup key

def contains (t : Table α) (key : String) : Bool :=
  (t.get? key).isSome

def erase (t : Table α) (key : String) : Table α :=
  ⟨t.entries.filter fun e => e.1 ≠ key⟩

/-- The table with `value` under `key`, in place of what was there. -/
def insert (t : Table α) (key : String) (value : α) : Table α :=
  ⟨(key, value) :: (t.erase key).entries⟩

def size (t : Table α) : Nat :=
  t.entries.length

end Table

end Turnstile
