import Mathlib.Data.List.DropRight
import Turnstile.Proofs.Json.Number

/-! White space in written values: where it stands, and readers that pass over it. -/

namespace Turnstile.Json

def Blank (b : Bytes) : Prop :=
  ∀ x ∈ b, isSpace x = true

theorem blank_nil : Blank [] := nofun

/-- A reader that passes over white space before what it reads. -/
def Lenient {α : Type} (r : Reader α) : Prop :=
  ∀ s, r (s.dropWhile isSpace) = r s

theorem lenient_peek_bind {α : Type} (f : Option UInt8 → Reader α) : Lenient (peek >>= f) := by
  intro s
  rw [bind_apply, bind_apply, peek_apply, peek_apply, List.dropWhile_idempotent]

theorem Lenient.append {α : Type} {r : Reader α} (hr : Lenient r) {sp : Bytes} (hsp : Blank sp)
    (s : Bytes) : r (sp ++ s) = r s := by
  rw [← hr (sp ++ s), List.dropWhile_append_of_pos hsp, hr]

theorem lenient_readText : Lenient readText := lenient_peek_bind _

theorem lenient_readInt64 : Lenient readInt64 := lenient_peek_bind _

theorem lenient_readBool : Lenient readBool := lenient_peek_bind _

theorem lenient_readList (item : Reader Json) : Lenient (readList item) := lenient_peek_bind _

theorem lenient_hasItem (first : Bool) : Lenient (hasItem first) := lenient_peek_bind _

theorem lenient_memberName? (first : Bool) : Lenient (memberName? first) := lenient_peek_bind _

theorem lenient_skipFrom_value (fuel : Nat) (stack : List Bracket) :
    Lenient (skipFrom (fuel + 1) .value stack) :=
  lenient_peek_bind _

theorem lenient_skipFrom_more (fuel : Nat) (first : Bool) (b : Bracket) (stack : List Bracket) :
    Lenient (skipFrom (fuel + 1) (.more first) (b :: stack)) :=
  lenient_peek_bind _

/-- The white space before the entries of a list or record, and before its closing bracket, which
is on the same line or begins one of its own. -/
structure Spacing where
  before : List Char
  close : List Char
  before_blank : Blank (charBytes before)
  close_blank : Blank (charBytes close)
  close_head : ∀ c ∈ close.head?, c = '\n'

namespace Spacing

def tight : Spacing where
  before := []
  close := []
  before_blank := nofun
  close_blank := nofun
  close_head := nofun

theorem blank_newline (n : Nat) : Blank (charBytes (newline n)) := by
  intro x hx
  have hascii : ∀ c ∈ newline n, c = '\n' ∨ c = ' ' := by
    intro c hc
    exact (List.mem_cons.mp hc).imp_right List.eq_of_mem_replicate
  rw [charBytes_of_ascii (fun c hc => by rcases hascii c hc with rfl | rfl <;> decide)] at hx
  obtain ⟨c, hc, rfl⟩ := List.mem_map.mp hx
  rcases hascii c hc with rfl | rfl <;> decide

/-- Entries on lines of their own, inside a value that is indented from step `n`. -/
def lines (n : Nat) : Spacing where
  before := newline (n + 1)
  close := newline n
  before_blank := blank_newline (n + 1)
  close_blank := blank_newline n
  close_head := by
    intro c hc
    exact (Option.some.inj hc).symm

variable (σ : Spacing)

/-- The entries after the first one, up to the closing bracket. -/
def moreEntries : List (List Char) → List Char
  | [] => σ.close
  | e :: es => ',' :: (σ.before ++ (e ++ moreEntries es))

def entries (left right : Char) : List (List Char) → List Char
  | [] => [left, right]
  | e :: es => left :: (σ.before ++ (e ++ (σ.moreEntries es ++ [right])))

theorem charBytes_moreEntries_cons (e : List Char) (es : List (List Char)) (rest : Bytes) :
    charBytes (σ.moreEntries (e :: es)) ++ rest =
      byte ',' :: (charBytes σ.before ++
        (charBytes e ++ (charBytes (σ.moreEntries es) ++ rest))) := by
  have hcomma : String.utf8EncodeChar ',' = [byte ','] := rfl
  rw [moreEntries, charBytes_cons, charBytes_append, charBytes_append, hcomma]
  simp only [List.cons_append, List.nil_append, List.append_assoc]

theorem charBytes_entries_cons {left right : Char} (hl : left.toNat < 0x80)
    (hr : right.toNat < 0x80) (e : List Char) (es : List (List Char)) (rest : Bytes) :
    charBytes (σ.entries left right (e :: es)) ++ rest =
      byte left :: (charBytes σ.before ++
        (charBytes e ++ (charBytes (σ.moreEntries es) ++ byte right :: rest))) := by
  have hleft : String.utf8EncodeChar left = [byte left] := utf8EncodeChar_of_lt hl
  have hright : String.utf8EncodeChar right = [byte right] := utf8EncodeChar_of_lt hr
  rw [entries, charBytes_cons, charBytes_append, charBytes_append, charBytes_append,
    charBytes_cons, charBytes_nil, hleft, hright]
  simp only [List.cons_append, List.nil_append, List.append_nil, List.append_assoc]

/-- What follows an entry is a comma, a closing bracket or a new line. -/
theorem moreEntries_delimited (es : List (List Char)) {b : UInt8} (hb : IsDelimiter b)
    (rest : Bytes) :
    ∃ d s, IsDelimiter d ∧ charBytes (σ.moreEntries es) ++ b :: rest = d :: s := by
  cases es with
  | cons e es => exact ⟨_, _, .comma, rfl⟩
  | nil =>
    cases hclose : σ.close with
    | nil => exact ⟨b, rest, hb, by simp [moreEntries, hclose]⟩
    | cons c cs =>
      obtain rfl : c = '\n' := σ.close_head c (by simp [hclose])
      refine ⟨byte '\n', charBytes cs ++ b :: rest, .newline, ?_⟩
      rw [moreEntries, hclose]
      rfl

/-- Each entry after the first takes at least one byte. -/
theorem length_le_moreEntries (es : List (List Char)) :
    es.length ≤ (charBytes (σ.moreEntries es)).length := by
  induction es with
  | nil => exact Nat.zero_le _
  | cons e es ih =>
    rw [moreEntries, charBytes_cons, charBytes_append, charBytes_append]
    have hcomma : (String.utf8EncodeChar ',').length = 1 := rfl
    simp only [List.length_cons, List.length_append]
    omega

end Spacing

end Turnstile.Json
