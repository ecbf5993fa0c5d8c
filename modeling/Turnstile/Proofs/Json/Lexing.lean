import Mathlib.Tactic.SplitIfs
import Turnstile.Json.Reader

/-! Where a byte stands in a JSON text: how many brackets are open around it, and whether it is inside
a quoted text. A reader that goes wrong is told by the bytes it has left behind. -/

namespace Turnstile.Json

inductive Mode where
  /-- Nothing but brackets. -/
  | plain
  /-- A literal, with the bytes still to come. -/
  | word (left : Bytes)
  /-- A quoted text. -/
  | text
  /-- A quoted text, right after a backslash. -/
  | escape
  deriving Repr, DecidableEq

/-- A place: the number of open brackets and what else has begun. -/
abbrev Place := Nat × Mode

def isNumberByte (b : UInt8) : Bool :=
  isDigit b || b = byte '-' || b = byte '+' || b = byte '.' || b = byte 'e' || b = byte 'E'

/-- The place after a byte outside texts and literals. Separators stand inside brackets only. -/
def plainByte (depth : Nat) (b : UInt8) : Option Place :=
  if isSpace b || isNumberByte b then some (depth, .plain)
  else if b = byte '"' then some (depth, .text)
  else if b = byte '[' || b = byte '\x7b' then some (depth + 1, .plain)
  else if b = byte ']' || b = byte '\x7d' then
    match depth with
    | 0 => none
    | depth + 1 => some (depth, .plain)
  else if b = byte ',' || b = byte ':' then
    match depth with
    | 0 => none
    | depth + 1 => some (depth + 1, .plain)
  else
    match literalFrom b with
    | some word => some (depth, .word (word.tail.map byte))
    | none => none

def lexByte : Place → UInt8 → Option Place
  | (depth, .plain), b => plainByte depth b
  | (_, .word []), _ => none
  | (depth, .word (c :: left)), b =>
    if b = c then some (depth, if left = [] then .plain else .word left) else none
  | (depth, .text), b =>
    if b = byte '"' then some (depth, .plain)
    else if b = byte '\\' then some (depth, .escape)
    else some (depth, .text)
  | (depth, .escape), _ => some (depth, .text)

def lex : Place → Bytes → Option Place
  | p, [] => some p
  | p, b :: s => (lexByte p b).bind fun p => lex p s

@[simp] theorem lex_nil (p : Place) : lex p [] = some p := rfl

theorem lex_cons (p : Place) (b : UInt8) (s : Bytes) :
    lex p (b :: s) = (lexByte p b).bind fun p => lex p s := rfl

theorem lex_append (p : Place) (c s : Bytes) :
    lex p (c ++ s) = (lex p c).bind fun p => lex p s := by
  induction c generalizing p with
  | nil => rfl
  | cons b c ih =>
    rw [List.cons_append, lex_cons, lex_cons]
    cases lexByte p b with
    | none => rfl
    | some p => exact ih p

theorem lex_of_append {p q : Place} {c s : Bytes} (h : lex p c = some q) :
    lex p (c ++ s) = lex q s := by
  rw [lex_append, h]
  rfl

/-- Bytes that can be placed can be placed up to any point. -/
theorem exists_lex_of_append {p : Place} {c s : Bytes} (h : (lex p (c ++ s)).isSome) :
    ∃ q, lex p c = some q ∧ (lex q s).isSome := by
  rw [lex_append] at h
  cases hc : lex p c with
  | none =>
    rw [hc] at h
    cases h
  | some q =>
    rw [hc] at h
    exact ⟨q, rfl, h⟩

private theorem plainByte_add {depth k : Nat} {b : UInt8} {q : Place}
    (h : plainByte depth b = some q) : plainByte (depth + k) b = some (q.1 + k, q.2) := by
  unfold plainByte at h ⊢
  split_ifs at h ⊢ with h₁ h₂ h₃ h₄ h₅
  · cases h
    rfl
  · cases h
    rfl
  · cases h
    simp only [Option.some.injEq, Prod.mk.injEq, and_true]
    omega
  · cases depth with
    | zero => cases h
    | succ depth =>
      cases h
      rw [Nat.succ_add]
  · cases depth with
    | zero => cases h
    | succ depth =>
      cases h
      rw [Nat.succ_add]
  · cases hw : literalFrom b with
    | none =>
      rw [hw] at h
      cases h
    | some word =>
      rw [hw] at h
      cases h
      rfl

theorem lexByte_add {depth : Nat} {m : Mode} {b : UInt8} {q : Place}
    (h : lexByte (depth, m) b = some q) (k : Nat) :
    lexByte (depth + k, m) b = some (q.1 + k, q.2) := by
  cases m with
  | plain => exact plainByte_add h
  | word left =>
    cases left with
    | nil => cases h
    | cons c left =>
      simp only [lexByte] at h ⊢
      split_ifs at h ⊢ <;> cases h <;> rfl
  | text =>
    simp only [lexByte] at h ⊢
    split_ifs at h ⊢ <;> cases h <;> rfl
  | escape =>
    cases h
    rfl

/-- Brackets around some bytes do not change what the bytes do. -/
theorem lex_add {depth : Nat} {m : Mode} {s : Bytes} {q : Place} (h : lex (depth, m) s = some q)
    (k : Nat) : lex (depth + k, m) s = some (q.1 + k, q.2) := by
  induction s generalizing depth m with
  | nil =>
    cases h
    rfl
  | cons b s ih =>
    rw [lex_cons] at h ⊢
    cases hb : lexByte (depth, m) b with
    | none =>
      rw [hb] at h
      cases h
    | some p =>
      rw [hb] at h
      rw [lexByte_add hb k]
      exact ih h

/-- What is left from the first byte on that has no place. -/
def beyond : Place → Bytes → Bytes
  | _, [] => []
  | p, b :: s =>
    match lexByte p b with
    | some p => beyond p s
    | none => b :: s

theorem beyond_of_append {p q : Place} {c : Bytes} (h : lex p c = some q) (s : Bytes) :
    beyond p (c ++ s) = beyond q s := by
  induction c generalizing p with
  | nil =>
    cases h
    rfl
  | cons b c ih =>
    rw [lex_cons] at h
    cases hb : lexByte p b with
    | none =>
      rw [hb] at h
      cases h
    | some p₁ =>
      rw [hb] at h
      rw [List.cons_append, beyond, hb]
      exact ih h

/-- White space leads nowhere else. -/
theorem lex_spaces {c : Bytes} (hc : ∀ b ∈ c, isSpace b = true) (depth : Nat) :
    lex (depth, .plain) c = some (depth, .plain) := by
  induction c with
  | nil => rfl
  | cons b c ih =>
    have hb : lexByte (depth, .plain) b = some (depth, .plain) := by
      simp [lexByte, plainByte, hc b (by simp)]
    rw [lex_cons, hb]
    exact ih fun x hx => hc x (by simp [hx])

theorem isSpace_of_mem_takeWhile {s : Bytes} {b : UInt8} (hb : b ∈ s.takeWhile isSpace) :
    isSpace b = true :=
  List.all_eq_true.mp List.all_takeWhile b hb

theorem lex_takeWhile_isSpace (s : Bytes) (depth : Nat) :
    lex (depth, .plain) (s.takeWhile isSpace) = some (depth, .plain) :=
  lex_spaces (fun _ => isSpace_of_mem_takeWhile) depth

/-- However a value was read, it has ended where a comma or a closing brace follows. -/
theorem beyond_value {c s t : Bytes} {b : UInt8} (h : lex (0, .plain) c = some (0, .plain))
    (hs : s.dropWhile isSpace = b :: t) (hb : b = byte ',' ∨ b = byte '\x7d') :
    beyond (0, .plain) (c ++ s) = s.dropWhile isSpace := by
  rw [beyond_of_append h, ← List.takeWhile_append_dropWhile (p := isSpace) (l := s),
    beyond_of_append (lex_takeWhile_isSpace s 0), List.takeWhile_append_dropWhile, hs]
  rcases hb with rfl | rfl <;> rfl

def isLower (b : UInt8) : Bool :=
  0x61 ≤ b && b ≤ 0x7a

/-- A mode outside of texts. A literal has letters only. -/
def Mode.Outside : Mode → Prop
  | .plain => True
  | .word left => left.all isLower = true
  | .text | .escape => False

theorem Mode.plain_outside : Mode.plain.Outside := trivial

/-- Inside a text in one reading and outside in the other. -/
def Opposite (m n : Mode) : Prop :=
  (m = .text ∧ n.Outside) ∨ (m.Outside ∧ n = .text)

private theorem literalFrom_outside {b : UInt8} {word : List Char} (h : literalFrom b = some word) :
    (Mode.word (word.tail.map byte)).Outside := by
  unfold literalFrom at h
  split_ifs at h <;> cases h <;> exact rfl

private theorem plainByte_outside {d : Nat} {b : UInt8} {p : Place} (h : plainByte d b = some p) :
    (b = byte '"' ∧ p.2 = .text) ∨ (b ≠ byte '"' ∧ b ≠ byte '\\' ∧ p.2.Outside) := by
  by_cases hq : b = byte '"'
  · subst hq
    cases h
    exact .inl ⟨rfl, rfl⟩
  by_cases hs : b = byte '\\'
  · subst hs
    cases h
  refine .inr ⟨hq, hs, ?_⟩
  unfold plainByte at h
  split_ifs at h
  · cases h
    trivial
  · cases h
    trivial
  · cases d <;> cases h
    trivial
  · cases d <;> cases h
    trivial
  · cases hw : literalFrom b with
    | none =>
      rw [hw] at h
      cases h
    | some word =>
      rw [hw] at h
      cases h
      exact literalFrom_outside hw

/-- Outside of texts only a quote leads into one, and there is no backslash. -/
theorem lexByte_outside {d : Nat} {m : Mode} {b : UInt8} {p : Place} (hm : m.Outside)
    (h : lexByte (d, m) b = some p) :
    (b = byte '"' ∧ p.2 = .text) ∨ (b ≠ byte '"' ∧ b ≠ byte '\\' ∧ p.2.Outside) := by
  cases m with
  | plain => exact plainByte_outside h
  | word left =>
    cases left with
    | nil => cases h
    | cons c left =>
      obtain ⟨hc, hleft⟩ : isLower c = true ∧ left.all isLower = true := by
        simpa only [Mode.Outside, List.all_cons, Bool.and_eq_true] using hm
      have hne {x : UInt8} (hx : isLower x = false) : c ≠ x := by
        rintro rfl
        rw [hc] at hx
        cases hx
      have hq : c ≠ byte '"' := hne (by decide)
      have hs : c ≠ byte '\\' := hne (by decide)
      simp only [lexByte] at h
      split_ifs at h with hb hl
      · cases h
        subst hb
        exact .inr ⟨hq, hs, trivial⟩
      · cases h
        subst hb
        exact .inr ⟨hq, hs, hleft⟩
  | text => exact hm.elim
  | escape => exact hm.elim

/-- Whatever has begun is a text, or else nothing that holds a quote. -/
def Mode.Proper (m : Mode) : Prop :=
  m = .text ∨ m = .escape ∨ m.Outside

theorem Mode.plain_proper : Mode.plain.Proper := .inr (.inr plain_outside)

private theorem lexByte_proper {p q : Place} {b : UInt8} (hp : p.2.Proper)
    (h : lexByte p b = some q) : q.2.Proper := by
  obtain ⟨d, m⟩ := p
  rcases hp with hm | hm | hm
  · obtain rfl : m = .text := hm
    simp only [lexByte] at h
    split_ifs at h <;> cases h
    · exact .inr (.inr trivial)
    · exact .inr (.inl rfl)
    · exact .inl rfl
  · obtain rfl : m = .escape := hm
    cases h
    exact .inl rfl
  · rcases lexByte_outside hm h with ⟨-, hq⟩ | ⟨-, -, hq⟩
    · exact .inl hq
    · exact .inr (.inr hq)

theorem lex_proper {p q : Place} {c : Bytes} (hp : p.2.Proper) (h : lex p c = some q) :
    q.2.Proper := by
  induction c generalizing p with
  | nil =>
    cases h
    exact hp
  | cons b c ih =>
    rw [lex_cons] at h
    cases hb : lexByte p b with
    | none =>
      rw [hb] at h
      cases h
    | some p₁ =>
      rw [hb] at h
      exact ih (lexByte_proper hp hb) h

/-- Two readings on opposite sides of the quotes stay there, as long as both make sense. -/
private theorem lexByte_opposite {d d' : Nat} {m n : Mode} {b : UInt8} {p q : Place}
    (ho : Opposite m n) (hp : lexByte (d, m) b = some p) (hq : lexByte (d', n) b = some q) :
    Opposite p.2 q.2 := by
  have htext {d : Nat} {p : Place} (h : lexByte (d, .text) b = some p) (hs : b ≠ byte '\\') :
      p.2 = if b = byte '"' then .plain else .text := by
    simp only [lexByte, hs, if_false] at h
    split_ifs at h ⊢ <;> cases h <;> rfl
  rcases ho with ⟨rfl, hn⟩ | ⟨hm, rfl⟩
  · rcases lexByte_outside hn hq with ⟨rfl, hq₂⟩ | ⟨hb, hs, hq₂⟩
    · exact .inr ⟨by rw [htext hp (by decide)]; trivial, hq₂⟩
    · exact .inl ⟨by rw [htext hp hs, if_neg hb], hq₂⟩
  · rcases lexByte_outside hm hp with ⟨rfl, hp₂⟩ | ⟨hb, hs, hp₂⟩
    · exact .inl ⟨hp₂, by rw [htext hq (by decide)]; trivial⟩
    · exact .inr ⟨hp₂, by rw [htext hq hs, if_neg hb]⟩

theorem lex_opposite {d d' : Nat} {m n : Mode} {s : Bytes} {p q : Place}
    (ho : Opposite m n) (hp : lex (d, m) s = some p) (hq : lex (d', n) s = some q) :
    Opposite p.2 q.2 := by
  induction s generalizing d d' m n with
  | nil =>
    cases hp
    cases hq
    exact ho
  | cons b s ih =>
    rw [lex_cons] at hp hq
    cases hpb : lexByte (d, m) b with
    | none =>
      rw [hpb] at hp
      cases hp
    | some p₁ =>
      cases hqb : lexByte (d', n) b with
      | none =>
        rw [hqb] at hq
        cases hq
      | some q₁ =>
        rw [hpb] at hp
        rw [hqb] at hq
        exact ih (lexByte_opposite ho hpb hqb) hp hq

end Turnstile.Json
