import Turnstile.Proofs.Text.Blank
import Turnstile.Text.Integer

/-! How decimal integers are spelled: a reader of integers accepts all spellings of the integers in
its range, and nothing else. -/

namespace Turnstile

/-- Some characters are decimal digits of a number, with or without zeros in front. -/
structure Numeral (cs : List Char) (n : Nat) : Prop where
  nonempty : cs ≠ []
  digits : ∀ c ∈ cs, c.isDigit = true
  value : Nat.ofDigitChars 10 cs 0 = n

theorem numeral_toDigits (n : Nat) : Numeral (Nat.toDigits 10 n) n where
  nonempty := Nat.toDigits_ne_nil
  digits _ hc := Nat.isDigit_of_mem_toDigits (by decide) (by decide) hc
  value := Nat.ofDigitChars_ten_toDigits

private theorem foldl_step_none (cs : List Char) : cs.foldl digits?.step none = none := by
  induction cs with
  | nil => rfl
  | cons c cs ih => exact ih

private theorem foldl_step {cs : List Char} {m n : Nat} :
    cs.foldl digits?.step (some m) = some n ↔
      (∀ c ∈ cs, c.isDigit = true) ∧ Nat.ofDigitChars 10 cs m = n := by
  induction cs generalizing m with
  | nil => simp [Nat.ofDigitChars]
  | cons c cs ih =>
    rw [List.foldl_cons, Nat.ofDigitChars_cons]
    by_cases hc : c.isDigit = true
    · have hstep : digits?.step (some m) c = some (10 * m + (c.toNat - '0'.toNat)) := if_pos hc
      rw [hstep, ih]
      simp [hc]
    · have hstep : digits?.step (some m) c = none := if_neg hc
      rw [hstep, foldl_step_none]
      simp [hc]

theorem digits?_eq_some {cs : List Char} {n : Nat} : digits? cs = some n ↔ Numeral cs n := by
  cases cs with
  | nil => exact iff_of_false (fun h => nomatch h) fun h => h.nonempty rfl
  | cons c cs =>
    refine Iff.trans foldl_step ⟨?_, fun h => ⟨h.digits, h.value⟩⟩
    rintro ⟨hdigits, hvalue⟩
    exact ⟨List.cons_ne_nil c cs, hdigits, hvalue⟩

/-- Some characters spell an integer: a numeral with or without a sign. -/
inductive Spells : List Char → Int → Prop
  | plain {cs : List Char} {n : Nat} : Numeral cs n → Spells cs n
  | plus {cs : List Char} {n : Nat} : Numeral cs n → Spells ('+' :: cs) n
  | minus {cs : List Char} {n : Nat} : Numeral cs n → Spells ('-' :: cs) (-n)

/-- Every integer is spelled as it is printed. -/
theorem spells_toString (n : Int) : Spells (toString n).toList n := by
  cases n with
  | ofNat m =>
    have hprinted : (toString (Int.ofNat m)).toList = Nat.toDigits 10 m := by
      change (Nat.repr m).toList = _
      simp
    rw [hprinted]
    exact .plain (numeral_toDigits m)
  | negSucc m =>
    have hprinted : (toString (Int.negSucc m)).toList = '-' :: Nat.toDigits 10 (m + 1) := by
      change ("-" ++ Nat.repr (m + 1)).toList = _
      simp
    rw [hprinted]
    exact .minus (numeral_toDigits (m + 1))

theorem Spells.not_blank {cs : List Char} {n : Int} (h : Spells cs n) :
    ∀ c ∈ cs, isBlank c = false := by
  have hdigits {cs : List Char} {m : Nat} (h : Numeral cs m) : ∀ c ∈ cs, isBlank c = false :=
    fun c hc => isBlank_of_visible <| by
      have hlow : '0'.toNat = 0x30 := rfl
      have hhigh : '9'.toNat = 0x39 := rfl
      have := Char.isDigit_iff_toNat.mp (h.digits c hc)
      omega
  cases h with
  | plain h => exact hdigits h
  | plus h => exact List.forall_mem_cons.mpr ⟨by decide, hdigits h⟩
  | minus h => exact List.forall_mem_cons.mpr ⟨by decide, hdigits h⟩

/-- An integer of 64 bits is read from each of its spellings, and from nothing else. -/
theorem int64?_eq_some {cs : List Char} {n : Int} :
    int64? cs = some n ↔ Spells cs n ∧ int64Min ≤ n ∧ n ≤ int64Max := by
  have hsign {c : Char} {cs : List Char} {m : Nat} (h : Numeral (c :: cs) m) :
      c.isDigit = true := h.digits c List.mem_cons_self
  unfold int64?
  dsimp only
  rw [Option.filter_eq_some_iff, Bool.and_eq_true, decide_eq_true_eq, decide_eq_true_eq]
  refine and_congr_left fun _ => ?_
  split
  · rename_i rest
    have hvalue : (do let m ← digits? rest; pure (m : Int)) = (digits? rest).map Int.ofNat := by
      cases digits? rest <;> rfl
    rw [hvalue, Option.map_map, Option.map_eq_some_iff]
    constructor
    · rintro ⟨m, hm, rfl⟩
      exact .minus (digits?_eq_some.mp hm)
    · rintro (h | h | h)
      · exact absurd (hsign h) (by decide)
      · exact ⟨_, digits?_eq_some.mpr h, rfl⟩
  · rw [Option.map_eq_some_iff]
    constructor
    · rintro ⟨m, hm, rfl⟩
      exact .plus (digits?_eq_some.mp hm)
    · rintro (h | h | h)
      · exact absurd (hsign h) (by decide)
      · exact ⟨_, digits?_eq_some.mpr h, rfl⟩
  · rename_i hminus hplus
    rw [Option.map_eq_some_iff]
    constructor
    · rintro ⟨m, hm, rfl⟩
      exact .plain (digits?_eq_some.mp hm)
    · rintro (h | h | h)
      · exact ⟨_, digits?_eq_some.mpr h, rfl⟩
      · exact absurd rfl (hplus _)
      · exact absurd rfl (hminus _)

end Turnstile
