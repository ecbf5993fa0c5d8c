import Turnstile.Proofs.Json.Text

/-! Decimal numbers: what is written for a natural number of 64 bits is read back. -/

namespace Turnstile.Json

/-- A byte that can follow a value inside a list or record. -/
def IsDelimiter (d : UInt8) : Prop :=
  d = byte ',' ∨ d = byte ']' ∨ d = byte '\x7d' ∨ d = byte '\n'

theorem IsDelimiter.comma : IsDelimiter (byte ',') := .inl rfl

theorem IsDelimiter.bracket : IsDelimiter (byte ']') := .inr (.inl rfl)

theorem IsDelimiter.brace : IsDelimiter (byte '\x7d') := .inr (.inr (.inl rfl))

theorem IsDelimiter.newline : IsDelimiter (byte '\n') := .inr (.inr (.inr rfl))

/-- The digits of a number, as bytes. -/
def digitBytes (n : Nat) : Bytes :=
  (Nat.toDigits 10 n).map fun c => c.toNat.toUInt8

private theorem isDigit_iff {c : Char} : c.isDigit = true ↔ 0x30 ≤ c.toNat ∧ c.toNat ≤ 0x39 := by
  unfold Char.isDigit
  simp only [Bool.and_eq_true, decide_eq_true_eq, ge_iff_le, UInt32.le_iff_toNat_le]
  rfl

private theorem toNat_toUInt8_of_isDigit {c : Char} (h : c.isDigit = true) :
    c.toNat.toUInt8.toNat = c.toNat := by
  have := isDigit_iff.mp h
  exact Nat.mod_eq_of_lt (by omega)

theorem charBytes_toDigits (n : Nat) : charBytes (Nat.toDigits 10 n) = digitBytes n := by
  refine charBytes_of_ascii fun c hc => ?_
  have := isDigit_iff.mp (Nat.isDigit_of_mem_toDigits (by decide) (by decide) hc)
  omega

theorem isDigit_of_mem_digitBytes {n : Nat} {b : UInt8} (hb : b ∈ digitBytes n) :
    isDigit b = true := by
  obtain ⟨c, hc, rfl⟩ := List.mem_map.mp hb
  have hdigit := Nat.isDigit_of_mem_toDigits (by decide) (by decide) hc
  have hrange := isDigit_iff.mp hdigit
  have hnat := toNat_toUInt8_of_isDigit hdigit
  unfold isDigit
  simp only [Bool.and_eq_true, decide_eq_true_eq, UInt8.le_iff_toNat_le, hnat]
  exact hrange

theorem digitBytes_ne_nil (n : Nat) : digitBytes n ≠ [] := by
  unfold digitBytes
  simp

private theorem head?_toDigits {n : Nat} (hn : n ≠ 0) : (Nat.toDigits 10 n).head? ≠ some '0' := by
  induction n using Nat.strongRecOn with
  | _ n ih =>
    by_cases hlt : n < 10
    · rw [Nat.toDigits_of_lt_base hlt]
      simpa using hn
    · have hrec := ih (n / 10) (by omega) (by omega)
      rw [Nat.toDigits_of_base_le (by decide) (by omega)]
      cases hds : Nat.toDigits 10 (n / 10) with
      | nil => exact absurd hds Nat.toDigits_ne_nil
      | cons d ds => simpa [hds] using hrec

/-- There is no leading zero before other digits. -/
private theorem digitBytes_no_leading_zero (n : Nat) :
    ¬ ((digitBytes n).head? = some 0x30 ∧ 1 < (digitBytes n).length) := by
  rintro ⟨hhead, hlen⟩
  have hn : n ≠ 0 := by
    rintro rfl
    exact absurd hlen (by decide)
  unfold digitBytes at hhead
  rw [List.head?_map] at hhead
  obtain ⟨c, hc, hbyte⟩ := Option.map_eq_some_iff.mp hhead
  have hmem : c ∈ Nat.toDigits 10 n := List.mem_of_mem_head? hc
  have hnat := toNat_toUInt8_of_isDigit (Nat.isDigit_of_mem_toDigits (by decide) (by decide) hmem)
  refine head?_toDigits hn (hc.trans (congrArg some (Char.toNat_inj.mp ?_)))
  rw [← hnat, hbyte]
  rfl

private theorem le_ofDigitChars (l : List Char) (m : Nat) : m ≤ Nat.ofDigitChars 10 l m := by
  rw [Nat.ofDigitChars_eq_ofDigitChars_zero]
  have : 1 * m ≤ 10 ^ l.length * m := Nat.mul_le_mul_right m (Nat.pow_pos (by decide))
  omega

private theorem appendDigits_map {l : List Char} (hl : ∀ c ∈ l, c.isDigit = true) {m : Nat}
    (hm : Nat.ofDigitChars 10 l m < 1 <<< 64) :
    appendDigits m (l.map fun c => c.toNat.toUInt8) = (Nat.ofDigitChars 10 l m, []) := by
  induction l generalizing m with
  | nil => rfl
  | cons c l ih =>
    have hnat := toNat_toUInt8_of_isDigit (hl c (by simp))
    rw [Nat.ofDigitChars_cons] at hm ⊢
    have hle := le_ofDigitChars l (10 * m + (c.toNat - '0'.toNat))
    have hzero : '0'.toNat = 0x30 := rfl
    rw [List.map_cons, appendDigits]
    simp only [hnat]
    rw [← hzero, if_pos (by omega)]
    exact ih (fun d hd => hl d (by simp [hd])) hm

theorem appendDigits_digitBytes {n : Nat} (hn : n < 1 <<< 64) :
    appendDigits 0 (digitBytes n) = (n, []) := by
  have hback : Nat.ofDigitChars 10 (Nat.toDigits 10 n) 0 = n := Nat.ofDigitChars_ten_toDigits
  have hdigits : ∀ c ∈ Nat.toDigits 10 n, c.isDigit = true := fun c hc =>
    Nat.isDigit_of_mem_toDigits (by decide) (by decide) hc
  unfold digitBytes
  rw [appendDigits_map hdigits (by omega), hback]

theorem takeWhile_digitBytes (n : Nat) {d : UInt8} (hd : IsDelimiter d) (rest : Bytes) :
    (digitBytes n ++ d :: rest).takeWhile isDigit = digitBytes n ∧
      (digitBytes n ++ d :: rest).dropWhile isDigit = d :: rest := by
  have hall : ∀ b ∈ digitBytes n, isDigit b = true := fun b => isDigit_of_mem_digitBytes
  have hnot : isDigit d = false := by
    rcases hd with rfl | rfl | rfl | rfl <;> decide
  rw [List.takeWhile_append_of_pos hall, List.dropWhile_append_of_pos hall]
  simp [hnot]

private theorem wholeDigits_digitBytes (n : Nat) {d : UInt8} (hd : IsDelimiter d) (rest : Bytes) :
    wholeDigits (digitBytes n ++ d :: rest) = (.ok (digitBytes n), d :: rest) := by
  obtain ⟨htake, hdrop⟩ := takeWhile_digitBytes n hd rest
  have hrun : digitRun (digitBytes n ++ d :: rest) = (.ok (digitBytes n), d :: rest) := by
    change (Except.ok ((digitBytes n ++ d :: rest).takeWhile isDigit),
      (digitBytes n ++ d :: rest).dropWhile isDigit) = _
    rw [htake, hdrop]
  have hrun₁ : digitRun1 (digitBytes n ++ d :: rest) = (.ok (digitBytes n), d :: rest) := by
    unfold digitRun1
    rw [bind_of_ok hrun, if_neg (digitBytes_ne_nil n)]
    rfl
  unfold wholeDigits
  rw [bind_of_ok hrun₁, if_neg (digitBytes_no_leading_zero n)]
  rfl

/-- After its digits a number ends where a delimiter stands. -/
private theorem ends_delimiter {d : UInt8} (hd : IsDelimiter d) (rest : Bytes) :
    fraction? (d :: rest) = (.ok none, d :: rest) ∧
      exponentLetter (d :: rest) = (.ok false, d :: rest) := by
  rcases hd with rfl | rfl | rfl | rfl <;> exact ⟨rfl, rfl⟩

/-- The digits of a number of 64 bits are read back as that number. -/
theorem number_digitBytes {n : Nat} (hn : n < 1 <<< 64) {d : UInt8} (hd : IsDelimiter d)
    (rest : Bytes) : number (digitBytes n ++ d :: rest) = (.ok (.whole n), d :: rest) := by
  have hsign : ¬ (digitBytes n ++ d :: rest).head? = some (byte '-') := by
    cases hds : digitBytes n with
    | nil => exact absurd hds (digitBytes_ne_nil n)
    | cons b ds =>
      have hb : isDigit b = true := isDigit_of_mem_digitBytes (n := n) (by simp [hds])
      intro he
      obtain rfl : b = byte '-' := by simpa using he
      exact absurd hb (by decide)
  obtain ⟨hfraction, hexponent⟩ := ends_delimiter hd rest
  unfold number
  rw [bind_of_ok (get_apply _)]
  simp only [hsign, if_false]
  rw [bind_of_ok (wholeDigits_digitBytes n hd rest), appendDigits_digitBytes hn]
  simp only
  rw [bind_of_ok hfraction, bind_of_ok hexponent]
  simp

/-- A negative number down to the least of 64 bits is read back from its sign and digits. -/
theorem number_neg_digitBytes {n : Nat} (hpos : n ≠ 0) (hn : n ≤ 1 <<< 63) {d : UInt8}
    (hd : IsDelimiter d) (rest : Bytes) :
    number (byte '-' :: (digitBytes n ++ d :: rest)) = (.ok (.whole (-n)), d :: rest) := by
  have hlt : n < 1 <<< 64 := Nat.lt_of_le_of_lt hn (by decide)
  obtain ⟨hfraction, hexponent⟩ := ends_delimiter hd rest
  have hsign : (byte '-' :: (digitBytes n ++ d :: rest)).head? = some (byte '-') := rfl
  unfold number
  rw [bind_of_ok (get_apply _), if_pos hsign, bind_of_ok (advance_apply _), List.tail_cons]
  dsimp only
  rw [bind_of_ok (wholeDigits_digitBytes n hd rest), appendDigits_digitBytes hlt]
  dsimp only
  rw [bind_of_ok hfraction, bind_of_ok hexponent, if_pos ⟨rfl, by simp, rfl⟩, if_pos hsign,
    if_pos ⟨hpos, hn⟩]
  rfl

end Turnstile.Json
