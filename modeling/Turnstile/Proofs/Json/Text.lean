import Mathlib.Tactic.SplitIfs
import Turnstile.Proofs.Json.Reader
import Turnstile.Proofs.Text.Utf8
import Turnstile.Json.Shape

/-! Quoted texts: what the writer quotes is read back, and passed over as a whole. -/

namespace Turnstile.Json

def Verbatim (b : UInt8) : Prop :=
  b ≠ byte '"' ∧ b ≠ byte '\\' ∧ ¬ b < 0x20

theorem quoted_verbatim {l : Bytes} (hl : ∀ b ∈ l, Verbatim b) (done rest : Bytes) :
    quoted .plain done (l ++ rest) = quoted .plain (l.reverse ++ done) rest := by
  induction l generalizing done with
  | nil => rfl
  | cons b l ih =>
    obtain ⟨h₁, h₂, h₃⟩ := hl b (by simp)
    have hstep : Escape.step .plain b = .go .plain [b] := by
      simp only [Escape.step, if_neg h₁, if_neg h₂, if_neg h₃]
    rw [List.cons_append, quoted, hstep]
    simp only [List.reverse_cons, List.reverse_nil, List.nil_append, List.append_assoc]
    exact ih (fun x hx => hl x (by simp [hx])) (b :: done)

theorem skipQuoted_verbatim {l : Bytes} (hl : ∀ b ∈ l, Verbatim b) (rest : Bytes) :
    skipQuoted .plain (l ++ rest) = skipQuoted .plain rest := by
  induction l with
  | nil => rfl
  | cons b l ih =>
    obtain ⟨h₁, h₂, h₃⟩ := hl b (by simp)
    rw [List.cons_append, skipQuoted, if_neg h₁, if_neg h₂, if_neg h₃]
    exact ih fun x hx => hl x (by simp [hx])

/-- A character that needs no escape has verbatim bytes. -/
theorem verbatim_of_mem_utf8EncodeChar {c : Char} (hq : c ≠ '"') (hs : c ≠ '\\')
    (hc : ¬ c.toNat < 0x20) {b : UInt8} (hb : b ∈ String.utf8EncodeChar c) : Verbatim b := by
  by_cases h : c.toNat < 0x80
  · rw [utf8EncodeChar_of_lt h, List.mem_singleton] at hb
    have hnat : b.toNat = c.toNat := by
      rw [hb]
      exact Nat.mod_eq_of_lt (by omega)
    refine ⟨fun he => hq ?_, fun he => hs ?_, fun hlt => hc ?_⟩
    · exact Char.toNat_inj.mp (hnat ▸ he ▸ rfl)
    · exact Char.toNat_inj.mp (hnat ▸ he ▸ rfl)
    · exact hnat ▸ UInt8.lt_iff_toNat_lt.mp hlt
  · have hle := UInt8.le_iff_toNat_le.mp (le_of_mem_utf8EncodeChar (Nat.le_of_not_lt h) hb)
    have h80 : (0x80 : UInt8).toNat = 128 := rfl
    refine ⟨?_, ?_, ?_⟩
    · rintro rfl
      exact absurd hle (by decide)
    · rintro rfl
      exact absurd hle (by decide)
    · intro hlt
      have h20 := UInt8.lt_iff_toNat_lt.mp hlt
      have : (0x20 : UInt8).toNat = 32 := rfl
      omega

private theorem hexValue?_hexDigit {n : Nat} (h : n < 16) :
    hexValue? (Char.ofNat (hexDigit n).toNat.toUInt8.toNat) = some n := by
  have key : ∀ n : Fin 16,
      hexValue? (Char.ofNat (hexDigit n.val).toNat.toUInt8.toNat) = some n.val := by decide
  exact key ⟨n, h⟩

private theorem charBytes_unicode {n : Nat} (h : n < 0x20) :
    charBytes ['\\', 'u', '0', '0', hexDigit (n / 16), hexDigit (n % 16)] =
      [byte '\\', byte 'u', byte '0', byte '0', (hexDigit (n / 16)).toNat.toUInt8,
        (hexDigit (n % 16)).toNat.toUInt8] := by
  have key : ∀ n : Fin 16, (hexDigit n.val).toNat < 0x80 := by decide
  have h₁ := key ⟨n / 16, by omega⟩
  have h₂ := key ⟨n % 16, by omega⟩
  refine charBytes_of_ascii fun c hc => ?_
  simp only [List.mem_cons, List.not_mem_nil, or_false] at hc
  rcases hc with rfl | rfl | rfl | rfl | rfl | rfl
  all_goals first | assumption | decide

/-- Each hexadecimal digit adds to the code unit; the fourth completes it. -/
private theorem quoted_hex {b : UInt8} {d : Nat} (hb : hexValue? (Char.ofNat b.toNat) = some d)
    (first : Option Nat) (left value : Nat) (done rest : Bytes) :
    quoted (.hex first (left + 2) value) done (b :: rest) =
      quoted (.hex first (left + 1) (16 * value + d)) done rest := by
  rw [quoted, Escape.step, hb]
  simp

private theorem quoted_hex_last {b : UInt8} {d value : Nat} {out done rest : Bytes}
    (hb : hexValue? (Char.ofNat b.toNat) = some d)
    (hout : Step.ofUnit none (16 * value + d) = .go .plain out) :
    quoted (.hex none 1 value) done (b :: rest) = quoted .plain (out.reverse ++ done) rest := by
  rw [quoted, Escape.step, hb]
  simp [hout]

private theorem quoted_unicode {c : Char} (hc : c.toNat < 0x20) (done rest : Bytes) :
    quoted .plain done
        (charBytes ['\\', 'u', '0', '0', hexDigit (c.toNat / 16), hexDigit (c.toNat % 16)] ++
          rest) =
      quoted .plain ((String.utf8EncodeChar c).reverse ++ done) rest := by
  have hzero : hexValue? (Char.ofNat (byte '0').toNat) = some 0 := by decide
  have hhigh := hexValue?_hexDigit (n := c.toNat / 16) (by omega)
  have hlow := hexValue?_hexDigit (n := c.toNat % 16) (by omega)
  have hunit : Step.ofUnit none (16 * (c.toNat / 16) + c.toNat % 16) =
      .go .plain (String.utf8EncodeChar c) := by
    unfold Step.ofUnit
    simp only [Nat.div_add_mod]
    rw [if_neg (by omega), if_neg (by omega), Char.ofNat_toNat]
  rw [charBytes_unicode hc]
  have hopen : quoted .plain done (byte '\\' :: byte 'u' :: byte '0' :: byte '0' ::
        (hexDigit (c.toNat / 16)).toNat.toUInt8 :: (hexDigit (c.toNat % 16)).toNat.toUInt8 :: rest) =
      quoted (.hex none 4 0) done (byte '0' :: byte '0' ::
        (hexDigit (c.toNat / 16)).toNat.toUInt8 :: (hexDigit (c.toNat % 16)).toNat.toUInt8 :: rest) :=
    rfl
  simp only [List.cons_append, List.nil_append]
  rw [hopen, quoted_hex hzero, quoted_hex hzero, quoted_hex hhigh]
  exact quoted_hex_last hlow (by simpa using hunit)

/-- Reading what is written for one character adds its bytes. -/
theorem quoted_escape (c : Char) (done rest : Bytes) :
    quoted .plain done (charBytes (escape c) ++ rest) =
      quoted .plain ((String.utf8EncodeChar c).reverse ++ done) rest := by
  unfold escape
  split_ifs with h₁ h₂ h₃ h₄ h₅ h₆ h₇ h₈
  · subst h₁; rfl
  · subst h₂; rfl
  · obtain rfl : c = Char.ofNat 8 := Char.toNat_inj.mp h₃
    rfl
  · obtain rfl : c = Char.ofNat 9 := Char.toNat_inj.mp h₄
    rfl
  · obtain rfl : c = Char.ofNat 10 := Char.toNat_inj.mp h₅
    rfl
  · obtain rfl : c = Char.ofNat 12 := Char.toNat_inj.mp h₆
    rfl
  · obtain rfl : c = Char.ofNat 13 := Char.toNat_inj.mp h₇
    rfl
  · exact quoted_unicode h₈ done rest
  · rw [charBytes_cons, charBytes_nil, List.append_nil]
    exact quoted_verbatim (fun b => verbatim_of_mem_utf8EncodeChar h₁ h₂ h₈) done rest

theorem quoted_chars (cs : List Char) (done rest : Bytes) :
    quoted .plain done (charBytes (cs.flatMap escape) ++ rest) =
      quoted .plain ((charBytes cs).reverse ++ done) rest := by
  induction cs generalizing done with
  | nil => rfl
  | cons c cs ih =>
    rw [List.flatMap_cons, charBytes_append, List.append_assoc, quoted_escape, ih, charBytes_cons]
    simp

theorem charBytes_quote (s : String) :
    charBytes (quote s) = byte '"' :: (charBytes (s.toList.flatMap escape) ++ [byte '"']) := by
  have hq : String.utf8EncodeChar '"' = [byte '"'] := rfl
  unfold quote
  rw [List.cons_append, charBytes_cons, charBytes_append, charBytes_cons, hq]
  rfl

/-- A quoted text is read back. -/
theorem textBody_quote (s : String) (rest : Bytes) :
    textBody (charBytes (s.toList.flatMap escape) ++ byte '"' :: rest) = (.ok s, rest) := by
  have hclose (done : Bytes) : quoted .plain done (byte '"' :: rest) = (.ok done.reverse, rest) :=
    rfl
  have hback : ofUtf8? (charBytes s.toList) = some s := by
    rw [← utf8_eq_charBytes]
    exact ofUtf8?_utf8 s
  unfold textBody
  rw [quoted_chars, hclose]
  simp [hback]

theorem readText_quote (s : String) (rest : Bytes) :
    readText (charBytes (quote s) ++ rest) = (.ok (text s), rest) := by
  have hsplit : charBytes (quote s) ++ rest =
      byte '"' :: (charBytes (s.toList.flatMap escape) ++ byte '"' :: rest) := by
    rw [charBytes_quote]
    simp
  unfold readText
  rw [hsplit, bind_of_ok (peek_cons (by decide) _), if_pos rfl, bind_of_ok (advance_apply _),
    List.tail_cons, bind_of_ok (textBody_quote s rest)]
  rfl

private theorem skipQuoted_hex {b : UInt8} {d : Nat}
    (hb : hexValue? (Char.ofNat b.toNat) = some d) (left : Nat) (rest : Bytes) :
    skipQuoted (.hex (left + 1)) (b :: rest) =
      if left = 0 then skipQuoted .plain rest else skipQuoted (.hex left) rest := by
  rw [skipQuoted, hb]
  by_cases h : left = 0 <;> simp [h]

private theorem skipQuoted_unicode {n : Nat} (hn : n < 0x20) (rest : Bytes) :
    skipQuoted .plain
        (charBytes ['\\', 'u', '0', '0', hexDigit (n / 16), hexDigit (n % 16)] ++ rest) =
      skipQuoted .plain rest := by
  have hzero : hexValue? (Char.ofNat (byte '0').toNat) = some 0 := by decide
  have hhigh := hexValue?_hexDigit (n := n / 16) (by omega)
  have hlow := hexValue?_hexDigit (n := n % 16) (by omega)
  have hopen (s : Bytes) : skipQuoted .plain (byte '\\' :: byte 'u' :: s) =
      skipQuoted (.hex 4) s := rfl
  rw [charBytes_unicode hn]
  simp only [List.cons_append, List.nil_append]
  rw [hopen, skipQuoted_hex hzero, if_neg (by decide), skipQuoted_hex hzero, if_neg (by decide),
    skipQuoted_hex hhigh, if_neg (by decide), skipQuoted_hex hlow, if_pos rfl]

private theorem skipQuoted_escape (c : Char) (rest : Bytes) :
    skipQuoted .plain (charBytes (escape c) ++ rest) = skipQuoted .plain rest := by
  unfold escape
  split_ifs with h₁ h₂ h₃ h₄ h₅ h₆ h₇ h₈
  iterate 7 rfl
  · exact skipQuoted_unicode h₈ rest
  · rw [charBytes_cons, charBytes_nil, List.append_nil]
    exact skipQuoted_verbatim (fun b => verbatim_of_mem_utf8EncodeChar h₁ h₂ h₈) rest

theorem skipQuoted_quote (s : String) (rest : Bytes) :
    skipQuoted .plain (charBytes (s.toList.flatMap escape) ++ byte '"' :: rest) =
      (.ok (), rest) := by
  induction s.toList with
  | nil => rfl
  | cons c cs ih =>
    rw [List.flatMap_cons, charBytes_append, List.append_assoc, skipQuoted_escape, ih]

end Turnstile.Json
