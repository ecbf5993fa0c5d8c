import Mathlib.Tactic.SplitIfs
import Turnstile.Proofs.Text.Utf8
import Turnstile.SortedSet

/-! Texts are in the order of their UTF-8 bytes. -/

namespace Turnstile

private theorem cons_lt_cons_ofNat {m n : Nat} {xs ys : Bytes} (hn : n < 256)
    (h : m < n ∨ m = n ∧ xs < ys) : UInt8.ofNat m :: xs < UInt8.ofNat n :: ys := by
  rw [List.cons_lt_cons_iff]
  rcases h with h | ⟨rfl, h⟩
  · refine .inl (UInt8.lt_iff_toNat_lt.mpr ?_)
    rwa [UInt8.toNat_ofNat', UInt8.toNat_ofNat', Nat.mod_eq_of_lt hn,
      Nat.mod_eq_of_lt (Nat.lt_trans h hn)]
  · exact .inr ⟨rfl, h⟩

/-- The bytes of a lesser character come first, whatever follows them. -/
theorem utf8EncodeChar_lt {c d : Char} (h : c < d) (xs ys : Bytes) :
    String.utf8EncodeChar c ++ xs < String.utf8EncodeChar d ++ ys := by
  have hlt : c.val.toNat < d.val.toNat := h
  have hmax : d.val.toNat < 0x110000 := by
    have hvalid := d.valid
    unfold UInt32.isValidChar Nat.isValidChar at hvalid
    omega
  unfold String.utf8EncodeChar
  generalize c.val.toNat = v at hlt
  generalize d.val.toNat = w at hlt hmax
  dsimp only
  -- The first bytes differ unless both characters have the same number of them.
  split_ifs <;> simp only [List.cons_append, List.nil_append] <;> try omega
  · exact cons_lt_cons_ofNat (by omega) (by omega)
  · exact cons_lt_cons_ofNat (by omega) (by omega)
  · exact cons_lt_cons_ofNat (by omega) (by omega)
  · exact cons_lt_cons_ofNat (by omega) (by omega)
  · refine cons_lt_cons_ofNat (by omega) ?_
    by_cases h₁ : v / 64 = w / 64
    · exact .inr ⟨by omega, cons_lt_cons_ofNat (by omega) (by omega)⟩
    · exact .inl (by omega)
  · exact cons_lt_cons_ofNat (by omega) (by omega)
  · exact cons_lt_cons_ofNat (by omega) (by omega)
  · refine cons_lt_cons_ofNat (by omega) ?_
    by_cases h₁ : v / 4096 = w / 4096
    · refine .inr ⟨by omega, cons_lt_cons_ofNat (by omega) ?_⟩
      by_cases h₂ : v / 64 = w / 64
      · exact .inr ⟨by omega, cons_lt_cons_ofNat (by omega) (by omega)⟩
      · exact .inl (by omega)
    · exact .inl (by omega)
  · exact cons_lt_cons_ofNat (by omega) (by omega)
  · refine cons_lt_cons_ofNat (by omega) ?_
    by_cases h₁ : v / 262144 = w / 262144
    · refine .inr ⟨by omega, cons_lt_cons_ofNat (by omega) ?_⟩
      by_cases h₂ : v / 4096 = w / 4096
      · refine .inr ⟨by omega, cons_lt_cons_ofNat (by omega) ?_⟩
        by_cases h₃ : v / 64 = w / 64
        · exact .inr ⟨by omega, cons_lt_cons_ofNat (by omega) (by omega)⟩
        · exact .inl (by omega)
      · exact .inl (by omega)
    · exact .inl (by omega)

/-- One byte after the other, as one character after the other. -/
theorem charBytes_lt {cs ds : List Char} (h : cs < ds) : charBytes cs < charBytes ds := by
  induction cs generalizing ds with
  | nil =>
    cases ds with
    | nil => exact absurd h (List.lt_irrefl [])
    | cons d ds =>
      have hne : charBytes (d :: ds) ≠ [] := by simp [charBytes_cons]
      obtain ⟨b, bs, hbytes⟩ := List.exists_cons_of_ne_nil hne
      rw [hbytes]
      exact List.nil_lt_cons b bs
  | cons c cs ih =>
    cases ds with
    | nil => exact absurd h (List.not_lt_nil _)
    | cons d ds =>
      rw [charBytes_cons, charBytes_cons]
      rcases List.cons_lt_cons_iff.mp h with hcd | ⟨rfl, hrest⟩
      · exact utf8EncodeChar_lt hcd _ _
      · exact List.append_left_lt (ih hrest)

/-- The order of texts is that of their bytes. -/
theorem utf8_lt_iff {s t : String} : utf8 s < utf8 t ↔ s < t := by
  have hmono {s t : String} (h : s < t) : utf8 s < utf8 t := by
    rw [utf8_eq_charBytes, utf8_eq_charBytes]
    exact charBytes_lt (String.lt_iff.mp h)
  refine ⟨fun h => ?_, hmono⟩
  refine Decidable.byContradiction fun hnot => ?_
  by_cases hgt : t < s
  · exact List.lt_asymm h (hmono hgt)
  · obtain rfl : s = t := LinearLT.connected hnot hgt
    exact List.lt_irrefl _ h

end Turnstile
