import Turnstile.Text.Utf8

/-! Text as bytes and back: a text is read back from its bytes, one byte for each ASCII character
and bytes beyond ASCII only for the others. -/

namespace Turnstile

def charBytes (cs : List Char) : Bytes :=
  cs.flatMap String.utf8EncodeChar

@[simp] theorem charBytes_nil : charBytes [] = [] := rfl

theorem charBytes_cons (c : Char) (cs : List Char) :
    charBytes (c :: cs) = String.utf8EncodeChar c ++ charBytes cs := rfl

@[simp] theorem charBytes_append (cs ds : List Char) :
    charBytes (cs ++ ds) = charBytes cs ++ charBytes ds :=
  List.flatMap_append

theorem toList_toByteArray (b : Bytes) : b.toByteArray.data.toList = b := by
  rw [List.data_toByteArray]

theorem utf8_ofList (cs : List Char) : utf8 (String.ofList cs) = charBytes cs := by
  unfold utf8
  rw [String.toUTF8_eq_toByteArray, String.toByteArray_ofList]
  exact toList_toByteArray _

theorem utf8_eq_charBytes (s : String) : utf8 s = charBytes s.toList := by
  rw [← utf8_ofList, String.ofList_toList]

@[simp] theorem ofUtf8?_utf8 (s : String) : ofUtf8? (utf8 s) = some s := by
  have h : (⟨(utf8 s).toArray⟩ : ByteArray) = s.toByteArray := rfl
  unfold ofUtf8? String.fromUTF8?
  rw [h, dif_pos s.isValidUTF8]
  rfl

/-- A text that is read has just the bytes it is read from. -/
theorem utf8_of_ofUtf8? {b : Bytes} {s : String} (h : ofUtf8? b = some s) : utf8 s = b := by
  unfold ofUtf8? String.fromUTF8? at h
  by_cases hvalid : ByteArray.IsValidUTF8 ⟨b.toArray⟩
  · rw [dif_pos hvalid] at h
    cases h
    rfl
  · rw [dif_neg hvalid] at h
    cases h

/-- An ASCII character has one byte. -/
theorem utf8EncodeChar_of_lt {c : Char} (h : c.toNat < 0x80) :
    String.utf8EncodeChar c = [c.toNat.toUInt8] := by
  have hv : c.val.toNat ≤ 0x7f := by
    have : c.val.toNat = c.toNat := rfl
    omega
  unfold String.utf8EncodeChar
  rw [if_pos hv]
  rfl

/-- The bytes of any other character lie beyond ASCII. -/
theorem le_of_mem_utf8EncodeChar {c : Char} (h : 0x80 ≤ c.toNat) {b : UInt8}
    (hb : b ∈ String.utf8EncodeChar c) : 0x80 ≤ b := by
  have hv : ¬ c.val.toNat ≤ 0x7f := by
    have : c.val.toNat = c.toNat := rfl
    omega
  have key : ∀ n k : Nat, 0x80 ≤ k → n + k < 0x100 → (0x80 : UInt8) ≤ UInt8.ofNat (n + k) := by
    intro n k hk hn
    rw [UInt8.le_iff_toNat_le, UInt8.toNat_ofNat', Nat.mod_eq_of_lt hn]
    change 0x80 ≤ n + k
    omega
  unfold String.utf8EncodeChar at hb
  rw [if_neg hv] at hb
  split at hb
  · simp only [List.mem_cons, List.not_mem_nil, or_false] at hb
    rcases hb with rfl | rfl <;> exact key _ _ (by omega) (by omega)
  split at hb <;> simp only [List.mem_cons, List.not_mem_nil, or_false] at hb
  · rcases hb with rfl | rfl | rfl <;> exact key _ _ (by omega) (by omega)
  · rcases hb with rfl | rfl | rfl | rfl <;> exact key _ _ (by omega) (by omega)

/-- The bytes of ASCII characters, one for each. -/
theorem charBytes_of_ascii {cs : List Char} (h : ∀ c ∈ cs, c.toNat < 0x80) :
    charBytes cs = cs.map fun c => c.toNat.toUInt8 := by
  induction cs with
  | nil => rfl
  | cons c cs ih =>
    rw [charBytes_cons, utf8EncodeChar_of_lt (h c (by simp)), ih fun d hd => h d (by simp [hd])]
    rfl

end Turnstile
