import Mathlib.Data.List.GetD
import Mathlib.Data.List.Nodup
import Turnstile.Base64
import Turnstile.Proofs.Text.Utf8

/-! Base64 text reads back as the bytes it was made from. -/

namespace Turnstile.Base64

/-- An alphabet that can be read back: its symbols differ and are ASCII, and none of them is the
padding sign. -/
structure Alphabet.Proper (a : Alphabet) : Prop where
  length : a.symbols.length = 64
  nodup : a.symbols.Nodup
  ascii : ∀ c ∈ a.symbols, c.toNat < 0x80
  noPadding : '=' ∉ a.symbols

-- A statement about all characters of a list is decided by its list, not by all characters.
private theorem ascii_of_all {l : List Char} (h : l.all fun c => c.toNat < 0x80) :
    ∀ c ∈ l, c.toNat < 0x80 :=
  fun c hc => of_decide_eq_true (List.all_eq_true.mp h c hc)

theorem urlSafe_proper : urlSafe.Proper where
  length := by decide
  nodup := by decide
  ascii := ascii_of_all (by decide)
  noPadding := by decide

theorem bcrypt_proper : bcrypt.Proper where
  length := by decide
  nodup := by decide
  ascii := ascii_of_all (by decide)
  noPadding := by decide

namespace Alphabet

variable {a : Alphabet}

theorem symbol_mem (ha : a.Proper) (n : Nat) : a.symbol n ∈ a.symbols := by
  have hn : n % 64 < a.symbols.length := by
    rw [ha.length]
    exact Nat.mod_lt _ (by decide)
  unfold symbol
  rw [List.getD_eq_getElem _ _ hn]
  exact List.getElem_mem hn

theorem mem_symbols_of_mem_encodeChars (ha : a.Proper) {b : Bytes} {c : Char}
    (h : c ∈ a.encodeChars b) : c ∈ a.symbols := by
  fun_induction encodeChars a b with
  | case1 => simp at h
  | case2 x n =>
    rcases (by simpa using h) with rfl | rfl <;> exact symbol_mem ha _
  | case3 x y n =>
    rcases (by simpa using h) with rfl | rfl | rfl <;> exact symbol_mem ha _
  | case4 x y z rest n ih =>
    rcases (by simpa using h) with rfl | rfl | rfl | rfl | h
    all_goals first | exact symbol_mem ha _ | exact ih h

theorem charBytes_encodeChars (ha : a.Proper) (b : Bytes) :
    charBytes (a.encodeChars b) = (a.encodeChars b).map fun c => c.toNat.toUInt8 :=
  charBytes_of_ascii fun _ hc => ha.ascii _ (mem_symbols_of_mem_encodeChars ha hc)

private theorem toNat_toUInt8 {n : Nat} (h : n < 0x80) : n.toUInt8.toNat = n :=
  Nat.mod_eq_of_lt (by omega)

theorem value_symbol (ha : a.Proper) (n offset : Nat) :
    a.value (a.symbol n).toNat.toUInt8 offset = .ok (n % 64) := by
  have hn : n % 64 < a.symbols.length := by
    rw [ha.length]
    exact Nat.mod_lt _ (by decide)
  have hs : a.symbol n = a.symbols[n % 64] := List.getD_eq_getElem _ _ hn
  have hlt : (a.symbol n).toNat < 0x80 := ha.ascii _ (symbol_mem ha n)
  have hfind : (a.symbols.findIdx? fun c => c.toNat = (a.symbol n).toNat.toUInt8.toNat) =
      some (n % 64) := by
    rw [List.findIdx?_eq_some_iff_getElem, toNat_toUInt8 hlt, hs]
    refine ⟨hn, by simp, fun j hj => ?_⟩
    have hne : a.symbols[j] ≠ a.symbols[n % 64] := fun he =>
      absurd ((ha.nodup.getElem_inj_iff).mp he) (by omega)
    simpa using fun he => hne (Char.toNat_inj.mp he)
  unfold value
  rw [hfind]

theorem symbol_ne_padding (ha : a.Proper) (n : Nat) :
    (a.symbol n).toNat.toUInt8 ≠ '='.toNat.toUInt8 := by
  have hlt : (a.symbol n).toNat < 0x80 := ha.ascii _ (symbol_mem ha n)
  intro h
  have hnat : (a.symbol n).toNat = '='.toNat := by
    rw [← toNat_toUInt8 hlt, h]
    rfl
  exact ha.noPadding (Char.toNat_inj.mp hnat ▸ symbol_mem ha n)

private theorem ofNat_eq {x : UInt8} {n : Nat} (h : n % 256 = x.toNat) : UInt8.ofNat n = x := by
  rw [← UInt8.toNat_inj, UInt8.toNat_ofNat', h]

/-- Bytes are read back from the symbols made of them. -/
theorem decodeFrom_encodeChars (ha : a.Proper) (b : Bytes) (offset : Nat) :
    a.decodeFrom offset ((a.encodeChars b).map fun c => c.toNat.toUInt8) = .ok b := by
  fun_induction encodeChars a b generalizing offset with
  | case1 => rfl
  | case2 x n =>
    have hx := x.toNat_lt
    have hn : n = x.toNat * 16 := Nat.shiftLeft_eq _ _
    have hsum : (n >>> 6 % 64) <<< 6 + n % 64 = n := by
      simp only [Nat.shiftLeft_eq, Nat.shiftRight_eq_div_pow]
      omega
    simp only [List.map_cons, List.map_nil, decodeFrom, value_symbol ha, bind, Except.bind, hsum]
    rw [if_neg (by omega)]
    congr 2
    exact ofNat_eq (by rw [Nat.shiftRight_eq_div_pow]; omega)
  | case3 x y n =>
    have hx := x.toNat_lt
    have hy := y.toNat_lt
    have hn : n = (x.toNat * 256 + y.toNat) * 4 := by
      change (x.toNat <<< 8 + y.toNat) <<< 2 = _
      simp only [Nat.shiftLeft_eq]
    have hsum : (n >>> 12 % 64) <<< 12 + (n >>> 6 % 64) <<< 6 + n % 64 = n := by
      simp only [Nat.shiftLeft_eq, Nat.shiftRight_eq_div_pow]
      omega
    simp only [List.map_cons, List.map_nil, decodeFrom, value_symbol ha, bind, Except.bind, hsum,
      if_neg (symbol_ne_padding ha n)]
    rw [if_neg (by omega)]
    have hfirst : UInt8.ofNat (n >>> 10) = x :=
      ofNat_eq (by rw [Nat.shiftRight_eq_div_pow]; omega)
    have hsecond : UInt8.ofNat (n >>> 2) = y :=
      ofNat_eq (by rw [Nat.shiftRight_eq_div_pow]; omega)
    rw [hfirst, hsecond]
    rfl
  | case4 x y z rest n ih =>
    have hx := x.toNat_lt
    have hy := y.toNat_lt
    have hz := z.toNat_lt
    have hn : n = (x.toNat * 256 + y.toNat) * 256 + z.toNat := by
      change x.toNat <<< 16 + y.toNat <<< 8 + z.toNat = _
      simp only [Nat.shiftLeft_eq]
      omega
    have hsum : (n >>> 18 % 64) <<< 18 + (n >>> 12 % 64) <<< 12 + (n >>> 6 % 64) <<< 6 + n % 64 =
        n := by
      simp only [Nat.shiftLeft_eq, Nat.shiftRight_eq_div_pow]
      omega
    simp only [List.map_cons, decodeFrom, value_symbol ha, bind, Except.bind, hsum, ih]
    have hfirst : UInt8.ofNat (n >>> 16) = x :=
      ofNat_eq (by rw [Nat.shiftRight_eq_div_pow]; omega)
    have hsecond : UInt8.ofNat (n >>> 8) = y :=
      ofNat_eq (by rw [Nat.shiftRight_eq_div_pow]; omega)
    have hthird : UInt8.ofNat n = z := ofNat_eq (by omega)
    rw [hfirst, hsecond, hthird]
    rfl

theorem utf8_encode (ha : a.Proper) (b : Bytes) :
    utf8 (a.encode b) = (a.encodeChars b).map fun c => c.toNat.toUInt8 := by
  rw [encode, utf8_ofList, charBytes_encodeChars ha]

@[simp] theorem decode_utf8_encode (ha : a.Proper) (b : Bytes) :
    a.decode (utf8 (a.encode b)) = .ok b := by
  rw [utf8_encode ha, decode, decodeFrom_encodeChars ha]

theorem exists_symbol_of_value {x : UInt8} {offset n : Nat} (h : a.value x offset = .ok n) :
    ∃ c ∈ a.symbols, c.toNat = x.toNat := by
  unfold value at h
  cases hfind : a.symbols.findIdx? fun c => c.toNat = x.toNat with
  | none =>
    rw [hfind] at h
    cases h
  | some i =>
    obtain ⟨hi, hc, -⟩ := List.findIdx?_eq_some_iff_getElem.mp hfind
    exact ⟨a.symbols[i], List.getElem_mem hi, of_decide_eq_true hc⟩

private theorem exists_of_bind_ok {β γ : Type} {r : Except Fault β} {f : β → Except Fault γ}
    {x : γ} (h : (r >>= f) = .ok x) : ∃ y, r = .ok y ∧ f y = .ok x := by
  cases r with
  | error e => cases h
  | ok y => exact ⟨y, rfl, h⟩

/-- A text that is decoded consists of symbols. -/
theorem exists_symbol_of_decodeFrom {text b : Bytes} {offset : Nat}
    (h : a.decodeFrom offset text = .ok b) : ∀ x ∈ text, ∃ c ∈ a.symbols, c.toNat = x.toNat := by
  fun_induction decodeFrom a offset text generalizing b with
  | case1 => simp
  | case2 => cases h
  | case3 offset p q =>
    obtain ⟨v, hp, h⟩ := exists_of_bind_ok h
    obtain ⟨w, hq, -⟩ := exists_of_bind_ok h
    simp only [List.forall_mem_cons, List.not_mem_nil, false_implies, implies_true, and_true]
    exact ⟨exists_symbol_of_value hp, exists_symbol_of_value hq⟩
  | case4 offset p q r =>
    obtain ⟨v, hp, h⟩ := exists_of_bind_ok h
    obtain ⟨w, hq, h⟩ := exists_of_bind_ok h
    simp only [List.forall_mem_cons, List.not_mem_nil, false_implies, implies_true, and_true]
    refine ⟨exists_symbol_of_value hp, exists_symbol_of_value hq, ?_⟩
    split_ifs at h
    · cases h
    · obtain ⟨x, hr, -⟩ := exists_of_bind_ok h
      exact exists_symbol_of_value hr
  | case5 offset p q r s rest ih =>
    obtain ⟨v, hp, h⟩ := exists_of_bind_ok h
    obtain ⟨w, hq, h⟩ := exists_of_bind_ok h
    obtain ⟨x, hr, h⟩ := exists_of_bind_ok h
    obtain ⟨y, hs, h⟩ := exists_of_bind_ok h
    obtain ⟨tail, htail, -⟩ := exists_of_bind_ok h
    simp only [List.forall_mem_cons]
    exact ⟨exists_symbol_of_value hp, exists_symbol_of_value hq, exists_symbol_of_value hr,
      exists_symbol_of_value hs, ih htail⟩

/-- Characters that are decoded are symbols. -/
theorem mem_symbols_of_decode (ha : a.Proper) {cs : List Char} {b : Bytes}
    (h : a.decode (utf8 (String.ofList cs)) = .ok b) : ∀ c ∈ cs, c ∈ a.symbols := by
  intro c hc
  have hbytes : ∀ x ∈ charBytes cs, ∃ s ∈ a.symbols, s.toNat = x.toNat :=
    utf8_ofList cs ▸ exists_symbol_of_decodeFrom h
  have hmem : ∀ x ∈ String.utf8EncodeChar c, x ∈ charBytes cs :=
    fun x hx => List.mem_flatMap.mpr ⟨c, hc, hx⟩
  rcases Nat.lt_or_ge c.toNat 0x80 with hlt | hge
  · obtain ⟨s, hs, heq⟩ := hbytes c.toNat.toUInt8 (hmem _ (by simp [utf8EncodeChar_of_lt hlt]))
    rw [toNat_toUInt8 hlt] at heq
    exact Char.toNat_inj.mp heq ▸ hs
  · obtain ⟨x, hx⟩ := List.exists_mem_of_ne_nil _ (String.utf8EncodeChar_ne_nil (c := c))
    obtain ⟨s, hs, heq⟩ := hbytes x (hmem x hx)
    have hbeyond : 0x80 ≤ x.toNat := UInt8.le_iff_toNat_le.mp (le_of_mem_utf8EncodeChar hge hx)
    exact absurd (ha.ascii s hs) (by omega)

end Alphabet

end Turnstile.Base64
