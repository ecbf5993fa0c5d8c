import Mathlib.Data.List.TakeWhile
import Turnstile.Proofs.Bcrypt

/-! Which passwords a hash accepts: those with the same key. A key holds the first seventy-two bytes of
a password and nothing of the rest. -/

namespace Turnstile

/-- Only the null character has a null byte. -/
theorem zero_notMem_utf8 {s : String} (h : '\x00' ∉ s.toList) : 0 ∉ utf8 s := by
  intro hmem
  rw [utf8_eq_charBytes] at hmem
  obtain ⟨c, hc, hbyte⟩ := List.mem_flatMap.mp hmem
  by_cases hascii : c.toNat < 0x80
  · rw [utf8EncodeChar_of_lt hascii] at hbyte
    have hzero : c.toNat.toUInt8.toNat = 0 := congrArg UInt8.toNat (List.mem_singleton.mp hbyte).symm
    have hnat : c.toNat = 0 := by
      rw [← hzero]
      exact (Nat.mod_eq_of_lt (Nat.lt_trans hascii (by decide))).symm
    have hnull : c = '\x00' := by
      rw [← Char.ofNat_toNat c, hnat]
    exact h (hnull ▸ hc)
  · have hbeyond := le_of_mem_utf8EncodeChar (Nat.not_lt.mp hascii) hbyte
    exact absurd hbeyond (by decide)

theorem utf8_injective {s t : String} (h : utf8 s = utf8 t) : s = t := by
  have hread := ofUtf8?_utf8 s
  rw [h, ofUtf8?_utf8] at hread
  exact (Option.some.inj hread).symm

namespace Bcrypt

theorem length_cycle (l : Bytes) (n : Nat) : (cycle l n).length = n := by
  simp [cycle]

/-- What is repeated comes first. -/
theorem prefix_cycle {l : Bytes} {n : Nat} (h : l.length ≤ n) : l <+: cycle l n := by
  refine List.prefix_iff_eq_take.mpr (List.ext_getElem ?_ fun i hi _ => ?_)
  · rw [List.length_take, length_cycle, Nat.min_eq_left h]
  · simp [cycle, Nat.mod_eq_of_lt hi, List.getElem?_eq_getElem hi]

/-- The text of a key ends at its first null byte, or takes up all of it. -/
theorem takeWhile_keyOf {password : String} (h : 0 ∉ utf8 password) :
    (keyOf password).takeWhile (· ≠ 0) = (utf8 password).take 72 := by
  have hall {l : Bytes} (hl : 0 ∉ l) : ∀ x ∈ l, decide (x ≠ 0) = true := fun x hx =>
    decide_eq_true fun hzero => hl (hzero ▸ hx)
  by_cases hshort : (utf8 password).length < 72
  · have hfits : (utf8 password ++ [0]).length ≤ 72 := by
      rw [List.length_append]
      exact hshort
    obtain ⟨rest, hrest⟩ := prefix_cycle hfits
    unfold keyOf
    rw [List.take_of_length_le hfits, ← hrest, List.append_assoc,
      List.takeWhile_append_of_pos (hall h), List.singleton_append,
      List.takeWhile_cons_of_neg (by simp), List.append_nil,
      List.take_of_length_le (Nat.le_of_lt hshort)]
  · have hlong : 72 ≤ (utf8 password).length := Nat.not_lt.mp hshort
    have hlength : ((utf8 password).take 72).length = 72 := by
      rw [List.length_take, Nat.min_eq_left hlong]
    have hkey : keyOf password = (utf8 password).take 72 := by
      unfold keyOf
      rw [List.take_append_of_le_length hlong]
      refine (List.IsPrefix.eq_of_length (prefix_cycle (Nat.le_of_eq hlength)) ?_).symm
      rw [hlength, length_cycle]
    rw [hkey]
    exact List.takeWhile_eq_self_iff.mpr (hall fun hmem => h (List.mem_of_mem_take hmem))

/-- Keys agree if passwords agree in what fits into a key. -/
theorem keyOf_congr {p q : String} (h : (utf8 q).take 72 = (utf8 p).take 72) :
    keyOf q = keyOf p := by
  have hcut (l : Bytes) : (l ++ [0]).take 72 = (l.take 72 ++ [0]).take 72 := by
    have hroom : 72 - min 72 l.length = 72 - l.length := by omega
    rw [List.take_append, List.take_append, List.take_take, Nat.min_self, List.length_take, hroom]
  unfold keyOf
  rw [hcut (utf8 q), h, ← hcut]

theorem keyOf_eq_iff {p q : String} (hp : '\x00' ∉ p.toList) (hq : '\x00' ∉ q.toList) :
    keyOf q = keyOf p ↔ (utf8 q).take 72 = (utf8 p).take 72 := by
  refine ⟨fun h => ?_, keyOf_congr⟩
  rw [← takeWhile_keyOf (zero_notMem_utf8 hp), ← takeWhile_keyOf (zero_notMem_utf8 hq), h]

end Bcrypt

namespace Password

open Bcrypt

/-- Different keys that happen to have the same digest. -/
def Collide (salt : Draw) (p q : String) : Prop :=
  keyOf q ≠ keyOf p ∧ digest cost salt (keyOf q) = digest cost salt (keyOf p)

/-- The hash of a password accepts the password, always answers for another one, and accepts that
exactly if the keys are the same, or collide. Without null characters the keys are the same only for the
same password, or for two that are at least as long as a key and agree in its seventy-two bytes. -/
theorem accepts_iff_same_key (salt : Draw) (p q : String) :
    verify p (hash salt p) = .ok true ∧ (∃ b, verify q (hash salt p) = .ok b) ∧
    (verify q (hash salt p) = .ok true ↔ keyOf q = keyOf p ∨ Collide salt p q) ∧
    ('\x00' ∉ p.toList → '\x00' ∉ q.toList →
      (keyOf q = keyOf p ↔ q = p ∨ 72 ≤ (utf8 p).length ∧ 72 ≤ (utf8 q).length ∧
        (utf8 q).take 72 = (utf8 p).take 72)) := by
  refine ⟨verify_hash salt p, ⟨_, verify_hash_eq salt p q⟩, ?_, fun hp hq => ?_⟩
  · rw [verify_hash_eq, Except.ok.injEq, decide_eq_true_iff]
    constructor
    · intro hdigest
      by_cases hkey : keyOf q = keyOf p
      · exact .inl hkey
      · exact .inr ⟨hkey, hdigest⟩
    · rintro (hkey | ⟨-, hdigest⟩)
      · rw [hkey]
      · exact hdigest
  · rw [keyOf_eq_iff hp hq]
    constructor
    · intro hsame
      have hlength := congrArg List.length hsame
      simp only [List.length_take] at hlength
      by_cases hlong : 72 ≤ (utf8 p).length ∧ 72 ≤ (utf8 q).length
      · exact .inr ⟨hlong.1, hlong.2, hsame⟩
      · -- One of the two fits into a key with room to spare, so the other is no longer.
        rw [List.take_of_length_le (by omega), List.take_of_length_le (by omega)] at hsame
        exact .inl (utf8_injective hsame)
    · rintro (rfl | ⟨-, -, hsame⟩)
      · rfl
      · exact hsame

/-- Another password is accepted only by a collision. -/
theorem accepts_iff_same_key_other_password :
    verify "correct horse" (hash (.replicate 16 0) "correct horse") = .ok true ∧
      (verify "battery staple" (hash (.replicate 16 0) "correct horse") = .ok true ↔
        Collide (.replicate 16 0) "correct horse" "battery staple") := by
  obtain ⟨hown, -, hother, hkeys⟩ :=
    accepts_iff_same_key (.replicate 16 0) "correct horse" "battery staple"
  have hlength : (utf8 "correct horse").length < 72 := by
    rw [utf8_eq_charBytes]
    decide
  have hkey : ¬ keyOf "battery staple" = keyOf "correct horse" := by
    rw [hkeys (by decide) (by decide)]
    rintro (heq | ⟨hlong, -⟩)
    · exact absurd heq (by decide)
    · exact absurd hlong (Nat.not_le.mpr hlength)
  exact ⟨hown, hother.trans (or_iff_right hkey)⟩

/-- The claim that only the password itself is accepted fails: a password of seventy-two letters is not
told from the same with one more. -/
theorem longer_password_accepted :
    validate (String.ofList (List.replicate 72 'a')) = .ok () ∧
      validate (String.ofList (List.replicate 73 'a')) = .ok () ∧
      String.ofList (List.replicate 73 'a') ≠ String.ofList (List.replicate 72 'a') ∧
      ∀ salt, verify (String.ofList (List.replicate 73 'a'))
        (hash salt (String.ofList (List.replicate 72 'a'))) = .ok true := by
  have hbytes (n : Nat) : utf8 (String.ofList (List.replicate n 'a')) = List.replicate n 97 := by
    rw [utf8_ofList, charBytes_of_ascii, List.map_replicate]
    · rfl
    · intro c hc
      rw [(List.mem_replicate.mp hc).2]
      decide
  have hkey : keyOf (String.ofList (List.replicate 73 'a')) =
      keyOf (String.ofList (List.replicate 72 'a')) := by
    apply keyOf_congr
    rw [hbytes, hbytes, List.take_replicate, List.take_replicate]
    rfl
  refine ⟨rfl, rfl, by decide, fun salt => ?_⟩
  rw [verify_hash_eq, hkey]
  exact congrArg Except.ok (decide_eq_true rfl)

end Password

end Turnstile
