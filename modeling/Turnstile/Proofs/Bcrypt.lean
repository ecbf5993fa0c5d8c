import Turnstile.Password
import Turnstile.Proofs.Base64

/-! A password verifies against its own hash. -/

namespace Turnstile

namespace Base64.Alphabet

variable {a : Alphabet}

theorem length_encodeChars (b : Bytes) : (a.encodeChars b).length = (4 * b.length + 2) / 3 := by
  fun_induction encodeChars a b with
  | case1 => rfl
  | case2 => simp
  | case3 => simp
  | case4 x y z rest n ih =>
    simp only [List.length_cons, ih]
    omega

theorem length_utf8_encode (ha : a.Proper) (b : Bytes) :
    (utf8 (a.encode b)).length = (4 * b.length + 2) / 3 := by
  rw [utf8_encode ha, List.length_map, length_encodeChars]

end Base64.Alphabet

namespace Bcrypt

private theorem length_bytesOf (x : UInt64) : (digest.bytesOf x).length = 8 := rfl

private theorem length_blocks :
    (digest.pairs (wordsOf (utf8 "OrpheanBeholderScryDoubt"))).length = 3 := by
  decide

theorem length_digest (cost : Nat) (salt : Draw) (key : Bytes) :
    (digest cost salt key).length = 23 := by
  unfold digest
  simp only [List.length_take, List.length_flatMap, length_bytesOf, List.map_const',
    length_blocks]
  decide

private theorem dollar_notMem_encodeChars (b : Bytes) : '$' ∉ Base64.bcrypt.encodeChars b := by
  intro h
  have hmem := Base64.Alphabet.mem_symbols_of_mem_encodeChars Base64.bcrypt_proper h
  exact absurd hmem (by decide)

/-- A symbol is one byte, so it never continues another character. -/
private theorem continues_eq_false {b : Bytes} {x : UInt8}
    (h : x ∈ utf8 (Base64.bcrypt.encode b)) : split.continues x = false := by
  have hsymbols : Base64.bcrypt.symbols.all fun c => ! split.continues c.toNat.toUInt8 := by decide
  rw [Base64.Alphabet.utf8_encode Base64.bcrypt_proper] at h
  obtain ⟨c, hc, rfl⟩ := List.mem_map.mp h
  have hc := Base64.Alphabet.mem_symbols_of_mem_encodeChars Base64.bcrypt_proper hc
  simpa using List.all_eq_true.mp hsymbols c hc

private theorem utf8_append (s t : String) : utf8 (s ++ t) = utf8 s ++ utf8 t := by
  rw [utf8_eq_charBytes, utf8_eq_charBytes, utf8_eq_charBytes, String.toList_append,
    charBytes_append]

theorem split_hashText (salt : Draw) (key : Bytes) :
    split (hashText 10 salt key) = .ok ⟨10, utf8 (Base64.bcrypt.encode salt.toList),
      utf8 (Base64.bcrypt.encode (digest 10 salt key))⟩ := by
  let s := Base64.bcrypt.encode salt.toList
  let d := Base64.bcrypt.encode (digest 10 salt key)
  have hs : (utf8 s).length = 22 := by
    rw [Base64.Alphabet.length_utf8_encode Base64.bcrypt_proper, Vector.length_toList]
  have hd : (utf8 d).length = 31 := by
    rw [Base64.Alphabet.length_utf8_encode Base64.bcrypt_proper, length_digest]
  have htext : (hashText 10 salt key).toList =
      '$' :: ("2b".toList ++ '$' :: ("10".toList ++ '$' :: (s ++ d).toList)) := by
    simp [hashText, s, d]
    rfl
  have hrest : '$' ∉ (s ++ d).toList := by
    simp only [s, d, String.toList_append, Base64.Alphabet.encode, String.toList_ofList,
      List.mem_append, not_or]
    exact ⟨dollar_notMem_encodeChars _, dollar_notMem_encodeChars _⟩
  have hsplit : ((hashText 10 salt key).toList.splitOn '$').filter (· ≠ []) =
      ["2b".toList, "10".toList, (s ++ d).toList] := by
    have hne : decide ((s ++ d).toList ≠ []) = true := by
      refine decide_eq_true fun hnil => ?_
      have hlength : (utf8 (s ++ d)).length = 0 := by rw [utf8_eq_charBytes, hnil]; rfl
      rw [utf8_append, List.length_append, hs] at hlength
      omega
    rw [htext, ← List.nil_append ('$' :: _), List.splitOn_append_cons_self_of_not_mem (by simp),
      List.splitOn_append_cons_self_of_not_mem (by decide),
      List.splitOn_append_cons_self_of_not_mem (by decide), List.splitOn_eq_singleton hrest,
      List.filter_cons_of_neg (by simp), List.filter_cons_of_pos (by decide),
      List.filter_cons_of_pos (by decide)]
    simp only [List.filter_cons, hne, List.filter_nil, if_true]
  have hbytes : utf8 (s ++ d) = utf8 s ++ utf8 d := utf8_append s d
  have hlength : (utf8 (s ++ d)).length = 53 := by
    rw [hbytes, List.length_append, hs, hd]
  have hcontinues : split.continues ((utf8 (s ++ d)).getD 22 0) = false := by
    refine continues_eq_false (b := digest 10 salt key) ?_
    rw [hbytes, List.getD_append_right _ _ _ _ (by omega), List.getD_eq_getElem _ _ (by omega)]
    exact List.getElem_mem _
  unfold split
  rw [hsplit]
  simp only [String.ofList_toList, hlength, hcontinues]
  have hcost : natural? 32 "10".toList = some 10 := by decide
  rw [hcost]
  simp [hbytes, hs]
  rfl

/-- A hash text in order is compared by its digest. -/
private theorem verify_eq {password text : String} {parts : Parts} {salt expected : Bytes}
    (hparts : split text = .ok parts) (hsalt : Base64.bcrypt.decode parts.salt = .ok salt)
    (hcost : 4 ≤ parts.cost ∧ parts.cost ≤ 31)
    (hexpected : Base64.bcrypt.decode parts.digest = .ok expected) :
    verify password text = .ok (digest parts.cost (Vector.ofFn fun i => salt.getD i 0)
      (keyOf password) = expected : Bool) := by
  unfold verify
  simp only [hparts, hsalt, hexpected, bind, Except.bind, Except.mapError, hcost]
  rfl

/-- The hash of a key is compared with a password by their digests. -/
theorem verify_hashText (password : String) (salt : Draw) (key : Bytes) :
    verify password (hashText 10 salt key) =
      .ok (digest 10 salt (keyOf password) = digest 10 salt key : Bool) := by
  have hdraw : (Vector.ofFn fun i : Fin 16 => salt.toList.getD i 0) = salt := by
    ext i hi
    simp
  rw [verify_eq (split_hashText salt key)
    (Base64.Alphabet.decode_utf8_encode Base64.bcrypt_proper _) ⟨by simp, by simp⟩
    (Base64.Alphabet.decode_utf8_encode Base64.bcrypt_proper _), hdraw]

end Bcrypt

namespace Password

/-- A password is compared with a hash by the digests of their keys. -/
theorem verify_hash_eq (salt : Draw) (p q : String) :
    verify q (hash salt p) = .ok (Bcrypt.digest cost salt (Bcrypt.keyOf q) =
      Bcrypt.digest cost salt (Bcrypt.keyOf p) : Bool) := by
  unfold verify hash cost
  rw [Bcrypt.verify_hashText]
  rfl

/-- What was hashed verifies. -/
theorem verify_hash (salt : Draw) (password : String) :
    verify password (hash salt password) = .ok true := by
  rw [verify_hash_eq]
  exact congrArg Except.ok (decide_eq_true rfl)

end Password

end Turnstile
