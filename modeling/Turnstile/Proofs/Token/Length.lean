import Mathlib.Tactic.SplitIfs
import Turnstile.Proofs.Text.Utf8
import Turnstile.Token.Codec

/-! How long a signed token is at most. -/

namespace Turnstile

theorem length_flatMap_le {α β : Type} {f : α → List β} {k : Nat} (h : ∀ x, (f x).length ≤ k)
    (l : List α) : (l.flatMap f).length ≤ k * l.length := by
  induction l with
  | nil => simp
  | cons x l ih =>
    rw [List.flatMap_cons, List.length_append, List.length_cons, Nat.mul_succ]
    have := h x
    omega

theorem length_charBytes_le (cs : List Char) : (charBytes cs).length ≤ 4 * cs.length :=
  length_flatMap_le (fun c => String.length_utf8EncodeChar c ▸ c.utf8Size_le_four) cs

theorem Json.length_quote_le (s : String) : (quote s).length ≤ 6 * s.toList.length + 2 := by
  have hescape (c : Char) : (escape c).length ≤ 6 := by
    unfold escape
    split_ifs <;> simp
  have := length_flatMap_le hescape s.toList
  simp only [quote, List.length_append, List.length_cons, List.length_nil]
  omega

theorem Base64.Alphabet.length_encodeChars_le (a : Alphabet) (b : Bytes) :
    (a.encodeChars b).length ≤ 2 * b.length := by
  fun_induction a.encodeChars b with
  | case1 => simp
  | case2 => simp
  | case3 => simp
  | case4 x y z rest n ih =>
    simp only [List.length_cons]
    omega

theorem Sha2.Hash.length_digest_le (h : Hash) (message : Bytes) :
    (h.digest message).length ≤ h.family.wordBytes * 8 := by
  unfold digest
  dsimp only
  refine Nat.le_trans (length_flatMap_le (k := h.family.wordBytes) (fun x => ?_) _) ?_
  · simp [Family.bytesOf]
  · refine Nat.mul_le_mul_left _ (Nat.le_trans (List.length_take_le' _ _) ?_)
    simp

namespace Codec

variable {c : Codec} {token : String}

private theorem wordBytes_le {a : Algorithm} {h : Sha2.Hash} (hh : a.hash? = some h) :
    h.family.wordBytes ≤ 8 := by
  cases a <;> cases hh <;> decide

theorem length_signature?_le {message signature : String}
    (h : c.signature? message = some signature) : signature.toList.length ≤ 128 := by
  obtain ⟨hash, hhash, rfl⟩ := Option.map_eq_some_iff.mp h
  have hwords := wordBytes_le hhash
  have hcode : (hmac hash (utf8 c.secret) (utf8 message)).length ≤ hash.family.wordBytes * 8 :=
    hash.length_digest_le _
  have htext := Base64.urlSafe.length_encodeChars_le (hmac hash (utf8 c.secret) (utf8 message))
  rw [Base64.Alphabet.encode, String.toList_ofList]
  omega

/-- A token is as long as what it says, up to a factor and a term. -/
theorem length_sign_le {v : Json} (h : c.sign v = .ok token) : token.toList.length ≤
    2 * ((utf8 (Header.toJson c.algorithm).toText).length + (utf8 v.toText).length) + 130 := by
  unfold sign at h
  dsimp only at h
  split at h
  · cases h
  · rename_i signature hsignature
    obtain rfl := Except.ok.inj h
    have hheader := Base64.urlSafe.length_encodeChars_le (utf8 (Header.toJson c.algorithm).toText)
    have hpayload := Base64.urlSafe.length_encodeChars_le (utf8 v.toText)
    have hsigned := length_signature?_le hsignature
    have hdot : ".".toList.length = 1 := by decide
    simp only [Base64.Alphabet.encode, String.toList_append, String.toList_ofList,
      List.length_append]
    omega

end Codec

end Turnstile
