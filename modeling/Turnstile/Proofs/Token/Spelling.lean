import Turnstile.Proofs.Token.Codec

/-! A token has one spelling. Whatever a codec recognises is three segments of URL-safe symbols, the
last of them the one text of the signature over the others. -/

namespace Turnstile

theorem splitLast?_eq_some {c : Char} {l front back : List Char}
    (h : splitLast? c l = some (front, back)) : l = front ++ c :: back ∧ c ∉ back := by
  by_cases hmem : c ∈ l
  · obtain ⟨back', front', hrev, hback⟩ := List.eq_append_cons_of_mem (List.mem_reverse.mpr hmem)
    have hl : l = front'.reverse ++ c :: back'.reverse := by
      rw [← List.reverse_reverse l, hrev]
      simp
    have hnot : c ∉ back'.reverse := mt List.mem_reverse.mp hback
    rw [hl, splitLast?_append _ hnot] at h
    obtain ⟨rfl, rfl⟩ := Prod.mk.inj (Option.some.inj h)
    exact ⟨hl, hnot⟩
  · have hall : ∀ x ∈ l.reverse, decide (x ≠ c) = true := fun x hx =>
      decide_eq_true fun heq => hmem (heq ▸ List.mem_reverse.mp hx)
    have hdrop : l.reverse.dropWhile (· ≠ c) = [] := by
      rw [← List.append_nil l.reverse, List.dropWhile_append_of_pos hall]
      rfl
    unfold splitLast? at h
    simp only [hdrop] at h
    cases h

/-- Everything before the last dot of a token: what the signature is made for. -/
def signedPart? (token : String) : Option (List Char) :=
  (splitLast? '.' token.toList).map (·.1)

structure Segments where
  header : String
  payload : String
  signature : String
  deriving Repr, DecidableEq

namespace Segments

def message (s : Segments) : String :=
  s.header ++ "." ++ s.payload

def text (s : Segments) : String :=
  s.message ++ "." ++ s.signature

def UrlSafe (s : Segments) : Prop :=
  ∀ x ∈ s.header.toList ++ s.payload.toList ++ s.signature.toList, x ∈ Base64.urlSafe.symbols

theorem toList_text (s : Segments) : s.text.toList =
    s.header.toList ++ '.' :: s.payload.toList ++ '.' :: s.signature.toList := by
  simp [text, message]

theorem count_dot_text {s : Segments} (h : s.UrlSafe) : s.text.toList.count '.' = 2 := by
  have hnone (l : List Char)
      (hl : ∀ x ∈ l, x ∈ s.header.toList ++ s.payload.toList ++ s.signature.toList) :
      l.count '.' = 0 :=
    List.count_eq_zero.mpr fun hmem => absurd (h '.' (hl '.' hmem)) (by decide)
  have hheader := hnone s.header.toList fun x hx => by simp [hx]
  have hpayload := hnone s.payload.toList fun x hx => by simp [hx]
  have hsignature := hnone s.signature.toList fun x hx => by simp [hx]
  rw [toList_text]
  simp [List.count_append, hheader, hpayload, hsignature]

/-- A token is written without blanks. -/
theorem visible_text {s : Segments} (h : s.UrlSafe) :
    ∀ x ∈ s.text.toList, 0x20 < x.toNat ∧ x.toNat < 0x7f := by
  have hsymbols : ('.' :: Base64.urlSafe.symbols).all
      (fun x => 0x20 < x.toNat && x.toNat < 0x7f) = true := by decide
  intro x hx
  rw [toList_text] at hx
  suffices hmem : x ∈ '.' :: Base64.urlSafe.symbols by
    simpa using List.all_eq_true.mp hsymbols x hmem
  by_cases hdot : x = '.'
  · exact hdot ▸ List.mem_cons_self
  · refine List.mem_cons_of_mem _ (h x ?_)
    simpa [hdot, or_assoc] using hx

theorem text_ne_empty (s : Segments) : s.text ≠ "" := by
  intro heq
  have hlist := congrArg String.toList heq
  simp [toList_text] at hlist

theorem signedPart?_text {s : Segments} (h : s.UrlSafe) :
    signedPart? s.text = some s.message.toList := by
  have hdot : '.' ∉ s.signature.toList := fun hmem =>
    absurd (h '.' (by simp [hmem])) (by decide)
  have hlist : s.text.toList = s.message.toList ++ '.' :: s.signature.toList := by
    simp [text, message]
  rw [signedPart?, hlist, splitLast?_append _ hdot]
  rfl

end Segments

namespace Codec

variable {c : Codec} {token : String}

/-- Segments that the codec has signed, with the header of its own algorithm. -/
structure Signs (c : Codec) (s : Segments) : Prop where
  urlSafe : s.UrlSafe
  algorithm : ∃ b, Base64.urlSafe.decode (utf8 s.header) = .ok b ∧
    Header.algorithm b = .ok c.algorithm
  signature : ∃ h, c.algorithm.hash? = some h ∧
    s.signature = Base64.urlSafe.encode (hmac h (utf8 c.secret) (utf8 s.message))

/-- A codec signs what is before the last dot in one way. -/
theorem Signs.unique {s t : Segments} (hs : c.Signs s) (ht : c.Signs t)
    (h : signedPart? s.text = signedPart? t.text) : s.text = t.text := by
  rw [s.signedPart?_text hs.urlSafe, t.signedPart?_text ht.urlSafe, Option.some.injEq,
    String.toList_inj] at h
  obtain ⟨hash, hhash, hsig⟩ := hs.signature
  obtain ⟨hash', hhash', hsig'⟩ := ht.signature
  obtain rfl := Option.some.inj (hhash.symm.trans hhash')
  unfold Segments.text
  rw [hsig, hsig', h]

private theorem ok_of_toOption {ε α : Type} {r : Except ε α} {a : α}
    (h : r.toOption = some a) : r = .ok a := by
  cases r with
  | error e => cases h
  | ok x => exact congrArg Except.ok (Option.some.inj h)

/-- A token with a payload consists of segments that the codec has signed. -/
theorem exists_signs {b : Bytes} (h : c.payload? token = some b) :
    ∃ s, token = s.text ∧ c.Signs s := by
  unfold payload? at h
  simp only [Option.bind_eq_bind, Option.bind_eq_some_iff, Prod.exists] at h
  obtain ⟨message, signature, hsplit, header, payload, hsplit', headerBytes, hheader, algorithm,
    halgorithm, _, halg, expected, hexpected, _, hsig, hpayload⟩ := h
  obtain ⟨htoken, -⟩ := splitLast?_eq_some hsplit
  obtain ⟨hmessage, -⟩ := splitLast?_eq_some hsplit'
  obtain ⟨hash, hhash, hsigned⟩ := Option.map_eq_some_iff.mp hexpected
  let s : Segments := ⟨String.ofList header, String.ofList payload, String.ofList signature⟩
  have hm : s.message = String.ofList message := by
    rw [← String.toList_inj, String.toList_ofList, hmessage]
    simp [s, Segments.message]
  have hs : s.signature = Base64.urlSafe.encode (hmac hash (utf8 c.secret) (utf8 s.message)) := by
    rw [hm, hsigned]
    exact (Option.guard_eq_some' _).mp hsig
  have hsymbols : s.UrlSafe := by
    intro x hx
    rcases List.mem_append.mp hx with hx | hx
    · rcases List.mem_append.mp hx with hx | hx <;> rw [String.toList_ofList] at hx
      · exact Base64.Alphabet.mem_symbols_of_decode Base64.urlSafe_proper
          (ok_of_toOption hheader) x hx
      · exact Base64.Alphabet.mem_symbols_of_decode Base64.urlSafe_proper
          (ok_of_toOption hpayload) x hx
    · rw [hs, Base64.Alphabet.encode, String.toList_ofList] at hx
      exact Base64.Alphabet.mem_symbols_of_mem_encodeChars Base64.urlSafe_proper hx
  refine ⟨s, ?_, hsymbols, ⟨headerBytes, ok_of_toOption hheader, ?_⟩, hash, hhash, hs⟩
  · rw [← String.toList_inj, htoken, Segments.toList_text, hmessage]
    simp [s]
  · rw [← (Option.guard_eq_some' _).mp halg]
    exact ok_of_toOption halgorithm

/-- An outcome of decoding a token that was signed, whether or not it has expired since. -/
def Verified {α : Type} (r : Except AuthError α) : Prop :=
  r = .error .tokenExpired ∨ ∃ a, r = .ok a

/-- A token that the codec takes for an access or a refresh token, or would have taken for one
before it expired. -/
inductive Recognises (c : Codec) (token : String) : Prop where
  | access (now : Nanos) (h : Verified (c.decodeAccess now token))
  | anyAge (h : Verified (c.decodeAccessAnyAge token))
  | refresh (now : Nanos) (h : Verified (c.decodeRefresh now token))

theorem decode_of_payload?_eq_none {α : Type} {format : Json.Format α} {expired : Int → Bool}
    (h : c.payload? token = none) : c.decode format expired token = .error .invalidToken := by
  unfold decode
  rw [h]
  rfl

theorem decodeAt_of_payload?_eq_none {α : Type} {format : Json.Format α} {expiry : α → Int}
    {now : Nanos} (h : c.payload? token = none) :
    c.decodeAt format expiry now token = .error .invalidToken := by
  unfold decodeAt
  rw [decode_of_payload?_eq_none h]
  rfl

theorem Recognises.exists_payload (h : c.Recognises token) : ∃ b, c.payload? token = some b := by
  cases hp : c.payload? token with
  | some b => exact ⟨b, rfl⟩
  | none =>
    have hnot {α : Type} {r : Except AuthError α} (hr : r = .error .invalidToken) : ¬ Verified r := by
      rintro (heq | ⟨a, heq⟩) <;> cases heq.symm.trans hr
    cases h with
    | access now h => exact absurd h (hnot (decodeAt_of_payload?_eq_none hp))
    | anyAge h => exact absurd h (hnot (decode_of_payload?_eq_none hp))
    | refresh now h => exact absurd h (hnot (decodeAt_of_payload?_eq_none hp))

/-- A recognised token is written in the one way in which the codec writes its segments. -/
theorem Recognises.exists_signs (h : c.Recognises token) : ∃ s, token = s.text ∧ c.Signs s := by
  obtain ⟨b, hb⟩ := h.exists_payload
  exact Codec.exists_signs hb

/-- What is said before the last dot makes up the whole of a recognised token. -/
theorem Recognises.eq {other : String} (h : c.Recognises token) (h' : c.Recognises other)
    (heq : signedPart? token = signedPart? other) : token = other := by
  obtain ⟨s, rfl, hs⟩ := h.exists_signs
  obtain ⟨t, rfl, ht⟩ := h'.exists_signs
  exact hs.unique ht heq

end Codec

end Turnstile
