import Mathlib.Data.Option.Basic
import Turnstile.Proofs.Base64
import Turnstile.Proofs.Token.Claims
import Turnstile.Token.Codec

/-! Tokens are read back: a token signed by a codec is accepted by it, with the claims signed,
until it expires. -/

namespace Turnstile

/-- A second has not come yet exactly when its first instant has not. -/
theorem Nanos.seconds_lt_iff {now : Nanos} {s : Int} : now.seconds < s ↔ now < Nanos.ofSeconds s := by
  unfold Nanos.seconds Nanos.ofSeconds Nanos at *
  omega

theorem splitLast?_append {c : Char} (front : List Char) {back : List Char} (h : c ∉ back) :
    splitLast? c (front ++ c :: back) = some (front, back) := by
  have hne : ∀ x ∈ back.reverse, decide (x ≠ c) = true := fun x hx =>
    decide_eq_true fun he => h (he ▸ List.mem_reverse.mp hx)
  have hrev : (front ++ c :: back).reverse = back.reverse ++ c :: front.reverse := by simp
  unfold splitLast?
  simp only [hrev]
  rw [List.dropWhile_append_of_pos hne, List.takeWhile_append_of_pos hne]
  simp

namespace Base64

theorem dot_notMem_encodeChars (b : Bytes) : '.' ∉ urlSafe.encodeChars b := by
  intro h
  have hmem := Alphabet.mem_symbols_of_mem_encodeChars urlSafe_proper h
  exact absurd hmem (by decide)

end Base64

namespace Codec

variable {c : Codec} {token : String}

/-- A symmetric algorithm always signs. -/
theorem exists_sign (hc : c.algorithm.isSymmetric = true) (v : Json) :
    ∃ token, c.sign v = .ok token := by
  have hhash : ∀ a : Algorithm, a.isSymmetric = true → a.hash?.isSome = true := by
    intro a
    cases a <;> decide
  obtain ⟨h, hh⟩ := Option.isSome_iff_exists.mp (hhash c.algorithm hc)
  unfold sign signature?
  simp only [hh, Option.map_some]
  exact ⟨_, rfl⟩

/-- No other algorithm signs. -/
theorem symmetric_of_sign {v : Json} (h : c.sign v = .ok token) :
    c.algorithm.isSymmetric = true := by
  have hhash : ∀ a : Algorithm, a.isSymmetric = false → a.hash? = none := by
    intro a
    cases a <;> decide
  cases hc : c.algorithm.isSymmetric with
  | true => rfl
  | false =>
    simp only [sign, signature?, hhash _ hc, Option.map_none] at h
    cases h

/-- The payload of a signed token is what was signed. -/
theorem payload?_sign {v : Json} (h : c.sign v = .ok token) :
    c.payload? token = some (utf8 v.toText) := by
  let header := utf8 (Header.toJson c.algorithm).toText
  let payload := utf8 v.toText
  let message := Base64.urlSafe.encode header ++ "." ++ Base64.urlSafe.encode payload
  dsimp only [sign] at h
  split at h
  · cases h
  · rename_i signature hs
    change c.signature? message = some signature at hs
    obtain ⟨b, rfl⟩ : ∃ b, signature = Base64.urlSafe.encode b := by
      unfold signature? at hs
      obtain ⟨hash, -, rfl⟩ := Option.map_eq_some_iff.mp hs
      exact ⟨_, rfl⟩
    obtain rfl : message ++ "." ++ Base64.urlSafe.encode b = token := Except.ok.inj h
    have hmessage : message.toList =
        Base64.urlSafe.encodeChars header ++ '.' :: Base64.urlSafe.encodeChars payload := by
      simp [message, Base64.Alphabet.encode]
    have htoken : (message ++ "." ++ Base64.urlSafe.encode b).toList =
        message.toList ++ '.' :: Base64.urlSafe.encodeChars b := by
      simp [Base64.Alphabet.encode]
    have hsplit := splitLast?_append message.toList (Base64.dot_notMem_encodeChars b)
    have hsplit' := splitLast?_append (Base64.urlSafe.encodeChars header)
      (Base64.dot_notMem_encodeChars payload)
    have hdecode (x : Bytes) :
        Base64.urlSafe.decode (utf8 (String.ofList (Base64.urlSafe.encodeChars x))) = .ok x :=
      Base64.Alphabet.decode_utf8_encode Base64.urlSafe_proper x
    have halg : Header.algorithm header = .ok c.algorithm := Header.algorithm_toText c.algorithm
    unfold payload?
    rw [htoken, hsplit]
    simp only [Option.bind_eq_bind, Option.bind_some, String.ofList_toList, hs]
    rw [hmessage, hsplit']
    simp only [Option.bind_some, hdecode, Except.toOption, halg, guard_true]
    simp [Base64.Alphabet.encode, payload]

/-- A signed token begins with a letter. -/
theorem head?_sign {v : Json} (h : c.sign v = .ok token) : token.toList.head? = some 'e' := by
  have hheader : ∃ rest, Base64.urlSafe.encodeChars (utf8 (Header.toJson c.algorithm).toText) =
      'e' :: rest := by
    obtain ⟨rest, hrest⟩ : ∃ rest, (Header.toJson c.algorithm).compact = '\x7b' :: '"' :: 't' :: rest :=
      ⟨_, rfl⟩
    have hbytes : charBytes ('\x7b' :: '"' :: 't' :: rest) = 0x7b :: 0x22 :: 0x74 :: charBytes rest :=
      rfl
    have hsymbol : Base64.urlSafe.symbol
        (((0x7b : UInt8).toNat <<< 16 + (0x22 : UInt8).toNat <<< 8 + (0x74 : UInt8).toNat) >>> 18) =
          'e' := by decide
    unfold Json.toText
    rw [utf8_ofList, hrest, hbytes, Base64.Alphabet.encodeChars, hsymbol]
    exact ⟨_, rfl⟩
  obtain ⟨rest, hrest⟩ := hheader
  dsimp only [sign] at h
  split at h
  · cases h
  · rw [← Except.ok.inj h]
    simp [Base64.Alphabet.encode, hrest]

/-- A token that is refused has expired, or is no token at all. -/
theorem decode_error {α : Type} {format : Json.Format α} {expired : Int → Bool} {e : AuthError}
    (h : c.decode format expired token = .error e) :
    e = .invalidToken ∨ (e = .tokenExpired ∧ ∃ expiry, expired expiry = true) := by
  unfold decode at h
  cases hp : c.payload? token with
  | none =>
    simp only [hp] at h
    exact .inl (Except.error.inj h).symm
  | some payload =>
    cases hc : format.parse payload with
    | error _ =>
      simp only [hp, hc] at h
      exact .inl (Except.error.inj h).symm
    | ok claims =>
      cases hr : Registered.parse payload with
      | error _ =>
        simp only [hp, hc, hr] at h
        exact .inl (Except.error.inj h).symm
      | ok registered =>
        simp only [hp, hc, hr] at h
        cases hx : expired registered.expiry with
        | true =>
          simp only [hx] at h
          exact .inr ⟨(Except.error.inj h).symm, _, hx⟩
        | false =>
          cases ha : registered.hasAudience with
          | true =>
            simp only [hx, ha] at h
            exact .inl (Except.error.inj h).symm
          | false =>
            simp only [hx, ha] at h
            cases h

/-- A token whose age does not matter can only be no token at all. -/
theorem decodeAccessAnyAge_error {e : AuthError} (h : c.decodeAccessAnyAge token = .error e) :
    e = .invalidToken := by
  refine (decode_error h).resolve_right ?_
  rintro ⟨-, expiry, hnever⟩
  cases hnever

theorem decodeAccess_error {now : Nanos} {e : AuthError} (h : c.decodeAccess now token = .error e) :
    e = .invalidToken ∨ e = .tokenExpired := by
  unfold decodeAccess decodeAt at h
  cases hd : c.decode AccessClaims.format (· < now.seconds) token with
  | error e' =>
    rw [hd] at h
    obtain rfl := Except.error.inj h
    exact (decode_error hd).imp_right And.left
  | ok claims =>
    rw [hd] at h
    change (if claims.expiry ≤ now.seconds then Except.error .tokenExpired else .ok claims) =
      .error e at h
    split at h
    · exact .inr (Except.error.inj h).symm
    · cases h

/-- What decoding makes of a signed token: it can only have expired. -/
theorem decode_sign {α : Type} {format : Json.Format α} {a : α} {expired : Int → Bool}
    {expiry : Int} (h : c.sign (format.toJson a) = .ok token)
    (hparse : format.parse (utf8 (format.write a)) = .ok a)
    (hregistered : Registered.parse (utf8 (format.write a)) = .ok ⟨expiry, false⟩) :
    c.decode format expired token =
      if expired expiry then .error .tokenExpired else .ok a := by
  unfold Json.Format.write at hparse hregistered
  unfold decode
  simp only [payload?_sign h, hparse, hregistered]
  by_cases he : expired expiry = true
  · simp [he]
    rfl
  · simp [he]
    rfl

/-- A token whose only fault can be its age is good until the second of its expiry. -/
theorem decodeAt_of_decode {α : Type} {format : Json.Format α} {expiry : α → Int} {a : α}
    (h : ∀ expired : Int → Bool, c.decode format expired token =
      if expired (expiry a) then .error .tokenExpired else .ok a) (now : Nanos) :
    c.decodeAt format expiry now token =
      if expiry a ≤ now.seconds then .error .tokenExpired else .ok a := by
  unfold decodeAt
  rw [h]
  by_cases hlt : expiry a < now.seconds
  · have hle : expiry a ≤ now.seconds := Int.le_of_lt hlt
    simp only [hlt, hle, decide_true, if_true]
    rfl
  · simp only [hlt, decide_false, Bool.false_eq_true, if_false]
    by_cases hle : expiry a ≤ now.seconds
    · simp [hle, bind, Except.bind]
      rfl
    · simp [hle, bind, Except.bind]
      rfl

theorem decode_eq_ok {α : Type} {format : Json.Format α} {expired : Int → Bool} {a : α} :
    c.decode format expired token = .ok a ↔ ∃ payload registered,
      c.payload? token = some payload ∧ format.parse payload = .ok a ∧
        Registered.parse payload = .ok registered ∧ expired registered.expiry = false ∧
        registered.hasAudience = false := by
  constructor
  · intro h
    unfold decode at h
    cases hpayload : c.payload? token with
    | none =>
      simp only [hpayload] at h
      cases h
    | some payload =>
      cases hclaims : format.parse payload with
      | error _ =>
        simp only [hpayload, hclaims] at h
        cases h
      | ok claims =>
        cases hregistered : Registered.parse payload with
        | error _ =>
          simp only [hpayload, hclaims, hregistered] at h
          cases h
        | ok registered =>
          simp only [hpayload, hclaims, hregistered] at h
          cases hexpired : expired registered.expiry with
          | true =>
            rw [hexpired] at h
            cases h
          | false =>
            cases haudience : registered.hasAudience with
            | true =>
              rw [hexpired, haudience] at h
              cases h
            | false =>
              rw [hexpired, haudience] at h
              cases h
              exact ⟨payload, registered, rfl, hclaims, hregistered, hexpired, haudience⟩
  · rintro ⟨payload, registered, hpayload, hclaims, hregistered, hexpired, haudience⟩
    unfold decode
    simp only [hpayload, hclaims, hregistered, hexpired, haudience]
    rfl

theorem decodeAt_eq_ok {α : Type} {format : Json.Format α} {expiry : α → Int} {a : α}
    {now : Nanos} : c.decodeAt format expiry now token = .ok a ↔
      c.decode format (· < now.seconds) token = .ok a ∧ now.seconds < expiry a := by
  unfold decodeAt
  cases c.decode format (· < now.seconds) token with
  | error e => exact ⟨nofun, nofun⟩
  | ok claims =>
    by_cases hle : expiry claims ≤ now.seconds
    · simp only [bind, Except.bind, hle, if_true]
      constructor
      · nofun
      · rintro ⟨heq, hlt⟩
        obtain rfl := Except.ok.inj heq
        exact absurd hlt (Int.not_lt.mpr hle)
    · simp only [bind, Except.bind, hle, if_false, pure, Except.pure]
      constructor
      · intro heq
        exact ⟨heq, Except.ok.inj heq ▸ Int.not_le.mp hle⟩
      · exact And.left

/-- What is good at an instant was good before. -/
theorem decodeAt_of_le {α : Type} {format : Json.Format α} {expiry : α → Int} {a : α} {t now : Nanos}
    (hle : t ≤ now) (h : c.decodeAt format expiry now token = .ok a) :
    c.decodeAt format expiry t token = .ok a := by
  have hsec : t.seconds ≤ now.seconds := Int.ediv_le_ediv (by decide) hle
  obtain ⟨hdecode, hlt⟩ := decodeAt_eq_ok.mp h
  obtain ⟨payload, registered, hpayload, hclaims, hregistered, hexpired, haudience⟩ :=
    decode_eq_ok.mp hdecode
  have hfresh : decide (registered.expiry < t.seconds) = false := by
    have hnow : ¬ registered.expiry < now.seconds := of_decide_eq_false hexpired
    exact decide_eq_false (by omega)
  refine decodeAt_eq_ok.mpr ⟨?_, by omega⟩
  exact decode_eq_ok.mpr ⟨payload, registered, hpayload, hclaims, hregistered, hfresh, haudience⟩

/-- A refresh token verifies until the second of its expiry. -/
theorem decodeRefresh_encodeRefresh {claims : RefreshClaims} (hexpiry : ValidExpiry claims.expiry)
    (h : c.encodeRefresh claims = .ok token) (now : Nanos) :
    c.decodeRefresh now token =
      if claims.expiry ≤ now.seconds then .error .tokenExpired else .ok claims :=
  decodeAt_of_decode (fun _ => decode_sign h (RefreshClaims.parse_write hexpiry)
    (Registered.parse_refreshClaims hexpiry)) now

/-- An access token verifies until the second of its expiry. -/
theorem decodeAccess_encodeAccess {claims : AccessClaims} (hexpiry : ValidExpiry claims.expiry)
    (h : c.encodeAccess claims = .ok token) (now : Nanos) :
    c.decodeAccess now token =
      if claims.expiry ≤ now.seconds then .error .tokenExpired else .ok claims :=
  decodeAt_of_decode (fun _ => decode_sign h (AccessClaims.parse_write hexpiry)
    (Registered.parse_accessClaims hexpiry)) now

theorem decodeAccessAnyAge_encodeAccess {claims : AccessClaims}
    (hexpiry : ValidExpiry claims.expiry) (h : c.encodeAccess claims = .ok token) :
    c.decodeAccessAnyAge token = .ok claims :=
  decode_sign h (AccessClaims.parse_write hexpiry) (Registered.parse_accessClaims hexpiry)

structure Clamped (c : Codec) : Prop where
  access : 1 ≤ c.accessMinutes ∧ c.accessMinutes ≤ maxLifetimeMinutes
  refresh : 1 ≤ c.refreshMinutes ∧ c.refreshMinutes ≤ maxLifetimeMinutes

private theorem clampLifetime_mem (n : Int) :
    1 ≤ clampLifetime n ∧ clampLifetime n ≤ maxLifetimeMinutes := by
  unfold clampLifetime maxLifetimeMinutes
  omega

theorem ofConfig_clamped (cfg : TokenConfig) : (ofConfig cfg).Clamped :=
  ⟨clampLifetime_mem _, clampLifetime_mem _⟩

private theorem validExpiry_of_minutes {now minutes : Int} (hnow : 0 ≤ now)
    (hlast : now ≤ lastInstant) (hminutes : 1 ≤ minutes ∧ minutes ≤ maxLifetimeMinutes) :
    ValidExpiry (Nanos.seconds (now + minutes * nanosPerMinute)) := by
  unfold ValidExpiry Nanos.seconds nanosPerMinute int64Max
  unfold lastInstant at hlast
  unfold maxLifetimeMinutes at hminutes
  omega

theorem refreshClaims_validExpiry (hc : c.Clamped) {now : Nanos} (hnow : 0 ≤ now)
    (hlast : now ≤ lastInstant) (d : Draw) (p : Principal) :
    ValidExpiry (c.refreshClaims now d p).expiry :=
  validExpiry_of_minutes hnow hlast hc.refresh

theorem accessClaims_validExpiry (hc : c.Clamped) {now : Nanos} (hnow : 0 ≤ now)
    (hlast : now ≤ lastInstant) (p : Principal) : ValidExpiry (c.accessClaims now p).expiry :=
  validExpiry_of_minutes hnow hlast hc.access

private theorem lt_seconds_of_minutes {now minutes : Int} (hminutes : 1 ≤ minutes) :
    now < Nanos.ofSeconds (Nanos.seconds (now + minutes * nanosPerMinute)) := by
  unfold Nanos.seconds Nanos.ofSeconds nanosPerMinute
  omega

/-- Claims have not expired when they are issued. -/
theorem lt_expiry_accessClaims (hc : c.Clamped) (now : Nanos) (p : Principal) :
    now < Nanos.ofSeconds (c.accessClaims now p).expiry :=
  lt_seconds_of_minutes hc.access.1

theorem lt_expiry_refreshClaims (hc : c.Clamped) (now : Nanos) (d : Draw) (p : Principal) :
    now < Nanos.ofSeconds (c.refreshClaims now d p).expiry :=
  lt_seconds_of_minutes hc.refresh.1

end Codec

end Turnstile
