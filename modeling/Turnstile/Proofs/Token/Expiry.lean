import Turnstile.Proofs.Token.Agreement
import Turnstile.Service.Accounts

/-! What age does to a token. An issued token is good until the second its lifetime ends. Reading a
token is reading it at any age with an expiry test after it, except that a payload with an audience
is found expired before it is refused. -/

namespace Turnstile

open Json

namespace Codec

/-- A token that is signed, and read back as `a` until the second of its expiry. -/
def GoodUntil {α : Type} (signed : Except AuthError String)
    (decode : Nanos → String → Except AuthError α) (expiry : Int) (a : α) : Prop :=
  ∃ token, signed = .ok token ∧
    ∀ t, decode t token = if t < Nanos.ofSeconds expiry then .ok a else .error .tokenExpired

/-- What is issued at `now` tells who it is for, lives for the minutes set, clamped, and is read back
until then. -/
structure RoundTrip (cfg : TokenConfig) (p : Principal) (d : Draw) (now : Nanos) : Prop where
  accessExpiry : ((ofConfig cfg).accessClaims now p).expiry =
    now.seconds + 60 * max 1 (min cfg.accessMinutes 5256000)
  refreshExpiry : ((ofConfig cfg).refreshClaims now d p).expiry =
    now.seconds + 60 * max 1 (min cfg.refreshMinutes 5256000)
  principal : ((ofConfig cfg).accessClaims now p).principal = p
  superuser : ((ofConfig cfg).accessClaims now p).superuser = true ↔ "superadmin" ∈ p.roles
  expiresIn : ∀ pair, ((ofConfig cfg).tokenResponse pair).expiresIn =
    ((ofConfig cfg).accessClaims now p).expiry - now.seconds
  access : GoodUntil ((ofConfig cfg).encodeAccess ((ofConfig cfg).accessClaims now p))
    (ofConfig cfg).decodeAccess ((ofConfig cfg).accessClaims now p).expiry
    ((ofConfig cfg).accessClaims now p)
  refresh : GoodUntil ((ofConfig cfg).encodeRefresh ((ofConfig cfg).refreshClaims now d p))
    (ofConfig cfg).decodeRefresh ((ofConfig cfg).refreshClaims now d p).expiry
    ((ofConfig cfg).refreshClaims now d p)

section

variable {c : Codec} {token : String} {claims : AccessClaims}

private theorem seconds_add_minutes (now minutes : Int) :
    Nanos.seconds (now + minutes * nanosPerMinute) = Nanos.seconds now + 60 * minutes := by
  unfold Nanos.seconds nanosPerMinute
  omega

private theorem seconds_minutes (minutes : Int) :
    Nanos.seconds (minutes * nanosPerMinute) = 60 * minutes := by
  unfold Nanos.seconds nanosPerMinute
  omega

private theorem validExpiry_seconds {t : Int} (ht : 0 ≤ t) (hlast : t ≤ lastInstant) :
    ValidExpiry (Nanos.seconds t) := by
  unfold ValidExpiry Nanos.seconds int64Max
  unfold lastInstant at hlast
  omega

private theorem unexpired_iff {now : Nanos} {s : Int} {α : Type} (x y : α) :
    (if s ≤ now.seconds then x else y) = if now < Nanos.ofSeconds s then y else x := by
  by_cases h : now < Nanos.ofSeconds s
  · rw [if_pos h, if_neg (Int.not_le.mpr (Nanos.seconds_lt_iff.mpr h))]
  · rw [if_neg h, if_pos (Int.not_lt.mp (Nanos.seconds_lt_iff.not.mpr h))]

theorem goodUntil_access (hc : c.algorithm.isSymmetric = true) (hexpiry : ValidExpiry claims.expiry) :
    GoodUntil (c.encodeAccess claims) c.decodeAccess claims.expiry claims := by
  obtain ⟨token, htoken⟩ := exists_sign hc (AccessClaims.format.toJson claims)
  refine ⟨token, htoken, fun t => ?_⟩
  rw [decodeAccess_encodeAccess hexpiry htoken, unexpired_iff]

theorem goodUntil_refresh {claims : RefreshClaims} (hc : c.algorithm.isSymmetric = true)
    (hexpiry : ValidExpiry claims.expiry) :
    GoodUntil (c.encodeRefresh claims) c.decodeRefresh claims.expiry claims := by
  obtain ⟨token, htoken⟩ := exists_sign hc (RefreshClaims.format.toJson claims)
  refine ⟨token, htoken, fun t => ?_⟩
  rw [decodeRefresh_encodeRefresh hexpiry htoken, unexpired_iff]

private theorem lifetime_pos {minutes : Int} : 0 ≤ clampLifetime minutes * nanosPerMinute := by
  unfold clampLifetime nanosPerMinute
  omega

/-- Tokens of a symmetric algorithm are issued for anyone and read back until they expire, and access
claims with any expiry are read back at any age. -/
theorem round_trip {cfg : TokenConfig} (hcfg : cfg.algorithm.isSymmetric = true) {now : Nanos}
    (hnow : 0 ≤ now) (haccess : now + (ofConfig cfg).accessLifetime ≤ lastInstant)
    (hrefresh : now + (ofConfig cfg).refreshLifetime ≤ lastInstant) (p : Principal) (d : Draw) :
    RoundTrip cfg p d now ∧
      ∀ claims : AccessClaims, ValidExpiry claims.expiry →
        ∃ token, (ofConfig cfg).encodeAccess claims = .ok token ∧
          (ofConfig cfg).decodeAccessAnyAge token = .ok claims := by
  have hsymmetric : (ofConfig cfg).algorithm.isSymmetric = true := hcfg
  have haccessExpiry : ((ofConfig cfg).accessClaims now p).expiry =
      now.seconds + 60 * max 1 (min cfg.accessMinutes 5256000) := seconds_add_minutes now _
  constructor
  · exact {
      accessExpiry := haccessExpiry
      refreshExpiry := seconds_add_minutes now _
      principal := rfl
      superuser := decide_eq_true_iff
      expiresIn := fun pair => by
        have hlifetime : ((ofConfig cfg).tokenResponse pair).expiresIn =
            60 * max 1 (min cfg.accessMinutes 5256000) := seconds_minutes _
        rw [haccessExpiry, hlifetime]
        omega
      access := goodUntil_access hsymmetric
        (validExpiry_seconds (Int.add_nonneg hnow lifetime_pos) haccess)
      refresh := goodUntil_refresh hsymmetric
        (validExpiry_seconds (Int.add_nonneg hnow lifetime_pos) hrefresh) }
  · intro claims hexpiry
    obtain ⟨token, htoken⟩ := exists_sign hsymmetric (AccessClaims.format.toJson claims)
    exact ⟨token, htoken, decodeAccessAnyAge_encodeAccess hexpiry htoken⟩

theorem round_trip_clamped : RoundTrip ⟨"", .hs384, -5, int64Max⟩
    ⟨"ada", "\"ada\"@example.com", .ofList ["superadmin", "a\\b"]⟩ (.replicate 16 7)
    1700000000123456789 :=
  (round_trip (by decide) (by decide) (by decide) (by decide) _ _).1

/-- An expiry test after claims that are read at any age. -/
def whileFresh (now : Nanos) (claims : Except AuthError AccessClaims) :
    Except AuthError AccessClaims := do
  let claims ← claims
  if claims.expiry ≤ now.seconds then throw .tokenExpired
  return claims

/-- A token with a good signature and the claims of an access token, and an audience among its
registered claims. -/
def Addressed (c : Codec) (token : String) (claims : AccessClaims) : Prop :=
  ∃ payload registered, c.payload? token = some payload ∧
    AccessClaims.format.parse payload = .ok claims ∧
    Registered.parse payload = .ok registered ∧ registered.hasAudience = true

/-- A token with an audience is refused at any age, but found expired first. -/
theorem decode_of_addressed (h : c.Addressed token claims) (expired : Int → Bool) :
    c.decode AccessClaims.format expired token =
      if expired claims.expiry then .error .tokenExpired else .error .invalidToken := by
  obtain ⟨payload, registered, hpayload, hclaims, hregistered, haudience⟩ := h
  have hexpiry := AccessClaims.expiry_of_parse hclaims hregistered
  unfold decode
  simp only [hpayload, hclaims, hregistered, haudience, hexpiry]
  cases expired claims.expiry <;> rfl

theorem decodeAccess_of_addressed (h : c.Addressed token claims) (now : Nanos) :
    c.decodeAccess now token =
      if claims.expiry < now.seconds then .error .tokenExpired else .error .invalidToken := by
  unfold decodeAccess decodeAt
  rw [decode_of_addressed h]
  by_cases hlt : claims.expiry < now.seconds
  · simp only [hlt, decide_true, if_true]
    rfl
  · simp only [hlt, decide_false, Bool.false_eq_true, if_false]
    rfl

/-- A token that fails at any age fails alike at every instant, or has an audience. -/
theorem decodeAccess_of_anyAge_error {e : AuthError} (h : c.decodeAccessAnyAge token = .error e) :
    (∀ now, c.decodeAccess now token = .error e) ∨ ∃ claims, c.Addressed token claims := by
  unfold decodeAccessAnyAge decode at h
  unfold decodeAccess decodeAt decode
  cases hpayload : c.payload? token with
  | none =>
    simp only [hpayload] at h ⊢
    exact .inl fun _ => congrArg (· >>= _) h
  | some payload =>
    cases hclaims : AccessClaims.format.parse payload with
    | error _ =>
      simp only [hpayload, hclaims] at h ⊢
      exact .inl fun _ => congrArg (· >>= _) h
    | ok claims =>
      cases hregistered : Registered.parse payload with
      | error _ =>
        simp only [hpayload, hclaims, hregistered] at h ⊢
        exact .inl fun _ => congrArg (· >>= _) h
      | ok registered =>
        cases haudience : registered.hasAudience with
        | true =>
          exact .inr ⟨claims, payload, registered, hpayload, hclaims, hregistered, haudience⟩
        | false =>
          simp only [hpayload, hclaims, hregistered, haudience] at h
          cases h

/-- Reading an access token is reading it at any age with the expiry test after it, unless it has an
audience and has expired. Then it is invalid at any age but reported as expired. -/
theorem decodeAccess_eq_whileFresh_iff (c : Codec) (token : String) (now : Nanos) :
    (c.decodeAccess now token = whileFresh now (c.decodeAccessAnyAge token) ↔
      ¬ ∃ claims, c.Addressed token claims ∧ claims.expiry < now.seconds) ∧
    (∀ claims, c.Addressed token claims → claims.expiry < now.seconds →
      c.decodeAccessAnyAge token = .error .invalidToken ∧
        c.decodeAccess now token = .error .tokenExpired) ∧
    ∀ e, c.decodeAccessAnyAge token = .error e → e = .invalidToken := by
  have hexpired (claims : AccessClaims) (h : c.Addressed token claims)
      (hlt : claims.expiry < now.seconds) : c.decodeAccessAnyAge token = .error .invalidToken ∧
        c.decodeAccess now token = .error .tokenExpired :=
    ⟨decode_of_addressed h _, by rw [decodeAccess_of_addressed h, if_pos hlt]⟩
  refine ⟨⟨?_, ?_⟩, hexpired, fun e => decodeAccessAnyAge_error⟩
  · rintro heq ⟨claims, haddressed, hlt⟩
    obtain ⟨hany, hnow⟩ := hexpired claims haddressed hlt
    rw [hany, hnow] at heq
    cases heq
  · intro hnone
    cases hany : c.decodeAccessAnyAge token with
    | ok claims => exact decodeAccess_of_anyAge hany now
    | error e =>
      obtain rfl := decodeAccessAnyAge_error hany
      rcases decodeAccess_of_anyAge_error hany with hsame | ⟨claims, haddressed⟩
      · exact hsame now
      · rw [decodeAccess_of_addressed haddressed, if_neg fun hlt => hnone ⟨claims, haddressed, hlt⟩]
        rfl

/-- What another service that shares the secret puts into a token. -/
def otherServicePayload : Json :=
  .record [("sub", .text "ada"), ("email", .text "ada@example.com"), ("roles", .list []),
    ("exp", .int 1600000000), ("is_superuser", .bool false), ("aud", .text "tollgate")]

/-- A token that is accepted at no age is reported as expired. -/
theorem addressed_reported_expired :
    ∃ token, (ofConfig (.withSecret "test-secret")).sign otherServicePayload = .ok token ∧
      (ofConfig (.withSecret "test-secret")).decodeAccessAnyAge token = .error .invalidToken ∧
      (ofConfig (.withSecret "test-secret")).decodeAccess 1700000000000000000 token =
        .error .tokenExpired := by
  obtain ⟨token, htoken⟩ :=
    exists_sign (c := ofConfig (.withSecret "test-secret")) (by decide) otherServicePayload
  have haddressed : (ofConfig (.withSecret "test-secret")).Addressed token
      ⟨"ada", "ada@example.com", .empty, 1600000000, false⟩ := by
    refine ⟨_, ⟨1600000000, true⟩, payload?_sign htoken, ?_, ?_, rfl⟩
    all_goals
      unfold toText
      rw [utf8_ofList]
      decide +kernel
  exact ⟨token, htoken, decode_of_addressed haddressed _, decodeAccess_of_addressed haddressed _⟩

end

end Codec

end Turnstile
