import Turnstile.Proofs.Execution
import Turnstile.Proofs.Token.Codec
import Turnstile.Service.Tokens

/-! No kind of token stands for the other. Access claims lack the identifier that refresh claims must
have, and refresh claims lack the roles; nothing that the claims say makes up for it. -/

namespace Turnstile

open Program Json

def IsInt64 (n : Int) : Prop :=
  int64Min ≤ n ∧ n ≤ int64Max

/-- Access claims are no refresh claims: no member gives them an identifier. -/
theorem RefreshClaims.parse_accessClaims {claims : AccessClaims} (h : IsInt64 claims.expiry) :
    format.parse (utf8 (AccessClaims.format.write claims)) = .error .shape := by
  refine Format.parse_record_error format [some (.text claims.subject), some (.text claims.email),
    some (.int claims.expiry), none] ?_ rfl
  refine .known 0 _ rfl rfl rfl (reads_text _) ?_
  refine .known 1 _ rfl rfl rfl (reads_text _) ?_
  refine .unknown rfl (skips_texts _) ?_
  refine .known 2 _ rfl rfl rfl (reads_int64 h.1 h.2) ?_
  exact .unknown rfl (skips_bool _) (.nil _)

/-- Refresh claims are no access claims: no member gives them roles. -/
theorem AccessClaims.parse_refreshClaims {claims : RefreshClaims} (h : IsInt64 claims.expiry) :
    format.parse (utf8 (RefreshClaims.format.write claims)) = .error .shape := by
  refine Format.parse_record_error format [some (.text claims.subject), some (.text claims.email),
    none, some (.int claims.expiry), none] ?_ rfl
  refine .known 0 _ rfl rfl rfl (reads_text _) ?_
  refine .known 1 _ rfl rfl rfl (reads_text _) ?_
  refine .known 3 _ rfl rfl rfl (reads_int64 h.1 h.2) ?_
  exact .unknown rfl (skips_text _) (.nil _)

namespace Codec

variable {c : Codec} {token access refresh : String}

/-- A token signed for claims of another format is no token, whatever its age. -/
theorem decode_sign_error {α : Type} {format : Json.Format α} {v : Json} {expired : Int → Bool}
    {e : Json.Fault} (h : c.sign v = .ok token) (hparse : format.parse (utf8 v.toText) = .error e) :
    c.decode format expired token = .error .invalidToken := by
  unfold decode
  simp only [payload?_sign h, hparse]
  rfl

theorem decodeRefresh_encodeAccess {claims : AccessClaims} (hexpiry : IsInt64 claims.expiry)
    (h : c.encodeAccess claims = .ok token) (now : Nanos) :
    c.decodeRefresh now token = .error .invalidToken := by
  have hdecode : c.decode RefreshClaims.format (· < now.seconds) token = .error .invalidToken :=
    decode_sign_error h (RefreshClaims.parse_accessClaims hexpiry)
  unfold decodeRefresh decodeAt
  rw [hdecode]
  rfl

theorem decodeAccessAnyAge_encodeRefresh {claims : RefreshClaims} (hexpiry : IsInt64 claims.expiry)
    (h : c.encodeRefresh claims = .ok token) : c.decodeAccessAnyAge token = .error .invalidToken :=
  decode_sign_error h (AccessClaims.parse_refreshClaims hexpiry)

theorem decodeAccess_encodeRefresh {claims : RefreshClaims} (hexpiry : IsInt64 claims.expiry)
    (h : c.encodeRefresh claims = .ok token) (now : Nanos) :
    c.decodeAccess now token = .error .invalidToken := by
  have hdecode : c.decode AccessClaims.format (· < now.seconds) token = .error .invalidToken :=
    decode_sign_error h (AccessClaims.parse_refreshClaims hexpiry)
  unfold decodeAccess decodeAt
  rw [hdecode]
  rfl

/-- What does not verify as a refresh token is refused before the store is asked. -/
theorem checkRefresh_of_error {e : AuthError} (h : ∀ now, c.decodeRefresh now token = .error e) :
    c.checkRefresh token = now >>= fun _ => fail .invalidRefreshToken := by
  unfold checkRefresh
  congr 1
  funext t
  simp only [h]

theorem checkAccess_of_error {e : AuthError} (h : ∀ now, c.decodeAccess now token = .error e) :
    c.checkAccess token = now >>= fun _ => fail e := by
  unfold checkAccess tokenData
  simp only [h]
  rfl

/-- A session does not end with what is no access token, even if the refresh token is in force. -/
theorem revokePair_of_error {e : AuthError} (h : c.decodeAccessAnyAge access = .error e) :
    c.revokePair access refresh = c.checkRefresh refresh >>= fun _ => fail e := by
  unfold revokePair
  simp only [h]
  rfl

/-- No kind of token stands for the other. A signed access token never verifies as a refresh token and
a signed refresh token never as an access token, not even as an expired one, whatever their claims say.
So every service refuses the other kind, and leaves the state of its host as it is; a logout with a
refresh token in place of the access token fails in the way in which the check of its refresh token
does, and otherwise for the access token. -/
theorem kinds_never_substitute (hsym : c.algorithm.isSymmetric = true) {claims : AccessClaims}
    {refreshClaims : RefreshClaims} (hexpiry : IsInt64 claims.expiry)
    (hexpiry' : IsInt64 refreshClaims.expiry) :
    ∃ access refresh, c.encodeAccess claims = .ok access ∧
      c.encodeRefresh refreshClaims = .ok refresh ∧
      (∀ now, c.decodeRefresh now access = .error .invalidToken) ∧
      (∀ now, c.decodeAccess now refresh = .error .invalidToken) ∧
      c.decodeAccessAnyAge refresh = .error .invalidToken ∧
      ∀ (σ : Type) (h : Host σ) (s : σ) (other : String),
        (c.checkRefresh access).run h s = (some (.error .invalidRefreshToken), s) ∧
        (c.revokePair other access).run h s = (some (.error .invalidRefreshToken), s) ∧
        (c.checkAccess refresh).run h s = (some (.error .invalidToken), s) ∧
        (c.blacklist refresh).run h s = (some (.error .invalidToken), s) ∧
        (c.revokePair refresh other).run h s =
          match (c.checkRefresh other).run h s with
          | (some (.ok _), s') => (some (.error .invalidToken), s')
          | (some (.error e), s') => (some (.error e), s')
          | (none, s') => (none, s') := by
  obtain ⟨access, haccess⟩ : ∃ access, c.encodeAccess claims = .ok access := exists_sign hsym _
  obtain ⟨refresh, hrefresh⟩ : ∃ refresh, c.encodeRefresh refreshClaims = .ok refresh :=
    exists_sign hsym _
  have hnoRefresh := decodeRefresh_encodeAccess hexpiry haccess
  have hnoAccess := decodeAccess_encodeRefresh hexpiry' hrefresh
  have hnoAnyAge := decodeAccessAnyAge_encodeRefresh hexpiry' hrefresh
  refine ⟨access, refresh, haccess, hrefresh, hnoRefresh, hnoAccess, hnoAnyAge,
    fun σ h s other => ?_⟩
  have hcheck : (c.checkRefresh access).run h s = (some (.error .invalidRefreshToken), s) := by
    rw [checkRefresh_of_error hnoRefresh]
    rfl
  refine ⟨hcheck, run_bind_error hcheck, ?_, ?_, ?_⟩
  · rw [checkAccess_of_error hnoAccess]
    rfl
  · unfold blacklist
    rw [hnoAnyAge]
    rfl
  · rw [revokePair_of_error hnoAnyAge, bind_eq, run_bind_eq]
    rcases (c.checkRefresh other).run h s with ⟨_ | _ | _, s'⟩ <;> rfl

/-- An access token that expired long ago and whose subject imitates an identifier, and a refresh
token whose identifier imitates roles. -/
theorem kinds_never_substitute_imitations :
    ∃ access refresh,
      (Codec.ofConfig (.withSecret "secret")).encodeAccess
        ⟨"ada\",\"jti\":\"1", "", .empty, -1, false⟩ = .ok access ∧
      (Codec.ofConfig (.withSecret "secret")).encodeRefresh
        ⟨"ada", "", int64Min, "1\",\"roles\":[],\"is_superuser\":\"\""⟩ = .ok refresh ∧
      ∀ now, (Codec.ofConfig (.withSecret "secret")).decodeRefresh now access =
          .error .invalidToken ∧
        (Codec.ofConfig (.withSecret "secret")).decodeAccess now refresh =
          .error .invalidToken := by
  obtain ⟨access, refresh, haccess, hrefresh, hnoRefresh, hnoAccess, -⟩ := kinds_never_substitute
    (show (Codec.ofConfig (.withSecret "secret")).algorithm.isSymmetric = true from rfl)
    (show IsInt64 (AccessClaims.expiry ⟨"ada\",\"jti\":\"1", "", .empty, -1, false⟩) by
      exact ⟨by decide, by decide⟩)
    (show IsInt64 (RefreshClaims.expiry
        ⟨"ada", "", int64Min, "1\",\"roles\":[],\"is_superuser\":\"\""⟩) by
      exact ⟨by decide, by decide⟩)
  exact ⟨access, refresh, haccess, hrefresh, fun now => ⟨hnoRefresh now, hnoAccess now⟩⟩

end Codec

end Turnstile
