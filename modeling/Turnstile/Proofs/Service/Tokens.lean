import Turnstile.Proofs.Execution
import Turnstile.Proofs.Token.Codec
import Turnstile.Service.Tokens
import Turnstile.Store.Memory

/-! What each token operation does to a store in memory, whatever time passes meanwhile. -/

namespace Turnstile

/-- Programs over a store in memory, where some calls may be lost. -/
abbrev MemoryStore.faulty (ids : Nat → String) (entropy : Nat → Draw)
    (mayFail : Call → AuthError → Prop) : Setting MemoryStore :=
  ⟨MemoryStore.model ids, entropy, mayFail⟩

/-- Programs over a store in memory, where no call is lost. -/
abbrev MemoryStore.setting (ids : Nat → String) (entropy : Nat → Draw) : Setting MemoryStore :=
  MemoryStore.faulty ids entropy fun _ _ => False

open Program

variable {ids : Nat → String} {entropy : Nat → Draw} {w w' : World MemoryStore}

theorem MemoryStore.setting_reliable (ids : Nat → String) (entropy : Nat → Draw) :
    (setting ids entropy).Reliable :=
  fun _ _ h => h

@[simp] theorem MemoryStore.refreshTokens_revoke (s : MemoryStore) (t : Nanos) (key : String)
    (ttl : Nat) : (s.revoke t key ttl).refreshTokens = s.refreshTokens := by
  unfold revoke
  by_cases h : ttl = 0 <;> simp [h]

def Codec.recordOf (c : Codec) (now : Nanos) (userId token : String) : RefreshRecord :=
  ⟨userId, hashToken token, now + c.refreshLifetime, now⟩

namespace Codec

variable {c : Codec}

theorem runs_createAccess {S : Setting MemoryStore} {p : Principal} {r : Except AuthError String}
    (h : Runs S (c.createAccess p) w r w') :
    ∃ t, w.clock ≤ t ∧ t ≤ w'.clock ∧ r = c.encodeAccess (c.accessClaims t p) ∧
      w'.store = w.store := by
  obtain ⟨t, ht, h⟩ := runs_clock h
  obtain ⟨hr, hw⟩ := runs_done h
  exact ⟨t, ht, h.clock_le, hr, by rw [hw]; rfl⟩

/-- Issuing a refresh token stores its record in place of the user's old one. -/
theorem runs_createRefresh (hc : c.algorithm.isSymmetric = true) {p : Principal}
    {r : Except AuthError String}
    (h : Runs (MemoryStore.setting ids entropy) (c.createRefresh p) w r w') :
    ∃ t d t' token, w.clock ≤ t ∧ t ≤ t' ∧ t' ≤ w'.clock ∧
      c.encodeRefresh (c.refreshClaims t d p) = .ok token ∧ r = .ok token ∧
      w'.store = { w.store with
        refreshTokens := w.store.refreshTokens.insert p.subject (c.recordOf t' p.subject token) } := by
  obtain ⟨t, ht, h⟩ := runs_clock h
  obtain ⟨u, hu, h⟩ := runs_draw h
  obtain ⟨token, htoken⟩ : ∃ token,
      c.encodeRefresh (c.refreshClaims t (entropy w.drawn) p) = .ok token := exists_sign hc _
  simp only [bind_eq, done_ok_bind, ofExcept_eq, World.atTime_drawn, htoken] at h
  obtain ⟨t', ht', h⟩ := runs_clock h
  obtain ⟨v, hv, h⟩ := runs_call_of_reliable (MemoryStore.setting_reliable ids entropy) h
  obtain ⟨hr, hw⟩ := runs_done h
  have hend := h.clock_le
  refine ⟨t, entropy w.drawn, t', token, ht, Int.le_trans hu ht', Int.le_trans hv hend, htoken,
    hr, ?_⟩
  rw [hw]
  rfl

/-- Issuing a refresh token at one instant. -/
theorem run_createRefresh {w : World MemoryStore} {p : Principal} {token : String}
    (h : c.encodeRefresh (c.refreshClaims w.clock (entropy w.drawn) p) = .ok token) :
    (c.createRefresh p).run ((MemoryStore.model ids).host entropy) w =
      (some (.ok token),
        { store := { w.store with
            refreshTokens := w.store.refreshTokens.insert p.subject
              (c.recordOf w.clock p.subject token) }
          clock := w.clock
          drawn := w.drawn + 1 }) := by
  unfold createRefresh
  simp only [bind_eq, now_bind, run_clock, fresh_bind, run_draw, ofExcept_eq, h, done_ok_bind]
  rfl

/-- Issuing a pair at one instant. -/
theorem run_createTokens {p : Principal} {access token : String}
    (haccess : c.encodeAccess (c.accessClaims w.clock p) = .ok access)
    (htoken : c.encodeRefresh (c.refreshClaims w.clock (entropy w.drawn) p) = .ok token) :
    (c.createTokens p).run ((MemoryStore.model ids).host entropy) w = (some (.ok ⟨access, token⟩),
      { w with
        store := { w.store with refreshTokens :=
          w.store.refreshTokens.insert p.subject (c.recordOf w.clock p.subject token) }
        drawn := w.drawn + 1 }) := by
  have hfirst : (c.createAccess p).run ((MemoryStore.model ids).host entropy) w =
      (some (.ok access), w) := by
    rw [← haccess]
    rfl
  unfold createTokens
  rw [bind_eq, run_bind hfirst, bind_eq, run_bind (run_createRefresh htoken)]
  rfl

/-- Using up a record that is there. -/
theorem run_consume {record stored : RefreshRecord}
    (hfound : w.store.refreshTokens.get? record.userId = some stored)
    (hhash : stored.tokenHash = record.tokenHash) :
    (consume record).run ((MemoryStore.model ids).host entropy) w = (some (.ok ()), { w with
      store := { w.store with refreshTokens := w.store.refreshTokens.erase record.userId } }) := by
  have hdelete :
      MemoryStore.model ids w.clock (.deleteMatching record.userId record.tokenHash) w.store =
        (.ok true, { w.store with
          refreshTokens := w.store.refreshTokens.erase record.userId }) := by
    simp only [MemoryStore.model, MemoryStore.deleteMatching, hfound, hhash, if_true]
  unfold consume
  rw [bind_eq, run_ask hdelete]
  rfl

/-- A check made at one instant: the deny-list is asked about a token that has not expired. -/
theorem run_checkAccess (ids : Nat → String) (entropy : Nat → Draw) (w : World MemoryStore)
    (token : String) :
    (c.checkAccess token).run ((MemoryStore.model ids).host entropy) w =
      match c.decodeAccess w.clock token with
      | .error e => (some (.error e), w)
      | .ok claims =>
        (some (if (w.store.isRevoked w.clock (blacklistKey token)).1 then .error .tokenRevoked
          else .ok claims),
          { w with store := (w.store.isRevoked w.clock (blacklistKey token)).2 }) := by
  unfold checkAccess tokenData
  simp only [bind_eq, now_bind, ofExcept_eq, clock_bind, run_clock]
  cases c.decodeAccess w.clock token with
  | error e => rfl
  | ok claims =>
    have hasked : MemoryStore.model ids w.clock (.isRevoked (blacklistKey token)) w.store =
        (.ok (w.store.isRevoked w.clock (blacklistKey token)).1,
          (w.store.isRevoked w.clock (blacklistKey token)).2) := rfl
    rw [done_ok_bind, run_ask hasked]
    cases (w.store.isRevoked w.clock (blacklistKey token)).1 <;> rfl

/-- A check verifies a token at one instant and asks the deny-list at another. -/
theorem runs_checkAccess {token : String} {r : Except AuthError AccessClaims}
    (h : Runs (MemoryStore.setting ids entropy) (c.checkAccess token) w r w') :
    ∃ t, w.clock ≤ t ∧ t ≤ w'.clock ∧
      ((∃ e, r = .error e ∧ c.decodeAccess t token = .error e) ∨
        ∃ claims t', t ≤ t' ∧ t' ≤ w'.clock ∧ c.decodeAccess t token = .ok claims ∧
          r = if (w.store.isRevoked t' (blacklistKey token)).1 then .error .tokenRevoked
            else .ok claims) := by
  obtain ⟨t, ht, h⟩ := runs_clock h
  have hend := h.clock_le
  cases hd : c.decodeAccess t token with
  | error e =>
    simp only [bind_eq, done_ok_bind, ofExcept_eq, hd, done_error_bind] at h
    obtain ⟨hr, -⟩ := runs_done h
    exact ⟨t, ht, hend, .inl ⟨e, hr, hd⟩⟩
  | ok claims =>
    simp only [bind_eq, done_ok_bind, ofExcept_eq, hd] at h
    obtain ⟨t', ht', h⟩ := runs_call_of_reliable (MemoryStore.setting_reliable ids entropy) h
    have hend' := h.clock_le
    refine ⟨t, ht, hend, .inr ⟨claims, t', ht', hend', hd, ?_⟩⟩
    simp only [MemoryStore.model, World.atTime_store] at h
    cases hb : (w.store.isRevoked t' (blacklistKey token)).1 with
    | true =>
      simp only [hb] at h
      exact (runs_done h).1
    | false =>
      simp only [hb] at h
      exact (runs_done h).1

/-- A check of a refresh token only looks for a record. -/
theorem callsOnly_checkRefresh (token : String) :
    (c.checkRefresh token).CallsOnly fun d => d.method = .findByUser := by
  intro t
  simp only [bind_eq, done_ok_bind]
  cases c.decodeRefresh t token with
  | error e => trivial
  | ok claims =>
    refine CallsOnly.bind ⟨rfl, fun r => trivial⟩ fun found => ?_
    cases found with
    | none => trivial
    | some record =>
      dsimp only
      split_ifs
      · trivial
      · intro t
        simp only [done_ok_bind]
        split_ifs <;> trivial

/-- A refresh token is refused, or it is the one stored for its subject. -/
theorem runs_checkRefresh {token : String} {r : Except AuthError (RefreshClaims × RefreshRecord)}
    (h : Runs (MemoryStore.setting ids entropy) (c.checkRefresh token) w r w') :
    w'.store = w.store ∧ (r = .error .invalidRefreshToken ∨
      ∃ claims record t, w.clock ≤ t ∧ t ≤ w'.clock ∧ r = .ok (claims, record) ∧
        c.decodeRefresh t token = .ok claims ∧
        w.store.refreshTokens.get? claims.subject = some record ∧
        record.tokenHash = hashToken token) := by
  obtain ⟨t, ht, h⟩ := runs_clock h
  have hend := h.clock_le
  simp only [bind_eq, done_ok_bind] at h
  cases hd : c.decodeRefresh t token with
  | error e =>
    simp only [hd, fail_eq] at h
    obtain ⟨hr, hw⟩ := runs_done h
    exact ⟨by rw [hw]; rfl, .inl hr⟩
  | ok claims =>
    simp only [hd] at h
    obtain ⟨u, hu, h⟩ := runs_call_of_reliable (MemoryStore.setting_reliable ids entropy) h
    simp only [MemoryStore.model, World.atTime_store] at h
    cases hfound : w.store.refreshTokens.get? claims.subject with
    | none =>
      simp only [hfound, done_ok_bind] at h
      obtain ⟨hr, hw⟩ := runs_done h
      exact ⟨by rw [hw]; rfl, .inl hr⟩
    | some record =>
      simp only [hfound, done_ok_bind] at h
      by_cases hhash : record.tokenHash = hashToken token
      · simp only [hhash, ne_eq, not_true, if_false] at h
        obtain ⟨v, hv, h⟩ := runs_clock h
        simp only [done_ok_bind] at h
        by_cases hlive : record.expiresAt ≤ v
        · simp only [hlive, if_true, fail_eq, done_error_bind] at h
          obtain ⟨hr, hw⟩ := runs_done h
          exact ⟨by rw [hw]; rfl, .inl hr⟩
        · simp only [hlive, if_false] at h
          obtain ⟨hr, hw⟩ := runs_done h
          exact ⟨by rw [hw]; rfl, .inr ⟨claims, record, t, ht, hend, hr, hd, hfound, hhash⟩⟩
      · simp only [hhash, ne_eq, not_false_eq_true, if_true, fail_eq, done_error_bind] at h
        obtain ⟨hr, hw⟩ := runs_done h
        exact ⟨by rw [hw]; rfl, .inl hr⟩

/-- A check made at one instant leaves the world as it is. It answers with the record stored for the
token, if there is one and neither has expired, and refuses any other token. -/
theorem run_checkRefresh (ids : Nat → String) (entropy : Nat → Draw) (w : World MemoryStore)
    (token : String) :
    ∃ r, (c.checkRefresh token).run ((MemoryStore.model ids).host entropy) w = (some r, w) ∧
      (∀ claims record, r = .ok (claims, record) ↔ c.decodeRefresh w.clock token = .ok claims ∧
        w.store.refreshTokens.get? claims.subject = some record ∧
        record.tokenHash = hashToken token ∧ w.clock < record.expiresAt) ∧
      ∀ e, r = .error e → e = .invalidRefreshToken := by
  unfold checkRefresh
  simp only [bind_eq, now_bind, run_clock]
  cases hd : c.decodeRefresh w.clock token with
  | error e => exact ⟨.error .invalidRefreshToken, rfl, by simp, by simp⟩
  | ok claims =>
    rw [run_ask rfl]
    cases hfound : w.store.refreshTokens.get? claims.subject with
    | none =>
      refine ⟨.error .invalidRefreshToken, rfl, fun claims' record => ?_, by simp⟩
      constructor
      · intro h
        cases h
      · rintro ⟨he, hget, -⟩
        rw [← Except.ok.inj he, hfound] at hget
        cases hget
    | some record =>
      by_cases hlive : record.tokenHash = hashToken token ∧ w.clock < record.expiresAt
      · refine ⟨.ok (claims, record), ?_, fun claims' record' => ?_, by simp⟩
        · simp [hlive.1, Int.not_le.mpr hlive.2, run_clock, run_done]
        · constructor
          · intro h
            obtain ⟨rfl, rfl⟩ := Prod.mk.inj (Except.ok.inj h)
            exact ⟨rfl, hfound, hlive⟩
          · rintro ⟨he, hget, -⟩
            obtain rfl := Except.ok.inj he
            rw [Option.some.inj (hfound.symm.trans hget)]
      · refine ⟨.error .invalidRefreshToken, ?_, fun claims' record' => ?_, by simp⟩
        · by_cases hhash : record.tokenHash = hashToken token
          · have hexpired : record.expiresAt ≤ w.clock := Int.not_lt.mp fun hlt => hlive ⟨hhash, hlt⟩
            simp [hhash, hexpired, run_clock, run_done]
          · simp [hhash, run_done]
        · constructor
          · intro h
            cases h
          · rintro ⟨he, hget, hrest⟩
            obtain rfl := Except.ok.inj he
            rw [← Option.some.inj (hfound.symm.trans hget)] at hrest
            exact absurd hrest hlive

/-- Using up a record deletes it, or it was gone already. -/
theorem runs_consume {record : RefreshRecord} {r : Except AuthError Unit}
    (h : Runs (MemoryStore.setting ids entropy) (consume record) w r w') :
    (r = .error .invalidRefreshToken ∧ w'.store = w.store) ∨
      (r = .ok () ∧ (∃ stored, w.store.refreshTokens.get? record.userId = some stored ∧
        stored.tokenHash = record.tokenHash) ∧
        w'.store = { w.store with
          refreshTokens := w.store.refreshTokens.erase record.userId }) := by
  obtain ⟨t, ht, h⟩ := runs_call_of_reliable (MemoryStore.setting_reliable ids entropy) h
  simp only [MemoryStore.model, MemoryStore.deleteMatching] at h
  cases hfound : w.store.refreshTokens.get? record.userId with
  | none =>
    simp only [hfound] at h
    obtain ⟨hr, hw⟩ := runs_done h
    exact .inl ⟨hr, by rw [hw]; rfl⟩
  | some stored =>
    by_cases hhash : stored.tokenHash = record.tokenHash
    · simp only [hfound, hhash, if_true] at h
      obtain ⟨hr, hw⟩ := runs_done h
      exact .inr ⟨hr, ⟨stored, rfl, hhash⟩, by rw [hw]; rfl⟩
    · simp only [hfound, hhash, if_false] at h
      obtain ⟨hr, hw⟩ := runs_done h
      exact .inl ⟨hr, by rw [hw]; rfl⟩

/-- A fresh pair: only the refresh token leaves a trace in the store. -/
theorem runs_createTokens (hc : c.algorithm.isSymmetric = true) {p : Principal}
    {r : Except AuthError TokenPair}
    (h : Runs (MemoryStore.setting ids entropy) (c.createTokens p) w r w') :
    ∃ u t d t' access token, w.clock ≤ u ∧ u ≤ t ∧ t ≤ t' ∧ t' ≤ w'.clock ∧
      c.encodeAccess (c.accessClaims u p) = .ok access ∧
      c.encodeRefresh (c.refreshClaims t d p) = .ok token ∧ r = .ok ⟨access, token⟩ ∧
      w'.store = { w.store with
        refreshTokens := w.store.refreshTokens.insert p.subject (c.recordOf t' p.subject token) } := by
  rcases runs_bind h with ⟨access, w₁, h₁, h⟩ | ⟨e, -, h₁⟩
  · obtain ⟨u, hu, hu', haccess, hs₁⟩ := runs_createAccess h₁
    rcases runs_bind h with ⟨token, w₂, h₂, h⟩ | ⟨e, -, h₂⟩
    · obtain ⟨t, d, t', token', ht, htt, ht', htoken, hr, hs₂⟩ := runs_createRefresh hc h₂
      obtain rfl := Except.ok.inj hr
      obtain ⟨hr, hw⟩ := runs_done h
      refine ⟨u, t, d, t', access, token, hu, Int.le_trans hu' ht, htt, Int.le_trans ht' h.clock_le,
        haccess.symm, htoken, hr, ?_⟩
      rw [hw, World.atTime_store, hs₂, hs₁]
    · obtain ⟨t, d, t', token', -, -, -, -, hr, -⟩ := runs_createRefresh hc h₂
      cases hr
  · obtain ⟨u, -, -, haccess, -⟩ := runs_createAccess h₁
    obtain ⟨token, htoken⟩ : ∃ token, c.encodeAccess (c.accessClaims u p) = .ok token :=
      exists_sign hc _
    rw [htoken] at haccess
    cases haccess

theorem symmetric_of_createTokens {S : Setting MemoryStore} {p : Principal} {pair : TokenPair}
    (h : Runs S (c.createTokens p) w (.ok pair) w') : c.algorithm.isSymmetric = true := by
  obtain ⟨access, w₁, h₁, -⟩ := runs_bind_ok h
  obtain ⟨t, -, -, haccess, -⟩ := runs_createAccess h₁
  exact symmetric_of_sign haccess.symm

/-- Rotating uses up the record and issues a pair for its user, or changes nothing. -/
theorem runs_rotate (hc : c.algorithm.isSymmetric = true) {p : Principal} {record : RefreshRecord}
    {r : Except AuthError TokenPair}
    (h : Runs (MemoryStore.setting ids entropy) (c.rotate p record) w r w') :
    (r = .error .invalidRefreshToken ∧ w'.store = w.store) ∨
      (p.subject = record.userId ∧ (∃ stored, w.store.refreshTokens.get? record.userId = some stored ∧
        stored.tokenHash = record.tokenHash) ∧
      ∃ u t d t' access token, w.clock ≤ u ∧ u ≤ t ∧ t ≤ t' ∧ t' ≤ w'.clock ∧
        c.encodeAccess (c.accessClaims u p) = .ok access ∧
        c.encodeRefresh (c.refreshClaims t d p) = .ok token ∧ r = .ok ⟨access, token⟩ ∧
        w'.store = { w.store with
          refreshTokens := (w.store.refreshTokens.erase record.userId).insert p.subject
            (c.recordOf t' p.subject token) }) := by
  unfold rotate at h
  by_cases hp : p.subject = record.userId
  · simp only [hp, ne_eq, not_true, if_false, bind_eq] at h
    rcases runs_bind h with ⟨a, w₁, h₁, h⟩ | ⟨e, he, h₁⟩
    · rcases runs_consume h₁ with ⟨hr, -⟩ | ⟨-, hstored, hs₁⟩
      · cases hr
      · obtain ⟨u, t, d, t', access, token, hu, ht, htt, ht', haccess, htoken, hr, hs⟩ :=
          runs_createTokens hc h
        refine .inr ⟨hp, hstored, u, t, d, t', access, token, Int.le_trans h₁.clock_le hu, ht, htt,
          ht', haccess, htoken, hr, ?_⟩
        rw [hs, hs₁]
    · rcases runs_consume h₁ with ⟨hr, hs⟩ | ⟨hr, -, -⟩
      · rw [he, Except.error.inj hr]
        exact .inl ⟨rfl, hs⟩
      · cases hr
  · simp only [hp, ne_eq, not_false_eq_true, if_true, bind_eq, fail_eq, done_error_bind] at h
    obtain ⟨hr, hw⟩ := runs_done h
    exact .inl ⟨hr, by rw [hw]; rfl⟩

theorem symmetric_of_rotate {S : Setting MemoryStore} {p : Principal} {record : RefreshRecord}
    {pair : TokenPair} (h : Runs S (c.rotate p record) w (.ok pair) w') :
    c.algorithm.isSymmetric = true := by
  unfold rotate at h
  split_ifs at h
  · cases (runs_done h).1
  · obtain ⟨_, w₁, -, h⟩ := runs_bind_ok h
    exact symmetric_of_createTokens h

/-- The time left is computed at one instant and counted from a later one. -/
theorem runs_denyFor {token : String} {claims : AccessClaims} {r : Except AuthError Unit}
    (h : Runs (MemoryStore.setting ids entropy) (denyFor token claims) w r w') :
    r = .ok () ∧ ∃ t t', w.clock ≤ t ∧ t ≤ t' ∧ t' ≤ w'.clock ∧
      w'.store = w.store.revoke t' (blacklistKey token) (remainingLifetime claims.expiry t) := by
  obtain ⟨t, ht, h⟩ := runs_clock h
  obtain ⟨t', ht', h⟩ := runs_call_of_reliable (MemoryStore.setting_reliable ids entropy) h
  obtain ⟨hr, hw⟩ := runs_done h
  exact ⟨hr, t, t', ht, ht', h.clock_le, by rw [hw]; rfl⟩

/-- Putting a token on the deny-list at one instant. -/
theorem run_denyFor (ids : Nat → String) (entropy : Nat → Draw) (w : World MemoryStore) (token : String)
    (claims : AccessClaims) :
    (denyFor token claims).run ((MemoryStore.model ids).host entropy) w =
      (some (.ok ()), { w with
        store := w.store.revoke w.clock (blacklistKey token)
          (remainingLifetime claims.expiry w.clock) }) := rfl

/-- Putting a token on the deny-list takes a token with access claims of any age. -/
theorem runs_blacklist {token : String} {r : Except AuthError Unit}
    (h : Runs (MemoryStore.setting ids entropy) (c.blacklist token) w r w') :
    (∃ e, r = .error e ∧ c.decodeAccessAnyAge token = .error e ∧ w'.store = w.store) ∨
      ∃ claims t t', c.decodeAccessAnyAge token = .ok claims ∧ r = .ok () ∧
        w.clock ≤ t ∧ t ≤ t' ∧ t' ≤ w'.clock ∧
        w'.store = w.store.revoke t' (blacklistKey token) (remainingLifetime claims.expiry t) := by
  unfold blacklist at h
  simp only [bind_eq, ofExcept_eq] at h
  cases hd : c.decodeAccessAnyAge token with
  | error e =>
    simp only [hd, done_error_bind] at h
    obtain ⟨hr, hw⟩ := runs_done h
    exact .inl ⟨e, hr, rfl, by rw [hw]; rfl⟩
  | ok claims =>
    simp only [hd, done_ok_bind] at h
    obtain ⟨hr, t, t', ht, htt, ht', hs⟩ := runs_denyFor h
    exact .inr ⟨claims, t, t', rfl, hr, ht, htt, ht', hs⟩

/-- Ending a session uses up the stored refresh record and puts the access token on the deny-list,
or changes nothing. -/
theorem runs_revokePair {access refresh : String} {r : Except AuthError Unit}
    (h : Runs (MemoryStore.setting ids entropy) (c.revokePair access refresh) w r w') :
    (∃ e, r = .error e ∧ w'.store = w.store) ∨
      ∃ refreshClaims record claims t₀ t t', r = .ok () ∧
        w.clock ≤ t₀ ∧ t₀ ≤ t ∧ t ≤ t' ∧ t' ≤ w'.clock ∧
        c.decodeRefresh t₀ refresh = .ok refreshClaims ∧
        w.store.refreshTokens.get? refreshClaims.subject = some record ∧
        record.tokenHash = hashToken refresh ∧
        c.decodeAccessAnyAge access = .ok claims ∧ claims.subject = refreshClaims.subject ∧
        (∃ stored, w.store.refreshTokens.get? record.userId = some stored ∧
          stored.tokenHash = record.tokenHash) ∧
        w'.store = { w.store with
          refreshTokens := w.store.refreshTokens.erase record.userId }.revoke t'
            (blacklistKey access) (remainingLifetime claims.expiry t) := by
  rcases runs_bind h with ⟨⟨refreshClaims, record⟩, w₁, h₁, h⟩ | ⟨e, he, h₁⟩
  · obtain ⟨hs₁, hr | ⟨_, _, t₀, ht₀, ht₁, hr, hrefresh, hfound, hhash⟩⟩ := runs_checkRefresh h₁
    · cases hr
    · obtain ⟨rfl, rfl⟩ := Prod.mk.inj (Except.ok.inj hr)
      simp only [bind_eq, ofExcept_eq] at h
      cases hd : c.decodeAccessAnyAge access with
      | error e =>
        simp only [hd, done_error_bind] at h
        obtain ⟨hr, hw⟩ := runs_done h
        exact .inl ⟨e, hr, by rw [hw, World.atTime_store, hs₁]⟩
      | ok claims =>
        simp only [hd, done_ok_bind] at h
        by_cases hsub : claims.subject = refreshClaims.subject
        · simp only [hsub, ne_eq, not_true, if_false] at h
          rcases runs_bind h with ⟨_, w₂, h₂, h⟩ | ⟨e, he, h₂⟩
          · rcases runs_consume h₂ with ⟨hr, -⟩ | ⟨-, hstored, hs₂⟩
            · cases hr
            · obtain ⟨hr, t, t', ht, htt, ht', hs⟩ := runs_denyFor h
              refine .inr ⟨refreshClaims, record, claims, t₀, t, t', hr, ht₀, ?_, htt, ht',
                hrefresh, hfound, hhash, rfl, hsub, hs₁ ▸ hstored, ?_⟩
              · exact Int.le_trans (Int.le_trans ht₁ h₂.clock_le) ht
              · rw [hs, hs₂, hs₁]
          · rcases runs_consume h₂ with ⟨-, hs₂⟩ | ⟨hr, -, -⟩
            · exact .inl ⟨e, he, by rw [hs₂, hs₁]⟩
            · cases hr
        · simp only [hsub, ne_eq, not_false_eq_true, if_true, fail_eq, done_error_bind] at h
          obtain ⟨hr, hw⟩ := runs_done h
          exact .inl ⟨_, hr, by rw [hw, World.atTime_store, hs₁]⟩
  · obtain ⟨hs₁, -⟩ := runs_checkRefresh h₁
    exact .inl ⟨e, he, hs₁⟩

end Codec

end Turnstile
