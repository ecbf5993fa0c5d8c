import Turnstile.Proofs.Service.Tokens
import Turnstile.Proofs.Store.Memory

/-! What a failed logout leaves behind. Whatever is wrong with the tokens, and whichever call to the
store is lost, nothing is changed; with one exception. The refresh record is used up before the access
token goes on the deny-list, so when that last call is lost, the record is gone already. -/

namespace Turnstile

open Program

variable {c : Codec} {ids : Nat → String} {entropy : Nat → Draw} {mayFail : Call → AuthError → Prop}
  {w w' : World MemoryStore} {xs : List Exchange}

namespace FailedLogout

/-- The record of a refresh token is deleted, and nothing else is changed. -/
def Spends (refresh : String) (s s' : MemoryStore) : Prop :=
  ∃ userId record, s.refreshTokens.get? userId = some record ∧
    record.tokenHash = hashToken refresh ∧
    s' = { s with refreshTokens := s.refreshTokens.erase userId }

theorem Spends.ne {refresh : String} {s s' : MemoryStore} (h : Spends refresh s s') : s' ≠ s := by
  obtain ⟨userId, record, hfound, -, rfl⟩ := h
  intro heq
  exact Table.erase_ne _ _ _ hfound (congrArg MemoryStore.refreshTokens heq)

private theorem traced_checkRefresh {token : String}
    {r : Except AuthError (RefreshClaims × RefreshRecord)}
    (h : Traced (MemoryStore.faulty ids entropy mayFail) (c.checkRefresh token) w xs r w') :
    w'.store = w.store ∧ ∀ x ∈ xs, x.call.method ≠ .revoke := by
  have hcalls := Codec.callsOnly_checkRefresh (c := c) token
  constructor
  · refine hcalls.keeps (I := fun s => s = w.store) (fun t d s hd hs => ?_) h.runs rfl
    have hreads : MemoryStore.Reads d := by
      cases d with
      | findByUser userId => trivial
      | _ => cases hd
    exact (MemoryStore.model_reads ids t s hreads).trans hs
  · intro x hx hrevoke
    cases (hcalls.traced h x hx).symm.trans hrevoke

/-- The record a check returns is the one of the token, whatever the store does. -/
private theorem hash_of_traced_checkRefresh {token : String} {claims : RefreshClaims}
    {record : RefreshRecord}
    (h : Traced (MemoryStore.faulty ids entropy mayFail) (c.checkRefresh token) w xs
      (.ok (claims, record)) w') : record.tokenHash = hashToken token := by
  obtain ⟨t, -, h⟩ := traced_clock h
  simp only [bind_eq, done_ok_bind] at h
  cases hd : c.decodeRefresh t token with
  | error e =>
    simp only [hd, fail_eq] at h
    cases (traced_done h).2.1
  | ok claims' =>
    simp only [hd] at h
    obtain ⟨t', ys, -, ⟨-, hanswered⟩ | ⟨e, -, -, hlost⟩⟩ := traced_call h
    · simp only [MemoryStore.model] at hanswered
      cases hfound : (w.atTime t).store.refreshTokens.get? claims'.subject with
      | none =>
        simp only [hfound, done_ok_bind] at hanswered
        cases (traced_done hanswered).2.1
      | some found =>
        simp only [hfound, done_ok_bind] at hanswered
        by_cases hhash : found.tokenHash = hashToken token
        · simp only [hhash, ne_eq, not_true, if_false] at hanswered
          obtain ⟨u, -, hlast⟩ := traced_clock hanswered
          simp only [done_ok_bind] at hlast
          split_ifs at hlast
          · cases (traced_done hlast).2.1
          · obtain ⟨-, rfl⟩ := Prod.mk.inj (Except.ok.inj (traced_done hlast).2.1)
            exact hhash
        · simp only [hhash, ne_eq, not_false_eq_true, if_true, fail_eq, done_error_bind] at hanswered
          cases (traced_done hanswered).2.1
    · cases (traced_done hlost).2.1

private theorem traced_consume {record : RefreshRecord} {refresh : String}
    {r : Except AuthError Unit} (hhash : record.tokenHash = hashToken refresh)
    (h : Traced (MemoryStore.faulty ids entropy mayFail) (consume record) w xs r w') :
    (∀ x ∈ xs, x.call.method ≠ .revoke) ∧
      (((∃ e, r = .error e) ∧ w'.store = w.store) ∨
        (r = .ok () ∧ Spends refresh w.store w'.store)) := by
  obtain ⟨t, ys, -, ⟨hxs, hend⟩ | ⟨e, -, hxs, hend⟩⟩ := traced_call h
  · simp only [MemoryStore.model, MemoryStore.deleteMatching] at hend
    cases hfound : w.store.refreshTokens.get? record.userId with
    | none =>
      simp only [hfound] at hend
      obtain ⟨rfl, hr, hw⟩ := traced_done hend
      exact ⟨by simp [hxs, Call.method], .inl ⟨⟨_, hr⟩, by rw [hw]; rfl⟩⟩
    | some stored =>
      by_cases hmatch : stored.tokenHash = record.tokenHash
      · simp only [hfound, hmatch, if_true] at hend
        obtain ⟨rfl, hr, hw⟩ := traced_done hend
        refine ⟨by simp [hxs, Call.method], .inr ⟨hr, record.userId, stored, hfound, ?_, ?_⟩⟩
        · exact hmatch.trans hhash
        · rw [hw]
          rfl
      · simp only [hfound, hmatch, if_false] at hend
        obtain ⟨rfl, hr, hw⟩ := traced_done hend
        exact ⟨by simp [hxs, Call.method], .inl ⟨⟨_, hr⟩, by rw [hw]; rfl⟩⟩
  · obtain ⟨rfl, hr, hw⟩ := traced_done hend
    exact ⟨by simp [hxs, Call.method], .inl ⟨⟨e, hr⟩, by rw [hw]; rfl⟩⟩

private theorem traced_denyFor {access : String} {claims : AccessClaims} {e : AuthError}
    (h : Traced (MemoryStore.faulty ids entropy mayFail) (denyFor access claims) w xs (.error e) w') :
    w'.store = w.store ∧ ∃ key ttl, xs = [⟨.revoke key ttl, .error e⟩] := by
  obtain ⟨t, -, hcall⟩ := traced_clock h
  -- The store itself never refuses to put a token on the deny-list: the failure is a lost call.
  obtain ⟨t', ys, -, ⟨-, hend⟩ | ⟨e', -, hxs, hend⟩⟩ := traced_call hcall
  · obtain ⟨-, hr, -⟩ := traced_done hend
    cases hr
  · obtain ⟨rfl, hr, hw⟩ := traced_done hend
    obtain rfl := Except.error.inj hr
    exact ⟨by rw [hw]; rfl, _, _, hxs⟩

/-- A logout fails before anything is changed, or it loses the call to the deny-list when the refresh
record is spent. -/
private theorem traced_revokePair {access refresh : String} {e : AuthError}
    (h : Traced (MemoryStore.faulty ids entropy mayFail) (c.revokePair access refresh) w xs (.error e)
      w') :
    (w'.store = w.store ∧ ∀ x ∈ xs, x.call.method ≠ .revoke) ∨
      (Spends refresh w.store w'.store ∧ ∃ ys key ttl, xs = ys ++ [⟨.revoke key ttl, .error e⟩] ∧
        ∀ x ∈ ys, x.call.method ≠ .revoke) := by
  rcases traced_bind h with ⟨⟨refreshClaims, record⟩, w₁, ys, zs, hxs, h₁, h⟩ | ⟨e', -, h₁⟩
  · obtain ⟨hs₁, hys⟩ := traced_checkRefresh h₁
    have hhash : record.tokenHash = hashToken refresh := hash_of_traced_checkRefresh h₁
    simp only [bind_eq, ofExcept_eq] at h
    cases hd : c.decodeAccessAnyAge access with
    | error e' =>
      simp only [hd, done_error_bind] at h
      obtain ⟨rfl, -, hw⟩ := traced_done h
      exact .inl ⟨by rw [hw, World.atTime_store, hs₁], by simpa [hxs] using hys⟩
    | ok claims =>
      simp only [hd, done_ok_bind] at h
      by_cases hsub : claims.subject = refreshClaims.subject
      · simp only [hsub, ne_eq, not_true, if_false] at h
        rcases traced_bind h with ⟨_, w₂, us, vs, rfl, h₂, h⟩ | ⟨e', -, h₂⟩
        · -- The record is used up, so the failure comes from the deny-list.
          obtain ⟨hus, ⟨⟨_, hr⟩, -⟩ | ⟨-, hspent⟩⟩ := traced_consume hhash h₂
          · cases hr
          · obtain ⟨hs, key, ttl, rfl⟩ := traced_denyFor h
            rw [← hs, hs₁] at hspent
            refine .inr ⟨hspent, ys ++ us, key, ttl, by rw [hxs, List.append_assoc], ?_⟩
            intro x hx
            exact (List.mem_append.mp hx).elim (hys x) (hus x)
        · obtain ⟨hzs, ⟨-, hs₂⟩ | ⟨hr, -⟩⟩ := traced_consume hhash h₂
          · refine .inl ⟨by rw [hs₂, hs₁], fun x hx => ?_⟩
            rw [hxs] at hx
            exact (List.mem_append.mp hx).elim (hys x) (hzs x)
          · cases hr
      · simp only [hsub, ne_eq, not_false_eq_true, if_true, fail_eq, done_error_bind] at h
        obtain ⟨rfl, -, hw⟩ := traced_done h
        exact .inl ⟨by rw [hw, World.atTime_store, hs₁], by simpa [hxs] using hys⟩
  · exact .inl (traced_checkRefresh h₁)

/-- A logout that failed has changed nothing, exactly if it did not come to the deny-list. If it did,
that call was lost, and the refresh token is spent though the access token is not denied. -/
theorem unchanged_iff_not_denying {access refresh : String} {e : AuthError}
    (h : Traced (MemoryStore.faulty ids entropy mayFail) (c.revokePair access refresh) w xs (.error e)
      w') :
    (w'.store = w.store ↔ ∀ x ∈ xs, x.call.method ≠ .revoke) ∧
    ∀ x ∈ xs, x.call.method = .revoke → x.answer = .error e ∧ Spends refresh w.store w'.store := by
  rcases traced_revokePair h with ⟨hs, hxs⟩ | ⟨hspent, ys, key, ttl, rfl, hys⟩
  · exact ⟨iff_of_true hs hxs, fun x hx hrevoke => absurd hrevoke (hxs x hx)⟩
  · constructor
    · exact iff_of_false hspent.ne fun hall => hall ⟨.revoke key ttl, .error e⟩ (by simp) rfl
    · intro x hx hrevoke
      rcases List.mem_append.mp hx with hx | hx
      · exact absurd hrevoke (hys x hx)
      · obtain rfl := List.mem_singleton.mp hx
        exact ⟨rfl, hspent⟩

/-- A new pair is issued, and the call that would put its access token on the deny-list is lost. -/
private theorem exists_lost_denial (ids : Nat → String) (entropy : Nat → Draw) (failure : AuthError) :
    ∃ access token w₁ w₂ xs,
      ((Codec.ofConfig (.withSecret "secret")).createTokens ⟨"ada", "ada@example.com", .empty⟩).run
        ((MemoryStore.model ids).host entropy) ⟨{}, 0, 0⟩ = (some (.ok ⟨access, token⟩), w₁) ∧
      Traced (MemoryStore.faulty ids entropy fun d _ => d.method = .revoke)
        ((Codec.ofConfig (.withSecret "secret")).revokePair access token) w₁ xs
        (.error failure) w₂ ∧
      (∃ x ∈ xs, x.call.method = .revoke) ∧
      (w₁.store.refreshTokens.get? "ada").isSome ∧ w₂.store.refreshTokens.get? "ada" = none ∧
      ((Codec.ofConfig (.withSecret "secret")).revokePair access token).run
        ((MemoryStore.model ids).host entropy) w₂ = (some (.error .invalidRefreshToken), w₂) := by
  let c : Codec := .ofConfig (.withSecret "secret")
  let ada : Principal := ⟨"ada", "ada@example.com", .empty⟩
  let mayFail : Call → AuthError → Prop := fun d _ => d.method = .revoke
  have hc : c.Clamped := Codec.ofConfig_clamped _
  obtain ⟨access, haccess⟩ : ∃ access, c.encodeAccess (c.accessClaims 0 ada) = .ok access :=
    Codec.exists_sign rfl _
  obtain ⟨token, htoken⟩ : ∃ token,
      c.encodeRefresh (c.refreshClaims 0 (entropy 0) ada) = .ok token := Codec.exists_sign rfl _
  let record : RefreshRecord := c.recordOf 0 "ada" token
  let w₁ : World MemoryStore := ⟨{ refreshTokens := Table.insert {} "ada" record }, 0, 1⟩
  let w₂ : World MemoryStore :=
    ⟨{ refreshTokens := (Table.insert {} "ada" record).erase "ada" }, 0, 1⟩
  have hissue : (c.createTokens ada).run ((MemoryStore.model ids).host entropy) ⟨{}, 0, 0⟩ =
      (some (.ok ⟨access, token⟩), w₁) := Codec.run_createTokens haccess htoken
  have hrefresh : c.decodeRefresh 0 token = .ok (c.refreshClaims 0 (entropy 0) ada) := by
    rw [Codec.decodeRefresh_encodeRefresh
      (Codec.refreshClaims_validExpiry hc (by decide) (by decide) _ _) htoken]
    rfl
  have hany : c.decodeAccessAnyAge access = .ok (c.accessClaims 0 ada) :=
    Codec.decodeAccessAnyAge_encodeAccess
      (Codec.accessClaims_validExpiry hc (by decide) (by decide) _) haccess
  obtain ⟨r, hcheck, hok, -⟩ := Codec.run_checkRefresh (c := c) ids entropy w₁ token
  obtain rfl := (hok (c.refreshClaims 0 (entropy 0) ada) record).mpr
    ⟨hrefresh, rfl, rfl, show (0 : Int) < 2592000000000000 by decide⟩
  have hconsume : (consume record).run ((MemoryStore.model ids).host entropy) w₁ =
      (some (.ok ()), w₂) :=
    Codec.run_consume rfl rfl
  obtain ⟨xs, hcheck⟩ := traced_of_run mayFail hcheck
  obtain ⟨ys, hconsume⟩ := traced_of_run mayFail hconsume
  let lost : Exchange :=
    ⟨.revoke (blacklistKey access) (remainingLifetime (c.accessClaims 0 ada).expiry 0),
      .error failure⟩
  have hdeny : Traced (MemoryStore.faulty ids entropy mayFail)
      (denyFor access (c.accessClaims 0 ada)) w₂
      [lost] (.error failure) w₂ :=
    .step (.clock _ w₂) (.step (.lost _ _ w₂ rfl) (.done _ w₂))
  have hlogout : Traced (MemoryStore.faulty ids entropy mayFail) (c.revokePair access token) w₁
      (xs ++ (ys ++ [lost])) (.error failure) w₂ := by
    refine hcheck.bind ?_
    simp only [bind_eq, ofExcept_eq, hany, done_ok_bind]
    exact hconsume.bind hdeny
  have hgone : w₂.store.refreshTokens.get? "ada" = none := by simp [w₂]
  obtain ⟨r, hretry, hnone, herror⟩ := Codec.run_checkRefresh (c := c) ids entropy w₂ token
  have hrefused : (c.revokePair access token).run ((MemoryStore.model ids).host entropy) w₂ =
      (some (.error .invalidRefreshToken), w₂) := by
    refine run_bind_error (e := .invalidRefreshToken) ?_
    rw [hretry]
    cases r with
    | ok found =>
      obtain ⟨hdecode, hget, -⟩ := (hnone found.1 found.2).mp rfl
      rw [hrefresh] at hdecode
      rw [← Except.ok.inj hdecode] at hget
      cases hgone.symm.trans hget
    | error e => rw [herror e rfl]
  exact ⟨access, token, w₁, w₂, _, hissue, hlogout, ⟨lost, by simp, rfl⟩, rfl, hgone, hrefused⟩

/-- A logout that loses the call to the deny-list has spent the refresh token. -/
theorem unchanged_iff_not_denying_lost_denial :
    ∃ access token w w' xs e,
      Traced
        (MemoryStore.faulty serialId (fun n => .replicate 16 n.toUInt8) fun d _ => d.method = .revoke)
        ((Codec.ofConfig (.withSecret "secret")).revokePair access token) w xs (.error e) w' ∧
      w'.store ≠ w.store ∧ Spends token w.store w'.store := by
  obtain ⟨access, token, w, w', xs, -, hlogout, ⟨x, hx, hrevoke⟩, -⟩ :=
    exists_lost_denial serialId (fun n => .replicate 16 n.toUInt8) (.db (.protocol "connection reset"))
  obtain ⟨hiff, hlost⟩ := unchanged_iff_not_denying hlogout
  exact ⟨access, token, w, w', xs, _, hlogout, fun h => hiff.mp h x hx hrevoke,
    (hlost x hx hrevoke).2⟩

/-- The claim that a failed logout changes nothing fails: a user is given a pair, and the logout loses
the call to the deny-list. The refresh record is gone, and the logout cannot be retried. -/
theorem lost_denial_ends_session :
    ∃ access token w₁ w₂ xs,
      ((Codec.ofConfig (.withSecret "secret")).createTokens ⟨"ada", "ada@example.com", .empty⟩).run
        ((MemoryStore.model serialId).host fun n => .replicate 16 n.toUInt8) ⟨{}, 0, 0⟩ =
          (some (.ok ⟨access, token⟩), w₁) ∧
      Traced
        (MemoryStore.faulty serialId (fun n => .replicate 16 n.toUInt8) fun d _ => d.method = .revoke)
        ((Codec.ofConfig (.withSecret "secret")).revokePair access token) w₁ xs
        (.error (.db (.protocol "connection reset"))) w₂ ∧
      w₂.store.refreshTokens ≠ w₁.store.refreshTokens ∧
      ((Codec.ofConfig (.withSecret "secret")).revokePair access token).run
        ((MemoryStore.model serialId).host fun n => .replicate 16 n.toUInt8) w₂ =
          (some (.error .invalidRefreshToken), w₂) := by
  obtain ⟨access, token, w₁, w₂, xs, hissue, hlogout, -, hsome, hnone, hretry⟩ :=
    exists_lost_denial serialId (fun n => .replicate 16 n.toUInt8) (.db (.protocol "connection reset"))
  refine ⟨access, token, w₁, w₂, xs, hissue, hlogout, fun heq => ?_, hretry⟩
  rw [← heq, hnone] at hsome
  cases hsome

end FailedLogout

end Turnstile
