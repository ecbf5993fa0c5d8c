import Turnstile.Proofs.Service.Lifetime
import Turnstile.Proofs.Service.Operations
import Turnstile.Proofs.Token.Agreement

/-! A token put on the deny-list is refused for good: until it expires because of its entry, and from
then on because it has expired. -/

namespace Turnstile

open Program

theorem blacklistKey_injective : Function.Injective blacklistKey := by
  intro s t h
  have hlist := congrArg String.toList h
  simp only [blacklistKey, String.toList_append, List.append_cancel_left_eq] at hlist
  exact String.toList_injective hlist

/-- Until a limit a key is refused, for its entry is kept at least that long. -/
def DeniedUntil (key : String) (limit : Nanos) (w : World MemoryStore) : Prop :=
  w.clock < limit → ∃ deadline, w.store.revocations.get? key = some deadline ∧ limit ≤ deadline

namespace DeniedUntil

variable {c : Codec} {ids : Nat → String} {entropy : Nat → Draw} {w w' : World MemoryStore}
  {key : String}
  {limit : Nanos} {h : Past}

/-- An entry does not fade before its deadline. -/
theorem fades (hd : DeniedUntil key limit w) (hf : Fades w w') (hclock : w.clock ≤ w'.clock) :
    DeniedUntil key limit w' := by
  intro hlt
  obtain ⟨deadline, hget, hle⟩ := hd (Int.lt_of_le_of_lt hclock hlt)
  rcases hf key with heq | ⟨-, deadline', hget', hle'⟩
  · exact ⟨deadline, heq.trans hget, hle⟩
  · obtain rfl := Option.some.inj (hget.symm.trans hget')
    exact absurd (Int.lt_of_lt_of_le hlt hle) (Int.not_lt.mpr hle')

/-- Denying a token sets a deadline that is late enough, as far as 64 bits reach. -/
theorem of_denies {access : String} {claims : AccessClaims} {t t' : Nanos}
    (hd : Denies access claims t t' w w') (hmax : limit ≤ Nanos.ofMillis int64Max)
    (hlimit : limit ≤ Nanos.ofSeconds claims.expiry)
    (hfar : limit ≤ w.clock + Nanos.ofMillis int64Max) :
    DeniedUntil (blacklistKey access) limit w' := by
  intro hlt
  have hle : limit ≤ t' + remainingLifetime claims.expiry t :=
    le_add_remainingLifetime hmax hlimit
      (Int.le_trans hfar (Int.add_le_add_right hd.times.1 _)) hd.times.2.1
  have hnow : t' < limit := Int.lt_of_le_of_lt hd.times.2.2 hlt
  have hne : remainingLifetime claims.expiry t ≠ 0 := by
    intro hzero
    rw [hzero] at hle
    exact absurd (Int.lt_of_lt_of_le hnow hle) (by simp)
  refine ⟨t' + remainingLifetime claims.expiry t, ?_, hle⟩
  rw [hd.entries, MemoryStore.get?_revocations_revoke, if_pos ⟨rfl, hne⟩]

/-- Denying another token leaves an entry alone. -/
theorem denies_of_ne {access : String} {claims : AccessClaims} {t t' : Nanos}
    (h : DeniedUntil key limit w) (hd : Denies access claims t t' w w')
    (hne : key ≠ blacklistKey access) : DeniedUntil key limit w' := by
  intro hlt
  have hclock : w.clock ≤ w'.clock :=
    Int.le_trans hd.times.1 (Int.le_trans hd.times.2.1 hd.times.2.2)
  obtain ⟨deadline, hget, hle⟩ := h (Int.lt_of_le_of_lt hclock hlt)
  refine ⟨deadline, ?_, hle⟩
  rw [hd.entries, MemoryStore.get?_revocations_revoke, if_neg (fun hk => hne hk.1), hget]

/-- A token once denied stays denied in any operation; denying it again does no harm. -/
theorem next {op : Operation} {r : Except AuthError (Option String)} {access : String}
    {claims : AccessClaims} (hd : DeniedUntil (blacklistKey access) limit w)
    (hclaims : c.decodeAccessAnyAge access = .ok claims) (hmax : limit ≤ Nanos.ofMillis int64Max)
    (hlimit : limit ≤ Nanos.ofSeconds claims.expiry) (hfar : limit ≤ w.clock + Nanos.ofMillis int64Max)
    (hr : Runs (MemoryStore.setting ids entropy) (op.program c) w r w') :
    DeniedUntil (blacklistKey access) limit w' := by
  rcases Operation.runs_program hr with ⟨hf, -⟩ | ⟨access', claims', t, t', -, hclaims', hd'⟩
  · exact hd.fades hf hr.clock_le
  · by_cases heq : access' = access
    · subst heq
      obtain rfl := Except.ok.inj (hclaims.symm.trans hclaims')
      exact of_denies hd' hmax hlimit hfar
    · exact hd.denies_of_ne hd' fun hk => heq (blacklistKey_injective hk).symm

/-- A token once denied stays denied, whatever the service does. -/
theorem serves {access : String} {claims : AccessClaims}
    (hd : DeniedUntil (blacklistKey access) limit w)
    (hclaims : c.decodeAccessAnyAge access = .ok claims) (hmax : limit ≤ Nanos.ofMillis int64Max)
    (hlimit : limit ≤ Nanos.ofSeconds claims.expiry) (hfar : limit ≤ w.clock + Nanos.ofMillis int64Max)
    (hs : Serves c ids entropy w h w') : DeniedUntil (blacklistKey access) limit w' := by
  refine hs.keeps hd (fun w t h ht => h.fades (.of_eq rfl) ht)
    (fun w s h hs => h.fades (.of_eq hs) (Int.le_refl _)) fun op w r w' hle h hr => ?_
  exact h.next hclaims hmax hlimit (Int.le_trans hfar (Int.add_le_add_right hle _)) hr

theorem isRevoked (hd : DeniedUntil key limit w) {t : Nanos} (ht : w.clock ≤ t)
    (hlt : t < limit) : w.store.isRevoked t key = (true, w.store) := by
  obtain ⟨deadline, hget, hle⟩ := hd (Int.lt_of_le_of_lt ht hlt)
  have hnot : ¬ deadline ≤ t := Int.not_le.mpr (Int.lt_of_lt_of_le hlt hle)
  simp [MemoryStore.isRevoked, hget, hnot]

end DeniedUntil

namespace DenyList

variable {c : Codec} {ids : Nat → String} {entropy : Nat → Draw} {w₀ w₁ w : World MemoryStore}
  {h : Past}

/-- Once a token is denied, a check refuses it for good: as revoked until its expiry and as expired
from then on. A check that takes time does so too, unless the token expires while it runs. Clocks show
instants that are less than 2^63 - 1 milliseconds apart. -/
theorem refuses_for_good {op : Operation} {access : String} {claims : AccessClaims}
    {issued : Option String} (hclaims : c.decodeAccessAnyAge access = .ok claims)
    (hmax : 1000 * claims.expiry ≤ int64Max)
    (hop : op.denies? = some access)
    (hr : Runs (MemoryStore.setting ids entropy) (op.program c) w₀ (.ok issued) w₁)
    (hs : Serves c ids entropy w₁ h w) :
    (∀ t, w.clock ≤ t → t < w₀.clock + Nanos.ofMillis int64Max →
      (c.checkAccess access).run ((MemoryStore.model ids).host entropy) (w.atTime t) =
        (some (.error (if t < Nanos.ofSeconds claims.expiry then .tokenRevoked else .tokenExpired)),
          w.atTime t)) ∧
    ∀ r w', Runs (MemoryStore.setting ids entropy) (c.checkAccess access) w r w' →
      w'.clock < w₀.clock + Nanos.ofMillis int64Max →
      (w'.clock < Nanos.ofSeconds claims.expiry → r = .error .tokenRevoked) ∧
      (Nanos.ofSeconds claims.expiry ≤ w.clock → r = .error .tokenExpired) := by
  let limit : Nanos := min (Nanos.ofSeconds claims.expiry) (w₀.clock + Nanos.ofMillis int64Max)
  have hlimit : limit ≤ Nanos.ofSeconds claims.expiry := Int.min_le_left _ _
  have hfar : limit ≤ w₀.clock + Nanos.ofMillis int64Max := Int.min_le_right _ _
  have hreach : limit ≤ Nanos.ofMillis int64Max := by
    unfold Nanos.ofSeconds at hlimit
    unfold Nanos.ofMillis Nanos at *
    omega
  have hstart : DeniedUntil (blacklistKey access) limit w₁ := by
    rcases Operation.runs_program hr with ⟨-, hnone⟩ | ⟨a, claims', t, t', ha, hclaims', hd⟩
    · cases hnone.symm.trans hop
    · obtain rfl : access = a := Option.some.inj (hop.symm.trans ha)
      obtain rfl := Except.ok.inj (hclaims.symm.trans hclaims')
      exact .of_denies hd hreach hlimit hfar
  have hdenied : DeniedUntil (blacklistKey access) limit w :=
    hstart.serves hclaims hreach hlimit
      (Int.le_trans hfar (Int.add_le_add_right hr.clock_le _)) hs
  have hdecode (t : Nanos) : c.decodeAccess t access =
      if t < Nanos.ofSeconds claims.expiry then .ok claims else .error .tokenExpired := by
    rw [Codec.decodeAccess_of_anyAge hclaims]
    have hsec : claims.expiry ≤ t.seconds ↔ ¬ t < Nanos.ofSeconds claims.expiry := by
      rw [← Nanos.seconds_lt_iff, Int.not_lt]
    simp only [hsec, ite_not]
  refine ⟨fun t ht hspan => ?_, fun r w' hcheck hspan => ?_⟩
  · rw [Codec.run_checkAccess, World.atTime_clock, hdecode]
    by_cases hlt : t < Nanos.ofSeconds claims.expiry
    · rw [if_pos hlt, if_pos hlt, World.atTime_store,
        hdenied.isRevoked ht (Int.lt_min.mpr ⟨hlt, hspan⟩)]
      rfl
    · rw [if_neg hlt, if_neg hlt]
  · obtain ⟨t, ht, ht', hcases⟩ := Codec.runs_checkAccess hcheck
    constructor
    · intro hlt
      have hok := hdecode t
      rw [if_pos (Int.lt_of_le_of_lt ht' hlt)] at hok
      rcases hcases with ⟨e, -, herr⟩ | ⟨claims', u, htu, hu, -, hres⟩
      · cases herr.symm.trans hok
      · rw [hres, hdenied.isRevoked (Int.le_trans ht htu)
          (Int.lt_min.mpr ⟨Int.lt_of_le_of_lt hu hlt, Int.lt_of_le_of_lt hu hspan⟩)]
        rfl
    · intro hge
      have hexpired := hdecode t
      rw [if_neg (Int.not_lt.mpr (Int.le_trans hge ht))] at hexpired
      rcases hcases with ⟨e, hres, herr⟩ | ⟨claims', u, -, -, hok, -⟩
      · rw [hres, Except.error.inj (herr.symm.trans hexpired)]
      · cases hok.symm.trans hexpired

/-- A token put on the deny-list right after it was issued is refused as revoked. -/
theorem refuses_for_good_fresh_token :
    ∃ token w, Runs (MemoryStore.setting serialId fun _ => .replicate 16 0)
        ((Operation.blacklist token).program (.ofConfig (.withSecret "secret"))) ⟨{}, 0, 0⟩
        (.ok none) w ∧
      (Codec.checkAccess (.ofConfig (.withSecret "secret")) token).run
        ((MemoryStore.model serialId).host fun _ => .replicate 16 0) (w.atTime 0) =
          (some (.error .tokenRevoked), w.atTime 0) := by
  let c : Codec := .ofConfig (.withSecret "secret")
  let claims := c.accessClaims 0 ⟨"ada", "ada@example.com", .empty⟩
  have hvalid : ValidExpiry claims.expiry :=
    Codec.accessClaims_validExpiry (Codec.ofConfig_clamped _) (by decide) (by decide) _
  obtain ⟨token, htoken⟩ : ∃ token, c.encodeAccess claims = .ok token := Codec.exists_sign rfl _
  have hclaims : c.decodeAccessAnyAge token = .ok claims :=
    Codec.decodeAccessAnyAge_encodeAccess hvalid htoken
  let w : World MemoryStore := ⟨MemoryStore.revoke 0 (blacklistKey token)
    (remainingLifetime claims.expiry 0) {}, 0, 0⟩
  have hrun : ((Operation.blacklist token).program c).run
      ((MemoryStore.model serialId).host fun _ => .replicate 16 0) ⟨{}, 0, 0⟩ =
        (some (.ok none), w) := by
    have hblacklist : (c.blacklist token).run
        ((MemoryStore.model serialId).host fun _ => .replicate 16 0)
        ⟨{}, 0, 0⟩ = (some (.ok ()), w) := by
      unfold Codec.blacklist
      rw [hclaims]
      exact Codec.run_denyFor _ _ ⟨{}, 0, 0⟩ token claims
    exact run_bind hblacklist
  have hruns := runs_of_run hrun
  refine ⟨token, w, hruns, ?_⟩
  exact (refuses_for_good hclaims (by decide) rfl hruns .start).1 0
    (Int.le_refl 0) (by decide)

end DenyList

end Turnstile
