import Turnstile.Proofs.Service.Permissions
import Turnstile.Proofs.Service.Tokens
import Turnstile.Proofs.Store.Memory
import Turnstile.Proofs.Store.Revocations
import Turnstile.Service.Access

/-! Who may do what: a permission check looks at the token, at the deny-list, and at the roles as they
are defined now, for the role names the token was issued with. -/

namespace Turnstile.Authorization

open Program

variable {c : Codec} {ids : Nat → String} {entropy : Nat → Draw} {p : Principal} {token : String}
  {w w' : World MemoryStore}

/-- The access tokens issued to a principal, alone or in a pair. -/
inductive Issues (c : Codec) (ids : Nat → String) (entropy : Nat → Draw) (p : Principal) :
    World MemoryStore → String → World MemoryStore → Prop
  | alone {w w' : World MemoryStore} {token : String} :
    Runs (MemoryStore.setting ids entropy) (c.createAccess p) w (.ok token) w' →
    Issues c ids entropy p w token w'
  | paired {w w' : World MemoryStore} {pair : TokenPair} :
    Runs (MemoryStore.setting ids entropy) (c.createTokens p) w (.ok pair) w' →
    Issues c ids entropy p w pair.access w'
  | rotated {w w' : World MemoryStore} {record : RefreshRecord} {pair : TokenPair} :
    Runs (MemoryStore.setting ids entropy) (c.rotate p record) w (.ok pair) w' →
    Issues c ids entropy p w pair.access w'

private theorem encoded_of_createTokens {pair : TokenPair}
    (h : Runs (MemoryStore.setting ids entropy) (c.createTokens p) w (.ok pair) w') :
    ∃ t, w.clock ≤ t ∧ t ≤ w'.clock ∧ c.encodeAccess (c.accessClaims t p) = .ok pair.access := by
  obtain ⟨access, w₁, h₁, h⟩ := runs_bind_ok h
  obtain ⟨token, w₂, h₂, h⟩ := runs_bind_ok h
  obtain ⟨t, ht, ht', haccess, -⟩ := Codec.runs_createAccess h₁
  obtain ⟨hr, -⟩ := runs_done h
  obtain rfl := Except.ok.inj hr
  exact ⟨t, ht, Int.le_trans ht' (Int.le_trans h₂.clock_le h.clock_le), haccess.symm⟩

/-- An issued token holds the claims of its principal at some instant. -/
theorem Issues.encoded (h : Issues c ids entropy p w token w') :
    ∃ t, w.clock ≤ t ∧ t ≤ w'.clock ∧ c.encodeAccess (c.accessClaims t p) = .ok token := by
  cases h with
  | alone hr =>
    obtain ⟨t, ht, ht', haccess, -⟩ := Codec.runs_createAccess hr
    exact ⟨t, ht, ht', haccess.symm⟩
  | paired hr => exact encoded_of_createTokens hr
  | @rotated _ record _ hr =>
    unfold Codec.rotate at hr
    by_cases hp : p.subject = record.userId
    · simp only [hp, ne_eq, not_true, if_false] at hr
      obtain ⟨_, w₁, h₁, hr⟩ := runs_bind_ok hr
      obtain ⟨t, ht, ht', haccess⟩ := encoded_of_createTokens hr
      exact ⟨t, Int.le_trans h₁.clock_le ht, ht', haccess⟩
    · simp only [hp, ne_eq, not_false_eq_true, if_true] at hr
      cases (runs_done hr).1

def Denied (w : World MemoryStore) (token : String) : Prop :=
  ∃ deadline, w.store.revocations.get? (blacklistKey token) = some deadline ∧ w.clock < deadline

/-- Whether someone with these role names may use a method on a resource, as roles are defined now. -/
def Grants (s : MemoryStore) (names : RoleSet) (resource method : String) : Prop :=
  superadminRole ∈ names ∨ ∃ name ∈ names, ∃ role, s.roles.get? name = some role ∧
    ∃ q ∈ role.permissions, q.resource = resource ∧ q.method = method

/-- The answer of a check is `yes`, `no` or one of two errors, each in exactly one situation. -/
structure Decides {α : Type} (r yes no : Except AuthError α) (expiry : Int) (token : String)
    (allowed : Prop) (w : World MemoryStore) : Prop where
  granted : r = yes ↔ w.clock < Nanos.ofSeconds expiry ∧ ¬ Denied w token ∧ allowed
  refused : r = no ↔ w.clock < Nanos.ofSeconds expiry ∧ ¬ Denied w token ∧ ¬ allowed
  revoked : r = .error .tokenRevoked ↔ w.clock < Nanos.ofSeconds expiry ∧ Denied w token
  expired : r = .error .tokenExpired ↔ Nanos.ofSeconds expiry ≤ w.clock

theorem grants_iff (role : Role) (resource method : String) : role.grants resource method = true ↔
    ∃ q ∈ role.permissions, q.resource = resource ∧ q.method = method := by
  simp [Role.grants, Permission.allows]

/-- Claims carry a permission if their roles grant it. -/
private theorem run_claimsPermit (ids : Nat → String) (entropy : Nat → Draw) (w : World MemoryStore)
    {claims : AccessClaims}
    (hsuper : claims.superuser = decide (superadminRole ∈ claims.roles)) (resource method : String) :
    ∃ b, (claimsPermit claims resource method).run ((MemoryStore.model ids).host entropy) w =
        (some (.ok b), w) ∧ (b = true ↔ Grants w.store claims.roles resource method) := by
  unfold claimsPermit
  by_cases h : superadminRole ∈ claims.roles
  · rw [if_pos (by rw [hsuper]; exact decide_eq_true h)]
    exact ⟨true, rfl, by simp [Grants, h]⟩
  · rw [if_neg (by rw [hsuper]; simpa using h)]
    obtain ⟨b, _, hrun, rfl, hb⟩ := (MemoryStore.findsRoles ids entropy w).run_someRoleGrants
      resource method claims.roles.elems rfl
    refine ⟨b, hrun, hb.trans ?_⟩
    unfold Grants MemoryStore.Stands
    simp only [h, false_or, ← Role.grants_iff_carries, grants_iff]
    rfl

private theorem Decides.cases {α : Type} {r yes no : Except AuthError α} {expiry : Int}
    {allowed : Prop} (h : Decides r yes no expiry token allowed w) :
    r = yes ∨ r = no ∨ r = .error .tokenRevoked ∨ r = .error .tokenExpired := by
  by_cases hlive : w.clock < Nanos.ofSeconds expiry
  · by_cases hdenied : Denied w token
    · exact .inr (.inr (.inl (h.revoked.mpr ⟨hlive, hdenied⟩)))
    · by_cases hallowed : allowed
      · exact .inl (h.granted.mpr ⟨hlive, hdenied, hallowed⟩)
      · exact .inr (.inl (h.refused.mpr ⟨hlive, hdenied, hallowed⟩))
  · exact .inr (.inr (.inr (h.expired.mpr (Int.not_lt.mp hlive))))

/-- A check of a token that verifies until its expiry. -/
private theorem run_requirePermission {claims : AccessClaims} (ids : Nat → String)
    (entropy : Nat → Draw)
    (w : World MemoryStore) (hdecode : c.decodeAccess w.clock token =
      if claims.expiry ≤ w.clock.seconds then .error .tokenExpired else .ok claims)
    (hsuper : claims.superuser = decide (superadminRole ∈ claims.roles))
    (resource method : String) :
    ∃ r w', (c.requirePermission token resource method).run ((MemoryStore.model ids).host entropy) w =
        (some r, w') ∧
      Decides r (.ok claims) (.error .permissionDenied) claims.expiry token
        (Grants w.store claims.roles resource method) w := by
  have hcheck := Codec.run_checkAccess (c := c) ids entropy w token
  have hrevoked : (w.store.isRevoked w.clock (blacklistKey token)).1 = true ↔ Denied w token :=
    w.store.isRevoked_iff w.clock (blacklistKey token)
  rw [hdecode] at hcheck
  unfold Codec.requirePermission
  rw [bind_eq]
  by_cases hlive : w.clock < Nanos.ofSeconds claims.expiry
  · have hsec : ¬ claims.expiry ≤ w.clock.seconds := Int.not_le.mpr (Nanos.seconds_lt_iff.mpr hlive)
    have hnot : ¬ Nanos.ofSeconds claims.expiry ≤ w.clock := Int.not_le.mpr hlive
    rw [if_neg hsec] at hcheck
    by_cases hdenied : Denied w token
    · simp only [hrevoked.mpr hdenied, if_true] at hcheck
      refine ⟨_, _, run_bind_error hcheck, ?_⟩
      constructor <;> simp [hlive, hnot, hdenied]
    · simp only [hrevoked, hdenied, if_false] at hcheck
      let asked : World MemoryStore :=
        { w with store := (w.store.isRevoked w.clock (blacklistKey token)).2 }
      obtain ⟨b, hpermit, hb⟩ := run_claimsPermit ids entropy asked hsuper resource method
      -- Asking the deny-list may drop an entry of it, and leaves the roles as they are.
      have hroles : (w.store.isRevoked w.clock (blacklistKey token)).2.roles = w.store.roles :=
        (MemoryStore.frame_model ids w.clock (.isRevoked (blacklistKey token)) w.store).roles
      have hsame : b = true ↔ Grants w.store claims.roles resource method := by
        rw [hb]
        unfold Grants
        simp only [asked, hroles]
      rw [run_bind hcheck, bind_eq, run_bind hpermit]
      cases b with
      | true =>
        refine ⟨.ok claims, _, rfl, ?_⟩
        constructor <;> simp [hlive, hnot, hdenied, ← hsame]
      | false =>
        refine ⟨.error .permissionDenied, _, rfl, ?_⟩
        constructor <;> simp [hlive, hnot, hdenied, ← hsame]
  · have hexp : Nanos.ofSeconds claims.expiry ≤ w.clock := Int.not_lt.mp hlive
    have hsec : claims.expiry ≤ w.clock.seconds :=
      Int.not_lt.mp fun hlt => hlive (Nanos.seconds_lt_iff.mp hlt)
    rw [if_pos hsec] at hcheck
    refine ⟨_, _, run_bind_error hcheck, ?_⟩
    constructor <;> simp [hlive, hexp]

private theorem run_checkPermission {claims : AccessClaims} {resource method : String}
    {r : Except AuthError AccessClaims} {allowed : Prop}
    (hrun : (c.requirePermission token resource method).run ((MemoryStore.model ids).host entropy) w =
      (some r, w'))
    (hr : Decides r (.ok claims) (.error .permissionDenied) claims.expiry token allowed w) :
    ∃ r, (c.checkPermission token resource method).run ((MemoryStore.model ids).host entropy) w =
        (some r, w') ∧ Decides r (.ok true) (.ok false) claims.expiry token allowed w := by
  have hcases := hr.cases
  obtain ⟨hgranted, hrefused, hrevoked, hexpired⟩ := hr
  unfold Codec.checkPermission
  rw [bind_eq, run_attempt_bind hrun]
  rcases hcases with rfl | rfl | rfl | rfl
  · exact ⟨.ok true, rfl, by simpa using hgranted, by simpa using hrefused,
      by simpa using hrevoked, by simpa using hexpired⟩
  · exact ⟨.ok false, rfl, by simpa using hgranted, by simpa using hrefused,
      by simpa using hrevoked, by simpa using hexpired⟩
  · exact ⟨.error .tokenRevoked, rfl, by simpa using hgranted, by simpa using hrefused,
      by simpa using hrevoked, by simpa using hexpired⟩
  · exact ⟨.error .tokenExpired, rfl, by simpa using hgranted, by simpa using hrefused,
      by simpa using hrevoked, by simpa using hexpired⟩

/-- A token issued to a principal names the roles the principal had. Whenever a permission is checked
later, in whatever store, it is granted exactly if the token has not expired, is not on the deny-list,
and one of these roles grants it as it is defined then, or is the superadmin role. An expired token is
refused as expired, and a live token on the deny-list as revoked. -/
theorem decides_issued {cfg : TokenConfig} {w₁ w₂ : World MemoryStore}
    (hissued : Issues (.ofConfig cfg) ids entropy p w₁ token w₂) (hstart : 0 ≤ w₁.clock)
    (hlast : w₂.clock ≤ lastInstant) :
    ∃ claims, Codec.decodeAccessAnyAge (.ofConfig cfg) token = .ok claims ∧
      claims.subject = p.subject ∧ claims.roles = p.roles ∧
      ∀ (w : World MemoryStore) (resource method : String),
        (∃ r w', (Codec.checkPermission (.ofConfig cfg) token resource method).run
            ((MemoryStore.model ids).host entropy) w = (some r, w') ∧
          Decides r (.ok true) (.ok false) claims.expiry token
            (Grants w.store p.roles resource method) w) ∧
        ∃ r w', (Codec.requirePermission (.ofConfig cfg) token resource method).run
            ((MemoryStore.model ids).host entropy) w = (some r, w') ∧
          Decides r (.ok claims) (.error .permissionDenied) claims.expiry token
            (Grants w.store p.roles resource method) w := by
  obtain ⟨t, ht, ht', hencode⟩ := hissued.encoded
  have hvalid : ValidExpiry (Codec.accessClaims (.ofConfig cfg) t p).expiry :=
    Codec.accessClaims_validExpiry (Codec.ofConfig_clamped cfg) (Int.le_trans hstart ht)
      (Int.le_trans ht' hlast) p
  refine ⟨_, Codec.decodeAccessAnyAge_encodeAccess hvalid hencode, rfl, rfl, ?_⟩
  intro w resource method
  have hdecode := Codec.decodeAccess_encodeAccess hvalid hencode w.clock
  obtain ⟨r, w', hrun, hr⟩ := run_requirePermission ids entropy w hdecode rfl resource method
  obtain ⟨r', hcheck, hr'⟩ := run_checkPermission hrun hr
  exact ⟨⟨r', w', hcheck, hr'⟩, r, w', hrun, hr⟩

/-- A token is issued to a user with one role. The role grants what it is defined to grant at the
time of the check, and nothing once the token has expired. -/
theorem decides_issued_editor :
    ∃ token w, Issues (.ofConfig (.withSecret "secret")) serialId (fun n => .replicate 16 n.toUInt8)
        ⟨"ada", "ada@example.com", .insert "editor" .empty⟩ ⟨{}, 0, 0⟩ token w ∧
      ((Codec.checkPermission (.ofConfig (.withSecret "secret")) token "/posts" "POST").run
        ((MemoryStore.model serialId).host fun n => .replicate 16 n.toUInt8) w).1 = some (.ok false) ∧
      ((Codec.checkPermission (.ofConfig (.withSecret "secret")) token "/posts" "POST").run
        ((MemoryStore.model serialId).host fun n => .replicate 16 n.toUInt8)
        { w with store :=
          w.store.insertRole ⟨"editor", [⟨"write", "/posts", "POST"⟩]⟩ }).1 = some (.ok true) ∧
      ((Codec.checkPermission (.ofConfig (.withSecret "secret")) token "/posts" "POST").run
        ((MemoryStore.model serialId).host fun n => .replicate 16 n.toUInt8) (w.atTime lastInstant)).1 =
          some (.error .tokenExpired) := by
  let c : Codec := .ofConfig (.withSecret "secret")
  let entropy : Nat → Draw := fun n => .replicate 16 n.toUInt8
  let ids : Nat → String := serialId
  let ada : Principal := ⟨"ada", "ada@example.com", .insert "editor" .empty⟩
  let w : World MemoryStore := ⟨{}, 0, 0⟩
  obtain ⟨token, htoken⟩ : ∃ token, c.encodeAccess (c.accessClaims 0 ada) = .ok token :=
    Codec.exists_sign rfl _
  have hissue : (c.createAccess ada).run ((MemoryStore.model ids).host entropy) w =
      (some (.ok token), w) := by
    rw [← htoken]
    rfl
  have hissued : Issues c ids entropy ada w token w := .alone (runs_of_run hissue)
  obtain ⟨claims, hclaims, -, -, hdecides⟩ := decides_issued hissued (by decide) (by decide)
  have hvalid : ValidExpiry (c.accessClaims 0 ada).expiry :=
    Codec.accessClaims_validExpiry (Codec.ofConfig_clamped _) (by decide) (by decide) ada
  obtain rfl : c.accessClaims 0 ada = claims :=
    Except.ok.inj ((Codec.decodeAccessAnyAge_encodeAccess hvalid htoken).symm.trans hclaims)
  have hlive : (0 : Int) < Nanos.ofSeconds (c.accessClaims 0 ada).expiry := by decide
  have hclean {w : World MemoryStore} (h : w.store.revocations = {}) : ¬ Denied w token := by
    rintro ⟨deadline, hget, -⟩
    rw [h] at hget
    cases hget
  refine ⟨token, w, hissued, ?_, ?_, ?_⟩
  · obtain ⟨⟨r, w', hrun, hr⟩, -⟩ := hdecides w "/posts" "POST"
    rw [hrun, hr.refused.mpr ⟨hlive, hclean rfl, ?_⟩]
    rintro (hsuper | ⟨name, -, role, hrole, -⟩)
    · exact absurd hsuper (by decide)
    · cases hrole
  · let defined : World MemoryStore :=
      { w with store := w.store.insertRole ⟨"editor", [⟨"write", "/posts", "POST"⟩]⟩ }
    obtain ⟨⟨r, w', hrun, hr⟩, -⟩ := hdecides defined "/posts" "POST"
    have hgrants : Grants defined.store ada.roles "/posts" "POST" :=
      .inr ⟨"editor", SortedSet.mem_insert.mpr (.inl rfl), _, rfl, ⟨"write", "/posts", "POST"⟩,
        List.mem_singleton.mpr rfl, rfl, rfl⟩
    rw [hrun, hr.granted.mpr ⟨hlive, hclean rfl, hgrants⟩]
  · obtain ⟨⟨r, w', hrun, hr⟩, -⟩ := hdecides (w.atTime lastInstant) "/posts" "POST"
    have hpast : Nanos.ofSeconds (c.accessClaims 0 ada).expiry ≤ lastInstant := by decide
    rw [hrun, hr.expired.mpr hpast]

end Turnstile.Authorization
