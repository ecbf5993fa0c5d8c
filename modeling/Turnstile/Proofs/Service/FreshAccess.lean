import Turnstile.Proofs.Bcrypt
import Turnstile.Proofs.Service.DenyList
import Turnstile.Proofs.Service.Login
import Turnstile.Proofs.Service.Registration

/-! An access token that was just issued is accepted, unless the same token was issued before and put
on the deny-list since: two tokens of a user issued in the same second are the same. -/

namespace Turnstile

open Program

variable {c : Codec} {ids : Nat → String} {entropy : Nat → Draw} {w₀ w w' : World MemoryStore}
  {h : Past}

/-- An access token was issued for someone at an instant between two worlds. -/
def IssuedBetween (c : Codec) (w w' : World MemoryStore) (access : String) : Prop :=
  ∃ p t, w.clock ≤ t ∧ t ≤ w'.clock ∧ c.encodeAccess (c.accessClaims t p) = .ok access

private theorem IssuedBetween.mono {w₁ w₂ : World MemoryStore} {access : String}
    (hi : IssuedBetween c w₁ w₂ access) (hle : w.clock ≤ w₁.clock) (hle' : w₂.clock ≤ w'.clock) :
    IssuedBetween c w w' access := by
  obtain ⟨p, t, ht, ht', henc⟩ := hi
  exact ⟨p, t, Int.le_trans hle ht, Int.le_trans ht' hle', henc⟩

private theorem IssuedFor.between {p : Principal} {res : TokenResponse}
    (h : IssuedFor c p w w' res) : IssuedBetween c w w' res.accessToken := by
  obtain ⟨t, ht, ht', haccess⟩ := h.access
  exact ⟨p, t, ht, ht', haccess⟩

private theorem issued_createTokens (hc : c.algorithm.isSymmetric = true) {p : Principal}
    {pair : TokenPair}
    (hr : Runs (MemoryStore.setting ids entropy) (c.createTokens p) w (.ok pair) w') :
    IssuedBetween c w w' pair.access := by
  obtain ⟨u, t, d, t', access, token, hu, ht, htt, ht', haccess, -, hok, -⟩ :=
    Codec.runs_createTokens hc hr
  obtain rfl := Except.ok.inj hok
  exact ⟨p, u, hu, Int.le_trans ht (Int.le_trans htt ht'), haccess⟩

private theorem issued_rotate (hc : c.algorithm.isSymmetric = true) {p : Principal}
    {record : RefreshRecord} {pair : TokenPair}
    (hr : Runs (MemoryStore.setting ids entropy) (c.rotate p record) w (.ok pair) w') :
    IssuedBetween c w w' pair.access := by
  rcases Codec.runs_rotate hc hr with ⟨hok, -⟩ |
    ⟨-, -, u, t, d, t', access, token, hu, ht, htt, ht', haccess, -, hok, -⟩
  · cases hok
  · obtain rfl := Except.ok.inj hok
    exact ⟨p, u, hu, Int.le_trans ht (Int.le_trans htt ht'), haccess⟩

private theorem issued_login (hc : c.algorithm.isSymmetric = true) {email password : String}
    {res : TokenResponse}
    (hr : Runs (MemoryStore.setting ids entropy) (c.login email password) w (.ok res) w') :
    IssuedBetween c w w' res.accessToken := by
  rcases Codec.runs_login_of_symmetric hc hr with
    ⟨-, hrefused, -⟩ | ⟨found, stored, res', -, -, -, hok, hissued⟩
  · cases hrefused
  · obtain rfl := Except.ok.inj hok
    exact hissued.between

private theorem issued_refresh {token : String} {res : TokenResponse}
    (hr : Runs (MemoryStore.setting ids entropy) (c.refresh token) w (.ok res) w') :
    IssuedBetween c w w' res.accessToken := by
  obtain ⟨t, claims, record, user, w₁, -, -, -, -, -, -, hle, -, hissued⟩ := Codec.runs_refresh hr
  exact hissued.between.mono hle (Int.le_refl _)

private theorem issued_register {email password : String} {name : Option String}
    {res : TokenResponse}
    (hr : Runs (MemoryStore.setting ids entropy) (c.register email password name) w (.ok res) w') :
    IssuedBetween c w w' res.accessToken := by
  obtain ⟨salt, w₁, hle, -, -, -, hissued⟩ := Codec.runs_register hr
  exact hissued.between.mono hle (Int.le_refl _)

/-- The access token an operation returns was issued while it ran. -/
private theorem issued_program (hc : c.algorithm.isSymmetric = true) {op : Operation}
    {access : String}
    (hr : Runs (MemoryStore.setting ids entropy) (op.program c) w (.ok (some access)) w') :
    IssuedBetween c w w' access := by
  have hsome {α : Type} {p : Program α} {f : α → String}
      (hp : ∀ {a w₁}, Runs (MemoryStore.setting ids entropy) p w (.ok a) w₁ → IssuedBetween c w w₁ (f a))
      (hr : Runs (MemoryStore.setting ids entropy) (do return some (f (← p))) w (.ok (some access)) w') :
      IssuedBetween c w w' access := by
    obtain ⟨a, w₁, h₁, hr⟩ := runs_bind_ok hr
    obtain ⟨hok, -⟩ := runs_done hr
    obtain rfl := Option.some.inj (Except.ok.inj hok)
    exact (hp h₁).mono (Int.le_refl _) hr.clock_le
  have hnone {α : Type} {p : Program α}
      (hr : Runs (MemoryStore.setting ids entropy) (p >>= fun _ => pure (none : Option String)) w
        (.ok (some access)) w') : IssuedBetween c w w' access := by
    obtain ⟨a, w₁, h₁, hr⟩ := runs_bind_ok hr
    cases (runs_done hr).1
  cases op with
  | login email password => exact hsome (issued_login hc) hr
  | register email password name => exact hsome issued_register hr
  | refresh token => exact hsome issued_refresh hr
  | createTokens p => exact hsome (issued_createTokens hc) hr
  | rotate p record => exact hsome (issued_rotate hc) hr
  | createAccess p =>
    refine hsome (f := id) (fun hr => ?_) hr
    obtain ⟨t, ht, ht', hok, -⟩ := Codec.runs_createAccess hr
    exact ⟨p, t, ht, ht', hok.symm⟩
  | describeCaller access =>
    obtain ⟨claims, w₁, h₁, hr⟩ := runs_bind_ok hr
    obtain ⟨_, w₂, h₂, hr⟩ := runs_bind_ok hr
    cases (runs_done hr).1
  | logout _ _ => exact hnone hr
  | confirmPermission _ _ _ => exact hnone hr
  | checkPermission _ _ _ => exact hnone hr
  | createRefresh _ => exact hnone hr
  | revokePair _ _ => exact hnone hr
  | blacklist _ => exact hnone hr
  | tokenData _ => exact hnone hr
  | checkAccess _ => exact hnone hr
  | checkRefresh _ => exact hnone hr

/-- Every entry of the deny-list stands there for a token that was denied. -/
private theorem exists_denied_of_get? (hempty : w₀.store.revocations = {})
    (hs : Serves c ids entropy w₀ h w) {key : String} {deadline : Nanos}
    (hget : w.store.revocations.get? key = some deadline) :
    ∃ e ∈ h, ∃ access, e.denied? = some access ∧ key = blacklistKey access := by
  induction hs generalizing deadline with
  | start =>
    rw [hempty] at hget
    cases hget
  | wait _ _ ih => exact ih hget
  | other _ hsame ih =>
    rw [hsame] at hget
    exact ih hget
  | next op hs hr ih =>
    rcases Operation.runs_program hr with ⟨hf, -⟩ | ⟨access, claims, t, t', hdenied, -, hd⟩
    · rcases hf key with heq | ⟨hnone, -⟩
      · obtain ⟨e, he, hrest⟩ := ih (heq.symm.trans hget)
        exact ⟨e, by simp [he], hrest⟩
      · cases hnone.symm.trans hget
    · rw [hd.entries, MemoryStore.get?_revocations_revoke] at hget
      by_cases hkey : key = blacklistKey access
      · exact ⟨_, List.mem_cons_self, access, hdenied, hkey⟩
      · rw [if_neg fun hk => hkey hk.1] at hget
        obtain ⟨e, he, hrest⟩ := ih hget
        exact ⟨e, by simp [he], hrest⟩

/-- A token that was denied is still denied until it expires. -/
private theorem deniedUntil_of_denied (hstart : 0 ≤ w₀.clock) (hs : Serves c ids entropy w₀ h w)
    {e : Entry Operation (Option String)} (he : e ∈ h) {access : String} {claims : AccessClaims}
    (hdenied : e.denied? = some access) (hclaims : c.decodeAccessAnyAge access = .ok claims)
    (hmax : Nanos.ofSeconds claims.expiry ≤ Nanos.ofMillis int64Max) :
    DeniedUntil (blacklistKey access) (Nanos.ofSeconds claims.expiry) w := by
  have hfar {w : World MemoryStore} {h : Past} (hs : Serves c ids entropy w₀ h w) :
      Nanos.ofSeconds claims.expiry ≤ w.clock + Nanos.ofMillis int64Max :=
    Int.le_trans hmax (Int.le_add_of_nonneg_left (Int.le_trans hstart hs.clock_le))
  induction hs with
  | start => cases he
  | wait _ ht ih => exact (ih he).fades (.of_eq rfl) ht
  | other _ hsame ih => exact (ih he).fades (.of_eq hsame) (Int.le_refl _)
  | next op hs hr ih =>
    rcases List.mem_cons.mp he with rfl | he
    · rcases Operation.runs_program hr with ⟨-, hnone⟩ | ⟨a, claims', t, t', ha, hclaims', hd⟩
      · cases hnone.symm.trans hdenied
      · obtain rfl : access = a := Option.some.inj (hdenied.symm.trans ha)
        obtain rfl := Except.ok.inj (hclaims.symm.trans hclaims')
        exact .of_denies hd hmax (Int.le_refl _) (hfar hs)
    · exact (ih he).next hclaims hmax (Int.le_refl _) (hfar hs) hr

/-- An operation that returns a token denies none. -/
private theorem fades_of_issued {op : Operation} {access : String}
    (hr : Runs (MemoryStore.setting ids entropy) (op.program c) w (.ok (some access)) w') :
    Fades w w' := by
  have hnone {α : Type} {p : Program α}
      (hr : Runs (MemoryStore.setting ids entropy) (p >>= fun _ => pure (none : Option String)) w
        (.ok (some access)) w') : False := by
    obtain ⟨a, w₁, h₁, hr⟩ := runs_bind_ok hr
    cases (runs_done hr).1
  rcases Operation.runs_program hr with ⟨hf, -⟩ | ⟨a, claims, t, t', hdenied, -⟩
  · exact hf
  · cases op with
    | logout _ _ => exact (hnone hr).elim
    | revokePair _ _ => exact (hnone hr).elim
    | blacklist _ => exact (hnone hr).elim
    | _ => cases hdenied

/-- An access token is good for most of a minute, and its expiry is far from the bounds of 64 bits. -/
private theorem accessClaims_bounds (hc : c.Clamped) {t : Nanos} (hlast : t ≤ lastInstant)
    (p : Principal) : t + Nanos.ofSeconds 59 < Nanos.ofSeconds (c.accessClaims t p).expiry ∧
      Nanos.ofSeconds (c.accessClaims t p).expiry ≤ Nanos.ofMillis int64Max := by
  obtain ⟨hlow, hhigh⟩ := hc.access
  change t + Nanos.ofSeconds 59 <
      Nanos.ofSeconds ((t + c.accessMinutes * nanosPerMinute) / 1000000000) ∧
    Nanos.ofSeconds ((t + c.accessMinutes * nanosPerMinute) / 1000000000) ≤ Nanos.ofMillis int64Max
  unfold nanosPerMinute int64Max Nanos.ofSeconds Nanos.ofMillis
  unfold lastInstant at hlast
  unfold maxLifetimeMinutes at hhigh
  unfold Nanos at *
  omega

/-- Logging in at one instant. -/
private theorem run_login (user : User) {email password stored : String} {access token : String}
    (hfound : w.store.findByEmail email = some ⟨user, some stored⟩)
    (hverify : Password.verify password stored = .ok true)
    (haccess : c.encodeAccess (c.accessClaims w.clock
      ⟨user.id, user.email, w.store.rolesOf user.id⟩) = .ok access)
    (htoken : c.encodeRefresh (c.refreshClaims w.clock (entropy w.drawn)
      ⟨user.id, user.email, w.store.rolesOf user.id⟩) = .ok token) :
    ((Operation.login email password).program c).run ((MemoryStore.model ids).host entropy) w =
      (some (.ok (some access)), { w with
        store := { w.store with refreshTokens :=
          w.store.refreshTokens.insert user.id (c.recordOf w.clock user.id token) }
        drawn := w.drawn + 1 }) := by
  have hlook : MemoryStore.model ids w.clock (.findByEmail email) w.store =
      (.ok (some ⟨user, some stored⟩), w.store) := by
    rw [← hfound]
    rfl
  refine run_bind (a := c.tokenResponse ⟨access, token⟩) ?_
  unfold Codec.login
  rw [bind_eq, run_ask hlook]
  simp only [hverify]
  rw [bind_eq, Registration.run_loadPrincipal, bind_eq,
    run_bind (Codec.run_createTokens haccess htoken)]
  rfl

/-- Logging out at one instant. -/
theorem run_logout (ids : Nat → String) (entropy : Nat → Draw) (w : World MemoryStore)
    {access token : String}
    {claims : AccessClaims}
    {refreshClaims : RefreshClaims} {record : RefreshRecord}
    (hrefresh : c.decodeRefresh w.clock token = .ok refreshClaims)
    (hfound : w.store.refreshTokens.get? refreshClaims.subject = some record)
    (hhash : record.tokenHash = hashToken token) (hlive : w.clock < record.expiresAt)
    (huser : record.userId = refreshClaims.subject)
    (haccess : c.decodeAccessAnyAge access = .ok claims)
    (hsub : claims.subject = refreshClaims.subject) :
    ((Operation.logout access token).program c).run ((MemoryStore.model ids).host entropy) w =
      (some (.ok none), { w with
        store := { w.store with
          refreshTokens := w.store.refreshTokens.erase record.userId }.revoke w.clock
            (blacklistKey access) (remainingLifetime claims.expiry w.clock) }) := by
  obtain ⟨r, hcheck, hok, -⟩ := Codec.run_checkRefresh (c := c) ids entropy w token
  obtain rfl := (hok refreshClaims record).mpr ⟨hrefresh, hfound, hhash, hlive⟩
  let w₁ : World MemoryStore := { w with
    store := { w.store with refreshTokens := w.store.refreshTokens.erase record.userId } }
  have hconsume : (consume record).run ((MemoryStore.model ids).host entropy) w =
      (some (.ok ()), w₁) := Codec.run_consume (huser ▸ hfound) rfl
  refine run_bind (a := ⟨"logged out"⟩) (run_bind (a := ()) ?_)
  unfold Codec.revokePair
  rw [bind_eq, run_bind hcheck, haccess]
  simp only [hsub, ne_eq, not_true, if_false, bind_eq, ofExcept_eq, done_ok_bind]
  rw [run_bind hconsume]
  exact Codec.run_denyFor ids entropy w₁ access claims

def newWorld : World MemoryStore :=
  ⟨MemoryStore.insertRole ⟨superadminRole, []⟩ {}, 0, 0⟩

def firstUser : User :=
  ⟨serialId 0, "ada@example.com", none⟩

private def firstPrincipal : Principal :=
  ⟨firstUser.id, firstUser.email, .insert superadminRole .empty⟩

private def registeredWorld (c : Codec) (entropy : Nat → Draw) (password token : String) :
    World MemoryStore where
  store := { newWorld.store with
    users := Table.insert {} firstUser.id ⟨firstUser, some (Password.hash (entropy 0) password)⟩
    emails := Table.insert {} firstUser.email firstUser.id
    firstUserCreated := true
    userRoles := Table.insert {} firstUser.id firstPrincipal.roles
    refreshTokens := Table.insert {} firstUser.id (c.recordOf 0 firstUser.id token) }
  clock := 0
  drawn := 2

private theorem run_register (entropy : Nat → Draw) {password access token : String}
    (hpassword : Password.validate password = .ok ())
    (haccess : c.encodeAccess (c.accessClaims 0 firstPrincipal) = .ok access)
    (htoken : c.encodeRefresh (c.refreshClaims 0 (entropy 1) firstPrincipal) = .ok token) :
    ((Operation.register firstUser.email password none).program c).run
      ((MemoryStore.model serialId).host entropy) newWorld =
        (some (.ok (some access)), registeredWorld c entropy password token) := by
  have htrim : trim firstUser.email = firstUser.email := by decide
  have hregister := Registration.run_register (c := c) serialId entropy newWorld none
    (show ¬ (trim firstUser.email = "" ∨ '@' ∉ (trim firstUser.email).toList) by rw [htrim]; decide)
    hpassword (show newWorld.store.emails.contains (trim firstUser.email) = false by rw [htrim]; rfl)
    (fun _ => rfl) rfl (show firstPrincipal = _ by rw [htrim]; rfl) haccess htoken
  rw [htrim] at hregister
  exact run_bind hregister

namespace FreshAccess

/-- A token returned by an operation that takes less than a minute is accepted right away, with the
claims it was issued for, exactly if the same token was not put on the deny-list before. -/
theorem accepted_iff_not_denied {cfg : TokenConfig} (hsym : cfg.algorithm.isSymmetric = true)
    (hempty : w₀.store.revocations = {}) (hstart : 0 ≤ w₀.clock)
    (hs : Serves (.ofConfig cfg) ids entropy w₀ h w) {op : Operation} {access : String}
    (hr : Runs (MemoryStore.setting ids entropy) (op.program (.ofConfig cfg)) w (.ok (some access)) w')
    (hsoon : w'.clock ≤ w.clock + Nanos.ofSeconds 59) (hlast : w'.clock ≤ lastInstant) :
    ∃ p t, w.clock ≤ t ∧ t ≤ w'.clock ∧
      Codec.encodeAccess (.ofConfig cfg) (Codec.accessClaims (.ofConfig cfg) t p) = .ok access ∧
      (Codec.checkAccess (.ofConfig cfg) access).run ((MemoryStore.model ids).host entropy) w' =
        (some (if access ∈ h.filterMap Entry.denied? then .error .tokenRevoked
          else .ok (Codec.accessClaims (.ofConfig cfg) t p)), w') := by
  let c : Codec := .ofConfig cfg
  have hc : c.Clamped := Codec.ofConfig_clamped cfg
  obtain ⟨p, t, ht, ht', henc⟩ := issued_program (c := c) hsym hr
  refine ⟨p, t, ht, ht', henc, ?_⟩
  have hnow : 0 ≤ t := Int.le_trans (Int.le_trans hstart hs.clock_le) ht
  have htlast : t ≤ lastInstant := Int.le_trans ht' hlast
  have hvalid : ValidExpiry (c.accessClaims t p).expiry :=
    Codec.accessClaims_validExpiry hc hnow htlast p
  obtain ⟨hlate, hmax⟩ := accessClaims_bounds hc htlast p
  have hfresh : w'.clock < Nanos.ofSeconds (c.accessClaims t p).expiry :=
    Int.lt_of_le_of_lt (Int.le_trans hsoon (Int.add_le_add_right ht _)) hlate
  have hdecode : c.decodeAccess w'.clock access = .ok (c.accessClaims t p) := by
    rw [Codec.decodeAccess_encodeAccess hvalid henc, if_neg]
    exact Int.not_le.mpr (Nanos.seconds_lt_iff.mpr hfresh)
  have hfades : Fades w w' := fades_of_issued hr
  rw [Codec.run_checkAccess, hdecode]
  by_cases hmem : access ∈ h.filterMap Entry.denied?
  · obtain ⟨e, he, hdenied⟩ := List.mem_filterMap.mp hmem
    have hd := (deniedUntil_of_denied hstart hs he hdenied
      (Codec.decodeAccessAnyAge_encodeAccess hvalid henc) hmax).fades hfades hr.clock_le
    rw [if_pos hmem]
    simp only [hd.isRevoked (Int.le_refl _) hfresh, if_true]
  · have hget : w'.store.revocations.get? (blacklistKey access) = none := by
      cases hsome : w'.store.revocations.get? (blacklistKey access) with
      | none => rfl
      | some deadline =>
        rcases hfades (blacklistKey access) with heq | ⟨hnone, -⟩
        · obtain ⟨e, he, a, hdenied, hkey⟩ := exists_denied_of_get? hempty hs (heq.symm.trans hsome)
          obtain rfl := blacklistKey_injective hkey
          exact absurd (List.mem_filterMap.mpr ⟨e, he, hdenied⟩) hmem
        · exact hsome.symm.trans hnone
    rw [if_neg hmem]
    simp only [MemoryStore.isRevoked, hget]
    rfl

/-- The first user of a new store has a token that is accepted. -/
theorem accepted_iff_not_denied_first_user :
    ∃ access w', Runs (MemoryStore.setting serialId fun n => .replicate 16 n.toUInt8)
        ((Operation.register firstUser.email "correct horse" none).program
          (.ofConfig (.withSecret "secret"))) newWorld (.ok (some access)) w' ∧
      ∃ claims, (Codec.checkAccess (.ofConfig (.withSecret "secret")) access).run
        ((MemoryStore.model serialId).host fun n => .replicate 16 n.toUInt8) w' =
          (some (.ok claims), w') := by
  let c : Codec := .ofConfig (.withSecret "secret")
  let entropy : Nat → Draw := fun n => .replicate 16 n.toUInt8
  obtain ⟨access, haccess⟩ : ∃ access,
      c.encodeAccess (c.accessClaims 0 firstPrincipal) = .ok access := Codec.exists_sign rfl _
  obtain ⟨token, htoken⟩ : ∃ token,
      c.encodeRefresh (c.refreshClaims 0 (entropy 1) firstPrincipal) = .ok token :=
    Codec.exists_sign rfl _
  have hregister := runs_of_run (run_register entropy
    (show Password.validate "correct horse" = .ok () from rfl) haccess htoken)
  have hsym : (TokenConfig.withSecret "secret").algorithm.isSymmetric = true := rfl
  obtain ⟨p, t, -, -, -, hcheck⟩ := accepted_iff_not_denied hsym rfl (Int.le_refl 0) .start hregister
    (show (0 : Int) ≤ 59000000000 by decide) (show (0 : Int) ≤ 8210266876799999999999 by decide)
  exact ⟨access, _, hregister, _, hcheck⟩

/-- The claim that every fresh token is accepted fails: a user who registers, logs out and logs in
again within a second is given the token that was logged out. -/
theorem login_after_logout_refused :
    ∃ access token w₁ w₂,
      Serves (.ofConfig (.withSecret "secret")) serialId (fun n => .replicate 16 n.toUInt8) newWorld
        [⟨.logout access token, .ok none⟩,
          ⟨.register firstUser.email "correct horse" none, .ok (some access)⟩] w₁ ∧
      ((Operation.login firstUser.email "correct horse").program
        (.ofConfig (.withSecret "secret"))).run
          ((MemoryStore.model serialId).host fun n => .replicate 16 n.toUInt8) w₁ =
            (some (.ok (some access)), w₂) ∧
      (Codec.checkAccess (.ofConfig (.withSecret "secret")) access).run
        ((MemoryStore.model serialId).host fun n => .replicate 16 n.toUInt8) w₂ =
          (some (.error .tokenRevoked), w₂) := by
  let c : Codec := .ofConfig (.withSecret "secret")
  let entropy : Nat → Draw := fun n => .replicate 16 n.toUInt8
  let claims := c.accessClaims 0 firstPrincipal
  obtain ⟨access, haccess⟩ : ∃ access, c.encodeAccess claims = .ok access :=
    Codec.exists_sign rfl _
  obtain ⟨token, htoken⟩ : ∃ token,
      c.encodeRefresh (c.refreshClaims 0 (entropy 1) firstPrincipal) = .ok token :=
    Codec.exists_sign rfl _
  obtain ⟨token', htoken'⟩ : ∃ token,
      c.encodeRefresh (c.refreshClaims 0 (entropy 2) firstPrincipal) = .ok token :=
    Codec.exists_sign rfl _
  have hc : c.Clamped := Codec.ofConfig_clamped _
  have hvalid : ValidExpiry claims.expiry :=
    Codec.accessClaims_validExpiry hc (by decide) (by decide) _
  have hany : c.decodeAccessAnyAge access = .ok claims :=
    Codec.decodeAccessAnyAge_encodeAccess hvalid haccess
  have hrefresh : c.decodeRefresh 0 token = .ok (c.refreshClaims 0 (entropy 1) firstPrincipal) := by
    rw [Codec.decodeRefresh_encodeRefresh
      (Codec.refreshClaims_validExpiry hc (by decide) (by decide) _ _) htoken]
    rfl
  have hregister := run_register entropy (show Password.validate "correct horse" = .ok () from rfl)
    haccess htoken
  have hlogout := run_logout serialId entropy (registeredWorld c entropy "correct horse" token) hrefresh
    rfl rfl (show (0 : Int) < 2592000000000000 by decide) rfl hany rfl
  let w₁ : World MemoryStore := { registeredWorld c entropy "correct horse" token with
    store := { (registeredWorld c entropy "correct horse" token).store with
      refreshTokens := Table.erase (Table.insert {} firstUser.id (c.recordOf 0 firstUser.id token))
        firstUser.id }.revoke 0 (blacklistKey access) (remainingLifetime claims.expiry 0) }
  obtain ⟨w₂, hlogin, hclock⟩ : ∃ w₂,
      ((Operation.login firstUser.email "correct horse").program c).run
        ((MemoryStore.model serialId).host entropy) w₁ = (some (.ok (some access)), w₂) ∧
          w₂.clock = 0 :=
    ⟨_, run_login firstUser rfl (Password.verify_hash (entropy 0) "correct horse") haccess htoken',
      rfl⟩
  have hs : Serves c serialId entropy newWorld
      [⟨.logout access token, .ok none⟩,
        ⟨.register firstUser.email "correct horse" none, .ok (some access)⟩] w₁ :=
    .next _ (.next _ .start (runs_of_run hregister)) (runs_of_run hlogout)
  refine ⟨access, token, w₁, w₂, hs, hlogin, ?_⟩
  have hruns := runs_of_run hlogin
  have hdenied := (deniedUntil_of_denied (by decide) hs List.mem_cons_self rfl hany
    (by decide)).fades (fades_of_issued hruns) hruns.clock_le
  have hdecode : Codec.decodeAccess (.ofConfig (.withSecret "secret")) w₂.clock access =
      .ok claims := by
    rw [Codec.decodeAccess_encodeAccess hvalid haccess, hclock]
    rfl
  have hlisted : w₂.store.isRevoked w₂.clock (blacklistKey access) = (true, w₂.store) :=
    hdenied.isRevoked (Int.le_refl _) (hclock ▸ by decide)
  rw [Codec.run_checkAccess, hdecode]
  simp only [hlisted, if_true]

end FreshAccess

end Turnstile
