import Turnstile.Proofs.Service.FreshAccess
import Turnstile.Proofs.Service.Login
import Turnstile.Proofs.Token.Expiry

/-! Whoever signs in gets tokens that tell who the user is now. There are three ways to sign in, and each
finds its user in its own way: by email, as the one just created, or as the subject of a token. -/

namespace Turnstile

open Program

inductive SignIn where
  | login (email password : String)
  | register (email password : String) (name : Option String)
  | refresh (token : String)

namespace SignIn

def program (c : Codec) : SignIn → Program TokenResponse
  | login email password => c.login email password
  | register email password name => c.register email password name
  | refresh token => c.refresh token

/-- The user that a sign-in is for: the one with the email that was typed, the one it creates, or the
subject of the token that was presented. -/
def For (c : Codec) (w w' : World MemoryStore) (user : User) : SignIn → Prop
  | login email _ => user.email = email ∧ w.store.findById user.id = some user
  | register email _ name =>
    user.email = trim email ∧ user.name = name ∧ w.store.findById user.id = none
  | refresh token => w.store.findById user.id = some user ∧
    ∃ t claims, w.clock ≤ t ∧ t ≤ w'.clock ∧ c.decodeRefresh t token = .ok claims ∧
      claims.subject = user.id

end SignIn

/-- A response with tokens that say what is stored of a user, and are read back until they expire. -/
structure Current (c : Codec) (user : User) (w w' : World MemoryStore) (res : TokenResponse) :
    Prop where
  stored : w'.store.findById user.id = some user
  access : ∃ claims t, w.clock ≤ t ∧ t ≤ w'.clock ∧ t < Nanos.ofSeconds claims.expiry ∧
    Codec.GoodUntil (.ok res.accessToken) c.decodeAccess claims.expiry claims ∧
    claims.subject = user.id ∧ claims.email = user.email ∧
    claims.roles = w'.store.rolesOf user.id ∧
    (claims.superuser = true ↔ "superadmin" ∈ w'.store.rolesOf user.id)
  refresh : ∃ claims t, w.clock ≤ t ∧ t ≤ w'.clock ∧ t < Nanos.ofSeconds claims.expiry ∧
    Codec.GoodUntil (.ok res.refreshToken) c.decodeRefresh claims.expiry claims ∧
    claims.subject = user.id ∧ claims.email = user.email

variable {c : Codec} {ids : Nat → String} {entropy : Nat → Draw} {w w₁ w' : World MemoryStore}
  {user : User}
  {res : TokenResponse}

/-- What was issued for a stored user with the roles stored is current. -/
theorem IssuedFor.current
    (h : IssuedFor c ⟨user.id, user.email, w₁.store.rolesOf user.id⟩ w₁ w' res) (hc : c.Clamped)
    (hstart : 0 ≤ w.clock) (hle : w.clock ≤ w₁.clock) (hlast : w'.clock ≤ lastInstant)
    (huser : w₁.store.findById user.id = some user) : Current c user w w' res := by
  obtain ⟨⟨t, ht, ht', haccess⟩, ⟨u, d, hu, hu', hrefresh⟩, ⟨v, -, -, hstored⟩⟩ := h
  have hsym : c.algorithm.isSymmetric = true := Codec.symmetric_of_sign haccess
  have htw : w.clock ≤ t := Int.le_trans hle ht
  have huw : w.clock ≤ u := Int.le_trans hle hu
  have hroles : w'.store.rolesOf user.id = w₁.store.rolesOf user.id := by
    rw [hstored]
    rfl
  constructor
  case stored =>
    rw [hstored]
    exact huser
  case access =>
    have hgood := Codec.goodUntil_access hsym (Codec.accessClaims_validExpiry hc
      (Int.le_trans hstart htw) (Int.le_trans ht' hlast)
      ⟨user.id, user.email, w₁.store.rolesOf user.id⟩)
    rw [haccess] at hgood
    refine ⟨_, t, htw, ht', Codec.lt_expiry_accessClaims hc t _, hgood, rfl, rfl, hroles.symm, ?_⟩
    rw [hroles]
    exact decide_eq_true_iff
  case refresh =>
    have hgood := Codec.goodUntil_refresh hsym (Codec.refreshClaims_validExpiry hc
      (Int.le_trans hstart huw) (Int.le_trans hu' hlast) d
      ⟨user.id, user.email, w₁.store.rolesOf user.id⟩)
    rw [hrefresh] at hgood
    exact ⟨_, u, huw, hu', Codec.lt_expiry_refreshClaims hc u d _, hgood, rfl, rfl⟩

/-- Refreshing at one instant. -/
theorem Codec.run_refresh (ids : Nat → String) {token access token' : String}
    {claims : RefreshClaims} {record : RefreshRecord}
    (hdecode : c.decodeRefresh w.clock token = .ok claims)
    (hfound : w.store.refreshTokens.get? claims.subject = some record)
    (hhash : record.tokenHash = hashToken token) (hlive : w.clock < record.expiresAt)
    (huser : w.store.findById claims.subject = some user) (hid : user.id = claims.subject)
    (hfiled : record.userId = claims.subject)
    (haccess : c.encodeAccess (c.accessClaims w.clock
      ⟨user.id, user.email, w.store.rolesOf user.id⟩) = .ok access)
    (hrefresh : c.encodeRefresh (c.refreshClaims w.clock (entropy w.drawn)
      ⟨user.id, user.email, w.store.rolesOf user.id⟩) = .ok token') :
    (c.refresh token).run ((MemoryStore.model ids).host entropy) w =
      (some (.ok (c.tokenResponse ⟨access, token'⟩)), { w with
        store := { w.store with
          refreshTokens := (w.store.refreshTokens.erase record.userId).insert user.id
            (c.recordOf w.clock user.id token') }
        drawn := w.drawn + 1 }) := by
  obtain ⟨r, hcheck, hok, -⟩ := Codec.run_checkRefresh (c := c) ids entropy w token
  obtain rfl := (hok claims record).mpr ⟨hdecode, hfound, hhash, hlive⟩
  have hlook : MemoryStore.model ids w.clock (.findById claims.subject) w.store =
      (.ok (some user), w.store) := by
    rw [← huser]
    rfl
  have hconsume : (consume record).run ((MemoryStore.model ids).host entropy) w =
      (some (.ok ()), { w with
        store := { w.store with refreshTokens := w.store.refreshTokens.erase record.userId } }) :=
    Codec.run_consume (hfiled ▸ hfound) rfl
  have hown : ¬ user.id ≠ record.userId := by rw [hid, hfiled]; exact fun h => h rfl
  unfold Codec.refresh
  rw [bind_eq, run_bind hcheck]
  dsimp only
  rw [bind_eq, run_ask hlook]
  dsimp only
  rw [bind_eq, Registration.run_loadPrincipal, bind_eq]
  refine run_bind (a := (⟨access, token'⟩ : TokenPair)) ?_
  unfold Codec.rotate
  rw [if_neg hown, bind_eq, run_bind hconsume]
  exact Codec.run_createTokens haccess hrefresh

namespace SignIn

/-- A login is for the user with the email typed. -/
theorem login_current (hc : c.Clamped) (hi : w.store.Indexed) (hstart : 0 ≤ w.clock)
    (hlast : w'.clock ≤ lastInstant) {email password : String}
    (h : Runs (MemoryStore.setting ids entropy) (c.login email password) w (.ok res) w') :
    ∃ user, (login email password).For c w w' user ∧ Current c user w w' res := by
  rcases Codec.runs_login h with ⟨-, hrefused, -⟩ | ⟨found, stored, t, hfound, -, -, ht, h⟩
  · cases hrefused
  · obtain ⟨id, hlisted, hget⟩ := Option.bind_eq_some_iff.mp hfound
    obtain ⟨found', hget', hemail⟩ := hi.leads email id hlisted
    obtain rfl : found = found' := Option.some.inj (hget.symm.trans hget')
    have huser : w.store.findById found.user.id = some found.user :=
      hi.findById_eq_some.mpr ⟨found, hemail ▸ hfound, rfl, rfl⟩
    have hissued := Codec.issuedFor_of_issueFor h
    exact ⟨found.user, ⟨hemail, huser⟩, hissued.current hc hstart ht hlast huser⟩

/-- A registration is for a new user with the email that was given, without blanks around it. -/
theorem register_current (hids : Function.Injective ids) (hc : c.Clamped)
    (hn : w.store.Numbered ids) (hstart : 0 ≤ w.clock) (hlast : w'.clock ≤ lastInstant)
    {email password : String} {name : Option String}
    (h : Runs (MemoryStore.setting ids entropy) (c.register email password name) w (.ok res) w') :
    ∃ user, (register email password name).For c w w' user ∧ Current c user w w' res := by
  obtain ⟨salt, w₁, hle, -, husers, -, hissued⟩ := Codec.runs_register h
  let user : User := ⟨(w.store.nextUser ids).id, trim email, name⟩
  have hfresh : w.store.findById user.id = none := Option.map_eq_none_iff.mpr (hn.fresh hids)
  have hcreated : w₁.store.findById user.id = some user := by
    unfold MemoryStore.findById
    rw [husers, MemoryStore.get?_users_withUser]
    rfl
  have hcurrent : Current c user w w' res :=
    IssuedFor.current hissued hc hstart hle hlast hcreated
  exact ⟨user, ⟨rfl, rfl, hfresh⟩, hcurrent⟩

/-- A refresh is for the subject of the token that was presented. -/
theorem refresh_current (hc : c.Clamped) (hi : w.store.Indexed) (hstart : 0 ≤ w.clock)
    (hlast : w'.clock ≤ lastInstant) {token : String}
    (h : Runs (MemoryStore.setting ids entropy) (c.refresh token) w (.ok res) w') :
    ∃ user, (refresh token).For c w w' user ∧ Current c user w w' res := by
  obtain ⟨t, claims, record, user, w₁, ht, ht', hdecode, -, -, huser, hle, hs₁, hissued⟩ :=
    Codec.runs_refresh h
  obtain ⟨-, -, -, hid⟩ := hi.findById_eq_some.mp huser
  rw [← hid] at huser
  have hkept : w₁.store.findById user.id = some user := by
    rw [hs₁]
    exact huser
  have hroles : w.store.rolesOf user.id = w₁.store.rolesOf user.id := by
    rw [hs₁]
    rfl
  rw [hroles] at hissued
  exact ⟨user, ⟨huser, t, claims, ht, ht', hdecode, hid.symm⟩,
    hissued.current hc hstart hle hlast hkept⟩

/-- In every store that can come about, whoever signs in successfully gets an access token with the
stored id and email and exactly the roles granted by then, and a refresh token with the same id and
email. A refresh is for the user the presented token was issued for, and no role held at that time is
in the new token unless it is still granted. -/
theorem tokens_current (hids : Function.Injective ids) {cfg : TokenConfig}
    (hreach : w.store.Reachable ids) (hstart : 0 ≤ w.clock) (hlast : w'.clock ≤ lastInstant)
    (e : SignIn)
    (h : Runs (MemoryStore.setting ids entropy) (e.program (.ofConfig cfg)) w (.ok res) w') :
    ∃ user, e.For (.ofConfig cfg) w w' user ∧ Current (.ofConfig cfg) user w w' res ∧
      ∀ token p t d, e = .refresh token → 0 ≤ t → t ≤ lastInstant →
        Codec.encodeRefresh (.ofConfig cfg) (Codec.refreshClaims (.ofConfig cfg) t d p) = .ok token →
        p.subject = user.id ∧ ∀ role ∈ p.roles, role ∉ w'.store.rolesOf user.id →
          ∀ now claims, Codec.decodeAccess (.ofConfig cfg) now res.accessToken = .ok claims →
            role ∉ claims.roles := by
  have hc : Codec.Clamped (.ofConfig cfg) := Codec.ofConfig_clamped cfg
  obtain ⟨hi, hn⟩ := hreach.sound hids
  obtain ⟨user, hfor, hcurrent⟩ : ∃ user, e.For (.ofConfig cfg) w w' user ∧
      Current (.ofConfig cfg) user w w' res := by
    cases e with
    | login email password => exact login_current hc hi hstart hlast h
    | register email password name => exact register_current hids hc hn hstart hlast h
    | refresh token => exact refresh_current hc hi hstart hlast h
  refine ⟨user, hfor, hcurrent, ?_⟩
  rintro token p t d rfl ht ht' hencode
  constructor
  · obtain ⟨-, u, claims, -, -, hdecode, hid⟩ := hfor
    have hvalid := Codec.refreshClaims_validExpiry hc ht ht' d p
    rw [Codec.decodeRefresh_encodeRefresh hvalid hencode] at hdecode
    split_ifs at hdecode
    rw [← hid, ← Except.ok.inj hdecode]
    rfl
  · intro role _ hgone now claims hdecode
    obtain ⟨claims', -, -, -, -, ⟨access, haccess, hgood⟩, -, -, hroles, -⟩ := hcurrent.access
    obtain rfl := Except.ok.inj haccess
    rw [hgood now] at hdecode
    split_ifs at hdecode
    rw [← Except.ok.inj hdecode, hroles]
    exact hgone

/-- The world a second after tokens were issued for the first user, who holds no role any more. -/
def demotedWorld (c : Codec) (token : String) : World MemoryStore where
  store := { MemoryStore.withUser serialId firstUser.email none "" {} with
    refreshTokens := Table.insert {} firstUser.id (c.recordOf 0 firstUser.id token) }
  clock := Nanos.ofSeconds 1
  drawn := 1

private theorem reachable_demotedWorld (token : String) :
    (demotedWorld c token).store.Reachable serialId :=
  .call 0 (.upsert (c.recordOf 0 firstUser.id token))
    (.call 0 (.createUser firstUser.email none "") .empty)

/-- A refresh drops the role that the earlier pair was issued with. -/
theorem tokens_current_demoted :
    ∃ token res w', Codec.encodeRefresh (.ofConfig (.withSecret "secret"))
        (Codec.refreshClaims (.ofConfig (.withSecret "secret")) 0 (.replicate 16 0)
          ⟨firstUser.id, firstUser.email, .insert "editor" .empty⟩) = .ok token ∧
      Runs (MemoryStore.setting serialId fun n => .replicate 16 n.toUInt8)
        ((refresh token).program (.ofConfig (.withSecret "secret")))
        (demotedWorld (.ofConfig (.withSecret "secret")) token) (.ok res) w' ∧
      ∃ claims, Codec.decodeAccess (.ofConfig (.withSecret "secret")) (Nanos.ofSeconds 1) res.accessToken =
        .ok claims ∧ claims.subject = firstUser.id ∧ "editor" ∉ claims.roles := by
  let c : Codec := .ofConfig (.withSecret "secret")
  let entropy : Nat → Draw := fun n => .replicate 16 n.toUInt8
  let later : Nanos := Nanos.ofSeconds 1
  let editor : Principal := ⟨firstUser.id, firstUser.email, .insert "editor" .empty⟩
  let now : Principal := ⟨firstUser.id, firstUser.email, .empty⟩
  obtain ⟨token, htoken⟩ : ∃ token, c.encodeRefresh (c.refreshClaims 0 (entropy 0) editor) =
    .ok token := Codec.exists_sign rfl _
  obtain ⟨access, haccess⟩ : ∃ access, c.encodeAccess (c.accessClaims later now) = .ok access :=
    Codec.exists_sign rfl _
  obtain ⟨token', hrefresh⟩ : ∃ token', c.encodeRefresh (c.refreshClaims later (entropy 1) now) =
    .ok token' := Codec.exists_sign rfl _
  have hvalid := Codec.refreshClaims_validExpiry (c := c) (Codec.ofConfig_clamped _)
    (show (0 : Nanos) ≤ 0 by decide) (by decide) (entropy 0) editor
  have hdecode : c.decodeRefresh later token = .ok (c.refreshClaims 0 (entropy 0) editor) := by
    rw [Codec.decodeRefresh_encodeRefresh hvalid htoken]
    exact if_neg (by decide)
  have hstored : (demotedWorld c token).store.findById firstUser.id = some firstUser :=
    congrArg (Option.map Credentials.user)
      (MemoryStore.get?_users_withUser serialId firstUser.email none "" {})
  have hrecorded : (demotedWorld c token).store.refreshTokens.get? firstUser.id =
      some (c.recordOf 0 firstUser.id token) := Table.get?_insert _ _ _ _
  have hrun := runs_of_run (Codec.run_refresh (w := demotedWorld c token) serialId hdecode hrecorded rfl
    (show later < 0 + c.refreshLifetime by decide) hstored rfl rfl haccess hrefresh)
  obtain ⟨user, -, hcurrent, hearlier⟩ :=
    tokens_current serialId_injective (reachable_demotedWorld token)
    (show 0 ≤ later by decide) (show later ≤ lastInstant by decide)
    (.refresh token) hrun
  obtain ⟨hsubject, hgone⟩ :=
    hearlier token editor 0 (entropy 0) rfl (Int.le_refl 0) (by decide) htoken
  obtain ⟨claims, t, ht, ht', hlive, ⟨access', hok, hgood⟩, hid, -⟩ := hcurrent.access
  obtain rfl := Except.ok.inj hok
  have hsame : t = later := Int.le_antisymm ht' ht
  have hread := hgood later
  rw [if_pos (hsame ▸ hlive)] at hread
  have hrole : "editor" ∈ editor.roles := SortedSet.mem_insert.mpr (.inl rfl)
  exact ⟨token, _, _, htoken, hrun, claims, hread, hid.trans hsubject.symm,
    hgone "editor" hrole List.not_mem_nil later claims hread⟩

end SignIn

end Turnstile
