import Mathlib.Tactic.SplitIfs
import Turnstile.Proofs.Service.Tokens
import Turnstile.Proofs.Store.Memory
import Turnstile.Service.Accounts

/-! What a login comes to over a store in memory: tokens for the user whose hash the password fits, or
one and the same refusal. What a registration comes to if it succeeds: a new user, and tokens for it. -/

namespace Turnstile

open Program

/-- A user is stored under exactly this email, with a hash that the password fits. -/
def MemoryStore.Accepts (s : MemoryStore) (email password : String) : Prop :=
  ∃ found stored, s.findByEmail email = some found ∧ found.passwordHash = some stored ∧
    Password.verify password stored = .ok true

def Codec.issueFor (c : Codec) (userId email : String) : Program TokenResponse := do
  let p ← loadPrincipal userId email
  return c.tokenResponse (← c.createTokens p)

/-- A response with a fresh pair for a principal, and the store with the record of it. -/
structure IssuedFor (c : Codec) (p : Principal) (w w' : World MemoryStore) (res : TokenResponse) :
    Prop where
  access : ∃ t, w.clock ≤ t ∧ t ≤ w'.clock ∧
    c.encodeAccess (c.accessClaims t p) = .ok res.accessToken
  refresh : ∃ t d, w.clock ≤ t ∧ t ≤ w'.clock ∧
    c.encodeRefresh (c.refreshClaims t d p) = .ok res.refreshToken
  stored : ∃ t, w.clock ≤ t ∧ t ≤ w'.clock ∧ w'.store = { w.store with
    refreshTokens := w.store.refreshTokens.insert p.subject
      (c.recordOf t p.subject res.refreshToken) }

variable {c : Codec} {ids : Nat → String} {entropy : Nat → Draw} {w w' : World MemoryStore}

theorem IssuedFor.of_later {p : Principal} {res : TokenResponse} {w₁ : World MemoryStore}
    (h : IssuedFor c p w₁ w' res) (hstore : w₁.store = w.store) (hle : w.clock ≤ w₁.clock) :
    IssuedFor c p w w' res := by
  obtain ⟨⟨u, hu, haccess⟩, ⟨v, d, hv, hrefresh⟩, ⟨t', ht', hend, hstored⟩⟩ := h
  rw [hstore] at hstored
  exact ⟨⟨u, Int.le_trans hle hu, haccess⟩, ⟨v, d, Int.le_trans hle hv, hrefresh⟩,
    ⟨t', Int.le_trans hle ht', hend, hstored⟩⟩

/-- Tokens are issued without a change to any account. -/
theorem IssuedFor.accounts {p : Principal} {res : TokenResponse} (h : IssuedFor c p w w' res) :
    w'.store.users = w.store.users ∧ w'.store.emails = w.store.emails := by
  obtain ⟨t, -, -, hstored⟩ := h.stored
  rw [hstored]
  exact ⟨rfl, rfl⟩

/-- A call that creates nobody leaves users and emails alone. -/
theorem accounts_of_ask {d : Call} {r : Except AuthError d.Answer} (hd : d.method ≠ .createUser)
    (h : Runs (MemoryStore.setting ids entropy) (ask d) w r w') :
    w'.store.users = w.store.users ∧ w'.store.emails = w.store.emails := by
  obtain ⟨t, -, h⟩ := runs_call_of_reliable (MemoryStore.setting_reliable ids entropy) h
  obtain ⟨-, hw⟩ := runs_done h
  have hframe := MemoryStore.frame_model ids t d w.store
  rw [hw]
  exact ⟨hframe.users hd, hframe.emails hd⟩

/-- A call that is always answered in one way, and changes nothing. -/
theorem runs_look {α : Type} {d : Call} {a : d.Answer} {f : d.Answer → Program α}
    {r : Except AuthError α} (ha : ∀ t, MemoryStore.model ids t d w.store = (.ok a, w.store))
    (h : Runs (MemoryStore.setting ids entropy) (ask d >>= f) w r w') :
    ∃ t, w.clock ≤ t ∧ Runs (MemoryStore.setting ids entropy) (f a) (w.atTime t) r w' := by
  obtain ⟨t, ht, h⟩ := runs_call_of_reliable (MemoryStore.setting_reliable ids entropy) h
  change Runs _ ((done (MemoryStore.model ids t d w.store).1).bind f)
    { w.atTime t with store := (MemoryStore.model ids t d w.store).2 } r w' at h
  rw [ha t] at h
  exact ⟨t, ht, h⟩

theorem runs_loadPrincipal {userId email : String} {r : Except AuthError Principal}
    (h : Runs (MemoryStore.setting ids entropy) (loadPrincipal userId email) w r w') :
    r = .ok ⟨userId, email, w.store.rolesOf userId⟩ ∧ w'.store = w.store := by
  obtain ⟨t, -, h⟩ := runs_look (a := (w.store.rolesOf userId).elems) (fun _ => rfl) h
  obtain ⟨hr, hw⟩ := runs_done h
  rw [SortedSet.ofList_elems] at hr
  exact ⟨hr, by rw [hw]; rfl⟩

namespace Codec

/-- A symmetric algorithm always issues. -/
theorem runs_respond (hc : c.algorithm.isSymmetric = true) {p : Principal}
    {r : Except AuthError TokenResponse}
    (h : Runs (MemoryStore.setting ids entropy) (do return c.tokenResponse (← c.createTokens p)) w r
      w') : ∃ res, r = .ok res ∧ IssuedFor c p w w' res := by
  rcases runs_bind h with ⟨pair, w₁, hpair, h⟩ | ⟨e, -, hpair⟩
  · obtain ⟨u, t, d, t', access, token, hu, hut, htt, ht', haccess, htoken, hok, hs₁⟩ :=
      runs_createTokens hc hpair
    obtain rfl := Except.ok.inj hok
    obtain ⟨hr, hw⟩ := runs_done h
    have ht : w.clock ≤ t := Int.le_trans hu hut
    have hend : t' ≤ w'.clock := Int.le_trans ht' h.clock_le
    have htend : t ≤ w'.clock := Int.le_trans htt hend
    refine ⟨_, hr, ⟨u, hu, Int.le_trans hut htend, haccess⟩, ⟨t, d, ht, htend, htoken⟩,
      t', Int.le_trans ht htt, hend, ?_⟩
    rw [hw, World.atTime_store, hs₁]
    rfl
  · obtain ⟨u, t, d, t', access, token, -, -, -, -, -, -, hok, -⟩ := runs_createTokens hc hpair
    cases hok

theorem runs_issueFor (hc : c.algorithm.isSymmetric = true) {userId email : String}
    {r : Except AuthError TokenResponse}
    (h : Runs (MemoryStore.setting ids entropy) (c.issueFor userId email) w r w') :
    ∃ res, r = .ok res ∧ IssuedFor c ⟨userId, email, w.store.rolesOf userId⟩ w w' res := by
  rcases runs_bind h with ⟨p, w₁, hp, h⟩ | ⟨e, -, hp⟩
  · obtain ⟨hok, hs₁⟩ := runs_loadPrincipal hp
    obtain rfl := Except.ok.inj hok
    obtain ⟨res, hr, hissued⟩ := runs_respond hc h
    exact ⟨res, hr, hissued.of_later hs₁ hp.clock_le⟩
  · cases (runs_loadPrincipal hp).1

/-- What was issued was issued for the user with the roles then stored, by a symmetric algorithm. -/
theorem issuedFor_of_issueFor {userId email : String} {res : TokenResponse}
    (h : Runs (MemoryStore.setting ids entropy) (c.issueFor userId email) w (.ok res) w') :
    IssuedFor c ⟨userId, email, w.store.rolesOf userId⟩ w w' res := by
  obtain ⟨p, w₁, -, hp⟩ := runs_bind_ok h
  obtain ⟨pair, w₂, hpair, -⟩ := runs_bind_ok hp
  obtain ⟨res', hok, hissued⟩ := runs_issueFor (symmetric_of_createTokens hpair) h
  obtain rfl := Except.ok.inj hok
  exact hissued

/-- A login is refused without a trace, or goes on to issue tokens for the user it found. -/
theorem runs_login {email password : String} {r : Except AuthError TokenResponse}
    (h : Runs (MemoryStore.setting ids entropy) (c.login email password) w r w') :
    (¬ w.store.Accepts email password ∧ r = .error .invalidCredentials ∧ w'.store = w.store) ∨
    ∃ found stored t, w.store.findByEmail email = some found ∧
      found.passwordHash = some stored ∧ Password.verify password stored = .ok true ∧
      w.clock ≤ t ∧ Runs (MemoryStore.setting ids entropy) (c.issueFor found.user.id found.user.email)
        (w.atTime t) r w' := by
  obtain ⟨t, ht, h⟩ := runs_look (a := w.store.findByEmail email) (fun _ => rfl) h
  by_cases haccepts : w.store.Accepts email password
  · obtain ⟨found, stored, hfound, hstored, hverify⟩ := haccepts
    simp only [hfound, hstored, hverify] at h
    exact .inr ⟨found, stored, t, hfound, hstored, hverify, ht, h⟩
  · have hrefused (h : Runs (MemoryStore.setting ids entropy) (fail .invalidCredentials) (w.atTime t) r
        w') : r = .error .invalidCredentials ∧ w'.store = w.store := by
      obtain ⟨hr, hw⟩ := runs_done h
      exact ⟨hr, by rw [hw]; rfl⟩
    refine .inl ⟨haccepts, ?_⟩
    split at h
    · rename_i found hfound
      split at h
      · rename_i stored hstored
        split at h
        · rename_i hverify
          exact absurd ⟨found, stored, hfound, hstored, hverify⟩ haccepts
        · exact hrefused h
      · exact hrefused h
    · exact hrefused h

/-- With a symmetric algorithm nothing but the email and the password can refuse a login. -/
theorem runs_login_of_symmetric (hc : c.algorithm.isSymmetric = true) {email password : String}
    {r : Except AuthError TokenResponse}
    (h : Runs (MemoryStore.setting ids entropy) (c.login email password) w r w') :
    (¬ w.store.Accepts email password ∧ r = .error .invalidCredentials ∧ w'.store = w.store) ∨
    ∃ found stored res, w.store.findByEmail email = some found ∧
      found.passwordHash = some stored ∧ Password.verify password stored = .ok true ∧ r = .ok res ∧
      IssuedFor c ⟨found.user.id, found.user.email, w.store.rolesOf found.user.id⟩ w w' res := by
  rcases runs_login h with hrefused | ⟨found, stored, t, hfound, hstored, hverify, ht, h⟩
  · exact .inl hrefused
  · obtain ⟨res, hr, hissued⟩ := runs_issueFor hc h
    exact .inr ⟨found, stored, res, hfound, hstored, hverify, hr, hissued.of_later rfl ht⟩

theorem login_succeeds_iff (hc : c.algorithm.isSymmetric = true) {email password : String}
    {r : Except AuthError TokenResponse}
    (h : Runs (MemoryStore.setting ids entropy) (c.login email password) w r w') :
    (∃ res, r = .ok res) ↔ w.store.Accepts email password := by
  rcases runs_login_of_symmetric hc h with
    ⟨hnot, rfl, -⟩ | ⟨found, stored, res, hfound, hstored, hverify, hr, -⟩
  · exact iff_of_false nofun hnot
  · exact iff_of_true ⟨res, hr⟩ ⟨found, stored, hfound, hstored, hverify⟩

theorem login_refused {email password : String} {r : Except AuthError TokenResponse}
    (h : Runs (MemoryStore.setting ids entropy) (c.login email password) w r w')
    (hnot : ¬ w.store.Accepts email password) :
    r = .error .invalidCredentials ∧ w'.store = w.store := by
  rcases runs_login h with ⟨-, hrefused⟩ | ⟨found, stored, t, hfound, hstored, hverify, -, -⟩
  · exact hrefused
  · exact absurd ⟨found, stored, hfound, hstored, hverify⟩ hnot

/-- A registration that succeeds has created a user, with the hash of the password, and then issued
tokens for it. -/
theorem runs_register {email password : String} {name : Option String} {res : TokenResponse}
    (h : Runs (MemoryStore.setting ids entropy) (c.register email password name) w (.ok res) w') :
    ∃ salt w₁, w.clock ≤ w₁.clock ∧ w.store.emails.contains (trim email) = false ∧
      w₁.store.users =
        (w.store.withUser ids (trim email) name (Password.hash salt password)).users ∧
      w₁.store.emails =
        (w.store.withUser ids (trim email) name (Password.hash salt password)).emails ∧
      IssuedFor c ⟨(w.store.nextUser ids).id, trim email, w₁.store.rolesOf (w.store.nextUser ids).id⟩
        w₁ w' res := by
  unfold Codec.register at h
  dsimp only at h
  split_ifs at h
  · cases (runs_done h).1
  · obtain ⟨_, w₁, h₁, h⟩ := runs_bind_ok h
    have hs₁ : w₁.store = w.store := by
      rw [(runs_done h₁).2]
      rfl
    obtain ⟨t₂, ht₂, h⟩ := runs_look (fun _ => rfl) h
    have hle₂ : w.clock ≤ t₂ := Int.le_trans h₁.clock_le ht₂
    split_ifs at h with htaken
    · cases (runs_done h).1
    · have hfree : w.store.emails.contains (trim email) = false := by
        rw [← hs₁]
        exact Bool.eq_false_iff.mpr htaken
      obtain ⟨t₃, ht₃, h⟩ := runs_draw h
      obtain ⟨t, ht, h⟩ := runs_call_of_reliable (MemoryStore.setting_reliable ids entropy) h
      have hle : w.clock ≤ t := Int.le_trans hle₂ (Int.le_trans ht₃ ht)
      have hcreate : MemoryStore.model ids t (.createUser (trim email) name
          (Password.hash (entropy w₁.drawn) password)) w₁.store =
            (.ok (w₁.store.nextUser ids), w₁.store.withUser ids (trim email) name
              (Password.hash (entropy w₁.drawn) password)) :=
        MemoryStore.createUser_of_free _ _ _ (hs₁ ▸ hfree)
      dsimp only [World.atTime] at h
      rw [hcreate, done_ok_bind] at h
      rw [← hs₁]
      split_ifs at h
      · obtain ⟨_, w₂, hgrant, h⟩ := runs_bind_ok h
        obtain ⟨husers, hemails⟩ := accounts_of_ask (by nofun) hgrant
        exact ⟨_, w₂, Int.le_trans hle hgrant.clock_le, hs₁ ▸ hfree, husers, hemails,
          issuedFor_of_issueFor h⟩
      · exact ⟨_, _, hle, hs₁ ▸ hfree, rfl, rfl, issuedFor_of_issueFor h⟩

/-- What a rotation issues, it issues after the record is used up. -/
theorem issuedFor_of_rotate {p : Principal} {record : RefreshRecord} {res : TokenResponse}
    (h : Runs (MemoryStore.setting ids entropy) (do return c.tokenResponse (← c.rotate p record)) w
      (.ok res) w') :
    IssuedFor c p { w with store := { w.store with
      refreshTokens := w.store.refreshTokens.erase record.userId } } w' res := by
  obtain ⟨pair, w₁, hpair, h⟩ := runs_bind_ok h
  rcases runs_rotate (symmetric_of_rotate hpair) hpair with ⟨hrefused, -⟩ |
    ⟨-, -, u, t, d, t', access, token, hu, hut, htt, ht', haccess, hrefresh, hok, hs₁⟩
  · cases hrefused
  · obtain rfl := Except.ok.inj hok
    obtain ⟨hres, hw⟩ := runs_done h
    obtain rfl := Except.ok.inj hres
    have ht : w.clock ≤ t := Int.le_trans hu hut
    have hend : t' ≤ w'.clock := Int.le_trans ht' h.clock_le
    have htend : t ≤ w'.clock := Int.le_trans htt hend
    refine ⟨⟨u, hu, Int.le_trans hut htend, haccess⟩, ⟨t, d, ht, htend, hrefresh⟩,
      t', Int.le_trans ht htt, hend, ?_⟩
    rw [hw, World.atTime_store, hs₁]
    rfl

/-- A refresh that succeeds has used up the record of the presented token, and issued tokens for the
subject of that token. -/
theorem runs_refresh {token : String} {res : TokenResponse}
    (h : Runs (MemoryStore.setting ids entropy) (c.refresh token) w (.ok res) w') :
    ∃ t claims record user w₁, w.clock ≤ t ∧ t ≤ w'.clock ∧ c.decodeRefresh t token = .ok claims ∧
      w.store.refreshTokens.get? claims.subject = some record ∧
      record.tokenHash = hashToken token ∧ w.store.findById claims.subject = some user ∧
      w.clock ≤ w₁.clock ∧ w₁.store = { w.store with
        refreshTokens := w.store.refreshTokens.erase record.userId } ∧
      IssuedFor c ⟨user.id, user.email, w.store.rolesOf user.id⟩ w₁ w' res := by
  obtain ⟨⟨claims, record⟩, w₁, h₁, h⟩ := runs_bind_ok h
  obtain ⟨hs₁, hr | ⟨_, _, t, ht, ht', hr, hdecode, hfound, hhash⟩⟩ := runs_checkRefresh h₁
  · cases hr
  · obtain ⟨rfl, rfl⟩ := Prod.mk.inj (Except.ok.inj hr)
    have hend : t ≤ w'.clock := Int.le_trans ht' h.clock_le
    obtain ⟨u, hu, h⟩ := runs_look (a := w₁.store.findById claims.subject) (fun _ => rfl) h
    split at h
    · rename_i user huser
      obtain ⟨p, w₂, h₂, h⟩ := runs_bind_ok h
      obtain ⟨hok, hs₂⟩ := runs_loadPrincipal h₂
      obtain rfl := Except.ok.inj hok
      have hissued := issuedFor_of_rotate h
      have hs : w₂.store = w.store := hs₂.trans hs₁
      have hstart : w.clock ≤ w₂.clock := Int.le_trans h₁.clock_le (Int.le_trans hu h₂.clock_le)
      rw [World.atTime_store, hs₁, hs] at hissued
      let w₃ : World MemoryStore := { w₂ with store := { w.store with
        refreshTokens := w.store.refreshTokens.erase record.userId } }
      exact ⟨t, claims, record, user, w₃, ht, hend, hdecode, hfound, hhash, hs₁ ▸ huser, hstart, rfl,
        hissued⟩
    · cases (runs_done h).1

end Codec

end Turnstile
