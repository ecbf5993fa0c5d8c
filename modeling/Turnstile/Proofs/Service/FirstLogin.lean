import Mathlib.Tactic.SplitIfs
import Turnstile.Proofs.Bcrypt
import Turnstile.Proofs.Service.FreshAccess
import Turnstile.Proofs.Service.Login
import Turnstile.Proofs.Service.Registration
import Turnstile.Proofs.Store.Memory

/-! Who has registered can log in with the same password, but not with the same email: it is stored
without blanks around it, and a login looks for it as it is written. -/

namespace Turnstile

open Program

variable {c : Codec} {ids : Nat → String} {entropy : Nat → Draw} {w w' : World MemoryStore}
  {user : User}
  {res : TokenResponse}

/-- A response with tokens for a user: both were good for the user at some instant of the run, and the
refresh token is the one on record. -/
structure TokensOf (c : Codec) (user : User) (w w' : World MemoryStore) (res : TokenResponse) :
    Prop where
  access : ∃ t claims, w.clock ≤ t ∧ t ≤ w'.clock ∧
    c.decodeAccess t res.accessToken = .ok claims ∧ claims.subject = user.id ∧
    claims.email = user.email
  refresh : ∃ t claims, w.clock ≤ t ∧ t ≤ w'.clock ∧
    c.decodeRefresh t res.refreshToken = .ok claims ∧ claims.subject = user.id ∧
    claims.email = user.email
  recorded : ∃ record, w'.store.refreshTokens.get? user.id = some record ∧
    record.tokenHash = hashToken res.refreshToken

namespace IssuedFor

variable {p : Principal}

theorem tokensOf (h : IssuedFor c p w w' res) (hc : c.Clamped) (hstart : 0 ≤ w.clock)
    (hlast : w'.clock ≤ lastInstant) (hid : p.subject = user.id) (hemail : p.email = user.email) :
    TokensOf c user w w' res := by
  obtain ⟨⟨u, hu, hu', haccess⟩, ⟨t, d, ht, ht', hrefresh⟩, ⟨v, -, -, hstored⟩⟩ := h
  refine ⟨⟨u, c.accessClaims u p, hu, hu', ?_, hid, hemail⟩,
    ⟨t, c.refreshClaims t d p, ht, ht', ?_, hid, hemail⟩, ?_⟩
  · have hvalid := Codec.accessClaims_validExpiry hc (Int.le_trans hstart hu)
      (Int.le_trans hu' hlast) p
    rw [Codec.decodeAccess_encodeAccess hvalid haccess]
    exact if_neg (Int.not_le.mpr (Nanos.seconds_lt_iff.mpr (Codec.lt_expiry_accessClaims hc u p)))
  · have hvalid := Codec.refreshClaims_validExpiry hc (Int.le_trans hstart ht)
      (Int.le_trans ht' hlast) d p
    rw [Codec.decodeRefresh_encodeRefresh hvalid hrefresh]
    exact if_neg (Int.not_le.mpr (Nanos.seconds_lt_iff.mpr (Codec.lt_expiry_refreshClaims hc t d p)))
  · rw [hstored, ← hid]
    exact ⟨c.recordOf v p.subject res.refreshToken, by simp, rfl⟩

/-- Tokens that were issued for someone are for nobody else. -/
theorem subject_eq (h : IssuedFor c p w w' res) (hc : c.Clamped) (hstart : 0 ≤ w.clock)
    (hlast : w'.clock ≤ lastInstant) (ht : TokensOf c user w w' res) : p.subject = user.id := by
  obtain ⟨u, hu, hu', haccess⟩ := h.access
  obtain ⟨t, claims, -, -, hdecode, hid, -⟩ := ht.access
  have hvalid := Codec.accessClaims_validExpiry hc (Int.le_trans hstart hu)
    (Int.le_trans hu' hlast) p
  rw [Codec.decodeAccess_encodeAccess hvalid haccess] at hdecode
  split_ifs at hdecode
  rw [← hid, ← Except.ok.inj hdecode]
  rfl

end IssuedFor

namespace FirstLogin

/-- Whoever has just registered is a new user, and gets tokens by logging in with the same password,
exactly if the email is written as it was stored: without the blanks that a registration takes off. So
the very text that was registered logs in exactly if it has no blanks around it. -/
theorem logs_in_iff_trimmed (hids : Function.Injective ids) {cfg : TokenConfig}
    (hsym : cfg.algorithm.isSymmetric = true) (hreach : w.store.Reachable ids) (hstart : 0 ≤ w.clock)
    {email password : String} {name : Option String}
    (h : Runs (MemoryStore.setting ids entropy) (Codec.register (.ofConfig cfg) email password name) w
      (.ok res) w') :
    ∃ id, w.store.findById id = none ∧ w'.store.findById id = some ⟨id, trim email, name⟩ ∧
      ∀ typed,
        (∃ r w'', Runs (MemoryStore.setting ids entropy) (Codec.login (.ofConfig cfg) typed password) w'
          r w'') ∧
        ∀ r w'', Runs (MemoryStore.setting ids entropy) (Codec.login (.ofConfig cfg) typed password) w'
            r w'' → w''.clock ≤ lastInstant →
          ((∃ res', r = .ok res' ∧
            TokensOf (.ofConfig cfg) ⟨id, trim email, name⟩ w' w'' res') ↔ typed = trim email) := by
  let c : Codec := .ofConfig cfg
  have hc : c.Clamped := Codec.ofConfig_clamped cfg
  obtain ⟨hi, hn⟩ := hreach.sound hids
  obtain ⟨salt, w₁, -, hfree, husers₁, hemails₁, hissued⟩ := Codec.runs_register h
  obtain ⟨husers, hemails⟩ := hissued.accounts
  rw [husers₁] at husers
  rw [hemails₁] at hemails
  obtain ⟨id, new, hfresh, huser, hhash, hnew⟩ : ∃ (id : String) (new : Credentials),
      w.store.users.get? id = none ∧ new.user = ⟨id, trim email, name⟩ ∧
      new.passwordHash = some (Password.hash salt password) ∧
      w'.store.users.get? id = some new := by
    refine ⟨(w.store.nextUser ids).id,
      ⟨⟨_, trim email, name⟩, some (Password.hash salt password)⟩, hn.fresh hids, rfl, rfl, ?_⟩
    rw [husers]
    simp [MemoryStore.withUser, MemoryStore.nextUser]
  have hi' : w'.store.Indexed := (hi.withUser hn hids name _ hfree).congr husers hemails
  have hlisted : w'.store.findByEmail (trim email) = some new := by
    obtain ⟨-, hemail⟩ := hi'.listed id new hnew
    rw [huser] at hemail
    unfold MemoryStore.findByEmail
    rw [hemail]
    exact hnew
  have hlater : 0 ≤ w'.clock := Int.le_trans hstart h.clock_le
  refine ⟨id, ?_, ?_, fun typed => ⟨?_, fun r w'' hlogin hlast => ?_⟩⟩
  · unfold MemoryStore.findById
    rw [hfresh]
    rfl
  · unfold MemoryStore.findById
    rw [hnew, Option.map_some, huser]
  · obtain ⟨r, w'', hrun⟩ := exists_run (MemoryStore.model ids) entropy (c.login typed password) w'
    exact ⟨r, w'', runs_of_run hrun⟩
  · constructor
    · rintro ⟨res', rfl, htokens⟩
      rcases Codec.runs_login_of_symmetric hsym hlogin with
        ⟨-, hrefused, -⟩ | ⟨found, stored, res₂, hfound, -, -, hok, hissued⟩
      · cases hrefused
      · obtain rfl := Except.ok.inj hok
        -- The tokens are for the user who was found, so that is the new one.
        have hid := hissued.subject_eq hc hlater hlast htokens
        obtain ⟨id', hid', hget⟩ := Option.bind_eq_some_iff.mp hfound
        have hsame : id' = id := (hi'.listed id' found hget).1.symm.trans hid
        obtain ⟨found', hget', htyped⟩ := hi'.leads typed id' hid'
        rw [hsame, hnew] at hget'
        rw [← htyped, ← Option.some.inj hget', huser]
    · rintro rfl
      rcases Codec.runs_login_of_symmetric hsym hlogin with
        ⟨hnot, -, -⟩ | ⟨found, stored, res₂, hfound, -, -, hok, hissued⟩
      · exact absurd ⟨new, _, hlisted, hhash, Password.verify_hash salt password⟩ hnot
      · obtain rfl : new = found := Option.some.inj (hlisted.symm.trans hfound)
        exact ⟨res₂, hok, hissued.tokensOf hc hlater hlast (congrArg User.id huser)
          (congrArg User.email huser)⟩

/-- The first user of a new store registers, however the email is set off. -/
private theorem exists_registered {email : String} (htrim : trim email = "ada@example.com") :
    ∃ res w', Runs (MemoryStore.setting serialId fun n => .replicate 16 n.toUInt8)
      (Codec.register (.ofConfig (.withSecret "secret")) email "correct horse" none) newWorld
      (.ok res) w' := by
  let c : Codec := .ofConfig (.withSecret "secret")
  let entropy : Nat → Draw := fun n => .replicate 16 n.toUInt8
  let p : Principal := ⟨serialId 0, "ada@example.com", .insert superadminRole .empty⟩
  obtain ⟨access, haccess⟩ : ∃ access, c.encodeAccess (c.accessClaims 0 p) = .ok access :=
    Codec.exists_sign rfl _
  obtain ⟨token, htoken⟩ : ∃ token, c.encodeRefresh (c.refreshClaims 0 (entropy 1) p) = .ok token :=
    Codec.exists_sign rfl _
  have hregister := Registration.run_register (c := c) serialId entropy newWorld none
    (show ¬ (trim email = "" ∨ '@' ∉ (trim email).toList) by rw [htrim]; decide)
    (show Password.validate "correct horse" = .ok () from rfl)
    (show newWorld.store.emails.contains (trim email) = false by rw [htrim]; rfl)
    (fun _ => rfl) rfl (show p = _ by rw [htrim]; rfl) haccess htoken
  exact ⟨_, _, runs_of_run hregister⟩

/-- A tidy email logs in. -/
theorem logs_in_iff_trimmed_first_user :
    ∃ res w' id, Runs (MemoryStore.setting serialId fun n => .replicate 16 n.toUInt8)
        (Codec.register (.ofConfig (.withSecret "secret")) "ada@example.com" "correct horse" none)
        newWorld (.ok res) w' ∧
      ∀ r w'', Runs (MemoryStore.setting serialId fun n => .replicate 16 n.toUInt8)
          (Codec.login (.ofConfig (.withSecret "secret")) "ada@example.com" "correct horse") w' r w'' →
        w''.clock ≤ lastInstant → ∃ res', r = .ok res' ∧
          TokensOf (.ofConfig (.withSecret "secret")) ⟨id, "ada@example.com", none⟩ w' w'' res' := by
  have htrim : trim "ada@example.com" = "ada@example.com" := by decide
  obtain ⟨res, w', hregister⟩ := exists_registered htrim
  have hsym : (TokenConfig.withSecret "secret").algorithm.isSymmetric = true := rfl
  obtain ⟨id, -, -, hlogin⟩ :=
    logs_in_iff_trimmed serialId_injective hsym (.define ⟨superadminRole, []⟩ .empty)
    (Int.le_refl 0) hregister
  rw [htrim] at hlogin
  exact ⟨res, w', id, hregister, fun r w'' hr hlast => ((hlogin _).2 r w'' hr hlast).mpr rfl⟩

/-- The claim that the very text that was registered logs in fails: with a blank before the email it is
registered, but not found. -/
theorem padded_email_refused :
    ∃ res w' r w'', Runs (MemoryStore.setting serialId fun n => .replicate 16 n.toUInt8)
        (Codec.register (.ofConfig (.withSecret "secret")) " ada@example.com" "correct horse" none)
        newWorld (.ok res) w' ∧
      Runs (MemoryStore.setting serialId fun n => .replicate 16 n.toUInt8)
        (Codec.login (.ofConfig (.withSecret "secret")) " ada@example.com" "correct horse") w' r w'' ∧
      r = .error .invalidCredentials := by
  let c : Codec := .ofConfig (.withSecret "secret")
  let entropy : Nat → Draw := fun n => .replicate 16 n.toUInt8
  have htrim : trim " ada@example.com" = "ada@example.com" := by decide
  obtain ⟨res, w', hregister⟩ := exists_registered htrim
  obtain ⟨salt, w₁, -, -, -, hemails₁, hissued⟩ := Codec.runs_register (c := c) hregister
  have hemails := hissued.accounts.2
  rw [hemails₁, htrim] at hemails
  have hnot : ¬ w'.store.Accepts " ada@example.com" "correct horse" := by
    rintro ⟨found, stored, hfound, -⟩
    obtain ⟨id, hid, -⟩ := Option.bind_eq_some_iff.mp hfound
    rw [hemails] at hid
    cases hid
  obtain ⟨r, w'', hrun⟩ := exists_run (MemoryStore.model serialId) entropy
    (c.login " ada@example.com" "correct horse") w'
  have hlogin := runs_of_run hrun
  exact ⟨res, w', r, w'', hregister, hlogin, (Codec.login_refused hlogin hnot).1⟩

end FirstLogin

end Turnstile
