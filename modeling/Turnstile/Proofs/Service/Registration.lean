import Turnstile.Proofs.Service.Tokens
import Turnstile.Proofs.Store.Memory
import Turnstile.Service.Accounts

/-! A registration, call by call. Up to the creation of the user it only looks; from there on it can
fail, but it cannot take back what it has done. -/

namespace Turnstile

open Program

namespace Registration

variable {α β : Type} {c : Codec} {ids : Nat → String} {entropy : Nat → Draw}
  {mayFail : Call → AuthError → Prop}
  {email : String} {p p' : Program α} {w w' : World MemoryStore} {x : Option Exchange}
  {xs : List Exchange} {r : Except AuthError α}

/-- The user that was created by a call, with the email. -/
def created? : Exchange → Option (String × CreatedUser)
  | ⟨.createUser email _ _, .ok user⟩ => some (email, user)
  | _ => none

theorem created?_of_method {y : Exchange} (h : y.call.method ≠ .createUser) : created? y = none := by
  obtain ⟨d, r⟩ := y
  cases d with
  | createUser => exact absurd rfl h
  | _ => rfl

theorem created?_eq_some {y : Exchange} {user : CreatedUser} :
    created? y = some (email, user) ↔
      ∃ name passwordHash, y = ⟨.createUser email name passwordHash, .ok user⟩ := by
  constructor
  · intro h
    obtain ⟨d, r⟩ := y
    cases d with
    | createUser account name passwordHash =>
      cases r with
      | ok u =>
        obtain ⟨rfl, rfl⟩ := Prod.mk.inj (Option.some.inj h)
        exact ⟨name, passwordHash, rfl⟩
      | error e => cases h
    | _ => cases h
  · rintro ⟨name, passwordHash, rfl⟩
    rfl

def Settled (p : Program α) : Prop :=
  p.CallsOnly fun d => d.method ≠ .createUser ∧ d.method ≠ .grantRole

def AwaitsGrant (id : String) (p : Program α) : Prop :=
  ∃ next, p = .call (.grantRole id superadminRole) next ∧ (∀ r, Settled (next r)) ∧
    ∀ e, next (.error e) = .done (.error e)

def Joins (user : CreatedUser) (p : Program α) : Prop :=
  if user.isFirst then AwaitsGrant user.id p else Settled p

/-- A program that is yet to create a user with an email, unless it fails before that. If tokens can
be signed, it does not fail by itself after that. -/
inductive Registering (c : Codec) (email : String) : Program α → Prop
  | failed (e : AuthError) : Registering c email (.done (.error e))
  | look {next : Except AuthError Bool → Program α} :
    (∀ r, Registering c email (next r)) → Registering c email (.call (.emailExists email) next)
  | salt {next : Draw → Program α} :
    (∀ d, Registering c email (next d)) → Registering c email (.draw next)
  | create {name : Option String} {passwordHash : String}
      {next : Except AuthError CreatedUser → Program α} :
    (∀ user, Joins user (next (.ok user))) →
    (c.algorithm.isSymmetric = true → ∀ user, (next (.ok user)).Fulfils) →
    (∀ e, next (.error e) = .done (.error e)) →
    Registering c email (.call (.createUser email name passwordHash) next)

theorem AwaitsGrant.bind {id : String} {f : α → Program β} (hp : AwaitsGrant id p)
    (hf : ∀ a, Settled (f a)) : AwaitsGrant id (p.bind f) := by
  obtain ⟨next, rfl, hnext, herr⟩ := hp
  exact ⟨_, rfl, fun r => (hnext r).bind hf, fun e => by rw [herr]; rfl⟩

theorem Joins.bind {user : CreatedUser} {f : α → Program β} (hp : Joins user p)
    (hf : ∀ a, Settled (f a)) : Joins user (p.bind f) := by
  unfold Joins at hp ⊢
  split_ifs at hp ⊢
  · exact hp.bind hf
  · exact CallsOnly.bind hp hf

theorem Registering.bind {f : α → Program β} (hp : Registering c email p)
    (hf : ∀ a, Settled (f a)) (hf' : ∀ a, (f a).Fulfils) : Registering c email (p.bind f) := by
  induction hp with
  | failed e => exact .failed e
  | look _ ih => exact .look ih
  | salt _ ih => exact .salt ih
  | create hjoins hfulfils herr =>
    refine .create (fun user => (hjoins user).bind hf) (fun hc user => ?_) fun e => by rw [herr]; rfl
    exact (hfulfils hc user).bind hf'

private theorem settled_createTokens (p : Principal) : Settled (c.createTokens p) := by
  have hnow {f : Nanos → Program String} (hf : ∀ t, Settled (f t)) : Settled (now >>= f) :=
    CallsOnly.bind (fun _ => trivial) hf
  have haccess : Settled (c.createAccess p) := hnow fun t => trivial
  have hrefresh : Settled (c.createRefresh p) := by
    refine hnow fun t => CallsOnly.bind (p := fresh) (fun _ => trivial) fun d => ?_
    refine CallsOnly.bind (p := .ofExcept _) trivial fun token => hnow fun t' => ?_
    exact CallsOnly.bind (p := ask _) ⟨⟨nofun, nofun⟩, fun r => trivial⟩ fun _ => trivial
  exact CallsOnly.bind haccess fun _ => CallsOnly.bind hrefresh fun _ => trivial

private theorem fulfils_createTokens (hc : c.algorithm.isSymmetric = true) (p : Principal) :
    (c.createTokens p).Fulfils := by
  have haccess : (c.createAccess p).Fulfils := by
    intro t
    obtain ⟨token, htoken⟩ : ∃ token, c.encodeAccess (c.accessClaims t p) = .ok token :=
      Codec.exists_sign hc _
    simp only [done_ok_bind, ofExcept_eq, htoken]
    trivial
  have hrefresh : (c.createRefresh p).Fulfils := by
    intro t d
    obtain ⟨token, htoken⟩ : ∃ token, c.encodeRefresh (c.refreshClaims t d p) = .ok token :=
      Codec.exists_sign hc _
    simp only [bind_eq, done_ok_bind, ofExcept_eq, htoken]
    exact fun t' a => trivial
  exact haccess.bind fun _ => hrefresh.bind fun _ => trivial

theorem register_registering (password : String) (name : Option String) :
    Registering c (trim email) (c.register email password name) := by
  let issue (id : String) : Program TokenResponse := do
    let p ← loadPrincipal id (trim email)
    return c.tokenResponse (← c.createTokens p)
  have hfulfils (hc : c.algorithm.isSymmetric = true) (id : String) : (issue id).Fulfils :=
    Fulfils.bind (fun roles => trivial) fun p => (fulfils_createTokens hc p).bind fun _ => trivial
  have hissue (id : String) : Settled (issue id) := by
    refine CallsOnly.bind (CallsOnly.bind ⟨⟨nofun, nofun⟩, fun r => trivial⟩ fun _ => trivial) ?_
    exact fun p => CallsOnly.bind (settled_createTokens p) fun _ => trivial
  unfold Codec.register
  dsimp only
  split_ifs
  · exact .failed _
  · simp only [bind_eq, ofExcept_eq]
    cases Password.validate password with
    | error e => exact .failed e
    | ok _ =>
      refine .look fun r => ?_
      cases r with
      | error e => exact .failed e
      | ok taken =>
        cases taken with
        | true => exact .failed _
        | false =>
          refine .salt fun salt => .create (fun user => ?_) (fun hc user => ?_) fun e => rfl
          · simp only [done_ok_bind]
            unfold Joins
            cases hfirst : user.isFirst with
            | true =>
              refine ⟨_, rfl, fun r => ?_, fun e => rfl⟩
              exact CallsOnly.bind (p := .done r) trivial fun _ => hissue _
            | false => exact hissue _
          · simp only [done_ok_bind]
            split_ifs
            · exact fun _ => hfulfils hc _
            · exact hfulfils hc _

/-- Stores with the same users, emails and roles. -/
structure SameAccounts (s s' : MemoryStore) : Prop where
  users : s'.users = s.users
  emails : s'.emails = s.emails
  firstUserCreated : s'.firstUserCreated = s.firstUserCreated
  userRoles : s'.userRoles = s.userRoles
  roles : s'.roles = s.roles

private theorem sameAccounts_model {s₀ : MemoryStore} (t : Nanos) (d : Call) (s : MemoryStore)
    (hd : d.method ≠ .createUser ∧ d.method ≠ .grantRole) (hs : SameAccounts s₀ s) :
    SameAccounts s₀ (MemoryStore.model ids t d s).2 := by
  have hf := MemoryStore.frame_model ids t d s
  exact ⟨(hf.users hd.1).trans hs.users, (hf.emails hd.1).trans hs.emails,
    (hf.firstUserCreated hd.1).trans hs.firstUserCreated,
    (hf.userRoles hd.2).trans hs.userRoles, hf.roles.trans hs.roles⟩

theorem Settled.step (hp : Settled p)
    (hs : Step (MemoryStore.faulty ids entropy mayFail) p w x p' w') :
    Settled p' ∧ SameAccounts w.store w'.store ∧ ∀ y ∈ x, y.call.method ≠ .createUser := by
  obtain ⟨hp', hx⟩ := CallsOnly.step hp hs
  refine ⟨hp', ?_, fun y hy => (hx y hy).1⟩
  exact CallsOnly.step_keeps hp sameAccounts_model hs ⟨rfl, rfl, rfl, rfl, rfl⟩

theorem Settled.answers (hp : Settled p) (hs : Step (MemoryStore.setting ids entropy) p w x p' w') :
    ∀ y ∈ x, ∃ a, y.answer = .ok a := by
  have hcalls := (CallsOnly.step hp hs).2
  rintro y hy
  cases hs with
  | call d next =>
    obtain rfl := Option.some.inj hy
    exact MemoryStore.exists_model_ok ids _ _ (hcalls _ rfl)
  | lost _ _ _ hl => exact hl.elim
  | _ => cases hy

theorem AwaitsGrant.step {id : String} (hp : AwaitsGrant id p)
    (hs : Step (MemoryStore.faulty ids entropy mayFail) p w x p' w') :
    (w.store.roles.contains superadminRole = true ∧
        x = some ⟨.grantRole id superadminRole, .ok ()⟩ ∧ Settled p' ∧
        w'.store = w.store.withRole id superadminRole) ∨
      ∃ e, x = some ⟨.grantRole id superadminRole, .error e⟩ ∧ p' = .done (.error e) ∧
        w'.store = w.store ∧ (w.store.roles.contains superadminRole = false ∨
          mayFail (.grantRole id superadminRole) e) := by
  obtain ⟨next, rfl, hnext, herr⟩ := hp
  cases hs with
  | call =>
    simp only [MemoryStore.model]
    cases hdefined : w.store.roles.contains superadminRole with
    | true =>
      rw [MemoryStore.grantRole_of_defined id hdefined]
      exact .inl ⟨rfl, rfl, hnext _, rfl⟩
    | false =>
      rw [MemoryStore.grantRole_of_undefined id hdefined]
      exact .inr ⟨_, rfl, herr _, rfl, .inl rfl⟩
  | lost _ _ _ hl => exact .inr ⟨_, rfl, herr _, rfl, .inr hl⟩

/-- A step before the creation changes nothing. The creation is refused if the email is taken, and
otherwise there is a new user. -/
theorem Registering.step (hp : Registering c email p)
    (hs : Step (MemoryStore.faulty ids entropy mayFail) p w x p' w') :
    (w'.store = w.store ∧ Registering c email p' ∧ ∀ y ∈ x, y.call.method ≠ .createUser) ∨
    (∃ name passwordHash e, x = some ⟨.createUser email name passwordHash, .error e⟩ ∧
      w'.store = w.store ∧ p' = .done (.error e) ∧
      ((w.store.emails.contains email = true ∧ e = .validation .emailTaken) ∨
        mayFail (.createUser email name passwordHash) e)) ∨
    ∃ name passwordHash, w.store.emails.contains email = false ∧
      x = some ⟨.createUser email name passwordHash, .ok (w.store.nextUser ids)⟩ ∧
      w'.store = w.store.withUser ids email name passwordHash ∧
      Joins (w.store.nextUser ids) p' ∧ (c.algorithm.isSymmetric = true → p'.Fulfils) := by
  cases hp with
  | failed e => cases hs
  | look hnext =>
    cases hs with
    | call => exact .inl ⟨rfl, hnext _, by simp [Call.method]⟩
    | lost => exact .inl ⟨rfl, hnext _, by simp [Call.method]⟩
  | salt hnext =>
    cases hs
    exact .inl ⟨rfl, hnext _, by simp⟩
  | @create name passwordHash next hjoins hfulfils herr =>
    cases hs with
    | call =>
      simp only [MemoryStore.model]
      cases htaken : w.store.emails.contains email with
      | true =>
        rw [MemoryStore.createUser_of_taken ids name passwordHash htaken]
        exact .inr (.inl ⟨name, passwordHash, _, rfl, rfl, herr _, .inl ⟨rfl, rfl⟩⟩)
      | false =>
        rw [MemoryStore.createUser_of_free ids name passwordHash htaken]
        exact .inr (.inr ⟨name, passwordHash, rfl, rfl, rfl, hjoins _, fun hc => hfulfils hc _⟩)
    | lost _ _ _ hl =>
      exact .inr (.inl ⟨name, passwordHash, _, rfl, rfl, herr _, .inr hl⟩)

theorem Settled.traced (hp : Settled p)
    (h : Traced (MemoryStore.faulty ids entropy mayFail) p w xs r w') :
    SameAccounts w.store w'.store ∧ ∀ y ∈ xs, created? y = none := by
  constructor
  · exact CallsOnly.keeps hp sameAccounts_model h.runs ⟨rfl, rfl, rfl, rfl, rfl⟩
  · exact fun y hy => created?_of_method (CallsOnly.traced hp h y hy).1

/-- What follows the creation leaves users and emails alone, and creates nobody else. The first user
is superadmin if it succeeds, and nobody else is given a role. -/
theorem Joins.traced {user : CreatedUser} (hp : Joins user p)
    (h : Traced (MemoryStore.faulty ids entropy mayFail) p w xs r w') :
    w'.store.emails = w.store.emails ∧ w'.store.firstUserCreated = w.store.firstUserCreated ∧
      (∀ y ∈ xs, created? y = none) ∧
      (user.isFirst = true → (∃ a, r = .ok a) → superadminRole ∈ w'.store.rolesOf user.id) ∧
      (user.isFirst = false → w'.store.userRoles = w.store.userRoles) := by
  unfold Joins at hp
  cases hfirst : user.isFirst with
  | false =>
    rw [hfirst, if_neg (by simp)] at hp
    obtain ⟨hsame, hnone⟩ := Settled.traced hp h
    exact ⟨hsame.emails, hsame.firstUserCreated, hnone, by simp, fun _ => hsame.userRoles⟩
  | true =>
    rw [hfirst, if_pos rfl] at hp
    obtain ⟨next, rfl, hnext, herr⟩ := hp
    obtain ⟨t, ys, -, ⟨rfl, hanswered⟩ | ⟨e, -, rfl, hlost⟩⟩ := traced_call h
    · cases hdefined : w.store.roles.contains superadminRole with
      | true =>
        simp only [MemoryStore.model, MemoryStore.grantRole_of_defined _ hdefined] at hanswered
        obtain ⟨hsame, hnone⟩ := Settled.traced (hnext _) hanswered
        refine ⟨hsame.emails, hsame.firstUserCreated, ?_, fun _ _ => ?_, by simp⟩
        · exact List.forall_mem_cons.mpr ⟨rfl, hnone⟩
        · have hgranted : superadminRole ∈ (w.store.withRole user.id superadminRole).rolesOf user.id :=
            MemoryStore.mem_rolesOf_withRole.mpr (.inl ⟨rfl, rfl⟩)
          unfold MemoryStore.rolesOf at hgranted ⊢
          rwa [hsame.userRoles]
      | false =>
        simp only [MemoryStore.model, MemoryStore.grantRole_of_undefined _ hdefined, herr] at hanswered
        obtain ⟨rfl, hr, hw⟩ := traced_done hanswered
        refine ⟨by rw [hw]; rfl, by rw [hw]; rfl, List.forall_mem_singleton.mpr rfl, ?_, by simp⟩
        rintro - ⟨a, ha⟩
        cases ha.symm.trans hr
    · rw [herr] at hlost
      obtain ⟨rfl, hr, hw⟩ := traced_done hlost
      refine ⟨by rw [hw]; rfl, by rw [hw]; rfl, List.forall_mem_singleton.mpr rfl, ?_, by simp⟩
      rintro - ⟨a, ha⟩
      cases ha.symm.trans hr

/-- What a store looks like after a user was created, if nothing else was done to its accounts. -/
structure Occupied (email : String) (user : CreatedUser) (s s' : MemoryStore) : Prop where
  free : s.emails.contains email = false
  isFirst : user.isFirst = true ↔ s.firstUserCreated = false
  listed : s'.emails.get? email = some user.id
  used : s'.firstUserCreated = true

/-- A registration fails before the creation and leaves no trace, or there is a new user. -/
theorem Registering.traced (hp : Registering c email p)
    (h : Traced (MemoryStore.faulty ids entropy mayFail) p w xs r w') :
    (w'.store = w.store ∧ (∃ e, r = .error e) ∧ ∀ y ∈ xs, created? y = none) ∨
    ∃ user, Occupied email user w.store w'.store ∧
      (∃ y ∈ xs, created? y = some (email, user)) ∧
      (∀ y ∈ xs, created? y = none ∨ created? y = some (email, user)) ∧
      (user.isFirst = true → (∃ a, r = .ok a) → superadminRole ∈ w'.store.rolesOf user.id) ∧
      (user.isFirst = false → w'.store.userRoles = w.store.userRoles) := by
  induction h with
  | done r w =>
    cases hp with
    | failed e => exact .inl ⟨rfl, ⟨e, rfl⟩, by simp⟩
  | wait _ _ ih => exact ih hp
  | @step p p' w w₁ w' x xs r hs hr ih =>
    have hcons {y : Exchange} {P : Exchange → Prop} (hy : P y) (hxs : ∀ z ∈ xs, P z) :
        ∀ z ∈ (some y).toList ++ xs, P z := List.forall_mem_cons.mpr ⟨hy, hxs⟩
    -- Only a step that looks leaves the rest to the induction: a refused creation is the end, and
    -- after a creation the rest is known from `Joins`.
    rcases hp.step hs with ⟨hsame, hp', hx⟩ | ⟨name, passwordHash, e, rfl, hsame, rfl, -⟩ |
      ⟨name, passwordHash, hfree, rfl, hstore, hjoins, -⟩
    · have hquiet : ∀ y ∈ x.toList, created? y = none := fun y hy =>
        created?_of_method (hx y (Option.mem_toList.mp hy))
      rw [← hsame]
      rcases ih hp' with ⟨hs', hr', hxs⟩ | ⟨user, ho, ⟨y, hy, hcreated⟩, hxs, hroles⟩
      · exact .inl ⟨hs', hr', List.forall_mem_append.mpr ⟨hquiet, hxs⟩⟩
      · refine .inr ⟨user, ho, ⟨y, List.mem_append_right _ hy, hcreated⟩, ?_, hroles⟩
        exact List.forall_mem_append.mpr ⟨fun y hy => .inl (hquiet y hy), hxs⟩
    · obtain ⟨rfl, rfl, hw⟩ := traced_done hr
      refine .inl ⟨?_, ⟨e, rfl⟩, hcons rfl (by simp)⟩
      rw [hw, World.atTime_store, hsame]
    · obtain ⟨hemails, hused, hnone, hgranted, hkept⟩ := hjoins.traced hr
      refine .inr ⟨w.store.nextUser ids, ⟨hfree, by simp [MemoryStore.nextUser], ?_, ?_⟩,
        ⟨_, List.mem_cons_self, rfl⟩, hcons (.inr rfl) fun y hy => .inl (hnone y hy), hgranted, ?_⟩
      · rw [hemails, hstore]
        simp [MemoryStore.withUser, MemoryStore.nextUser]
      · rw [hused, hstore]
        rfl
      · intro hfirst
        rw [hkept hfirst, hstore]
        rfl

theorem run_loadPrincipal (ids : Nat → String) (entropy : Nat → Draw) (w : World MemoryStore)
    (userId email : String)
    (f : Principal → Program α) :
    ((loadPrincipal userId email).bind f).run ((MemoryStore.model ids).host entropy) w =
      (f ⟨userId, email, w.store.rolesOf userId⟩).run ((MemoryStore.model ids).host entropy) w := by
  rw [← SortedSet.ofList_elems (w.store.rolesOf userId)]
  rfl

def screen (email password : String) : Program String := do
  if email = "" ∨ '@' ∉ email.toList then fail (.validation .email)
  ofExcept (Password.validate password)
  if ← ask (.emailExists email) then fail (.validation .emailTaken)
  return Password.hash (← fresh) password

def welcome (c : Codec) (email : String) (created : CreatedUser) : Program TokenResponse := do
  if created.isFirst then ask (.grantRole created.id superadminRole)
  let p ← loadPrincipal created.id email
  return c.tokenResponse (← c.createTokens p)

theorem register_eq (c : Codec) (email password : String) (name : Option String) :
    c.register email password name = (screen (trim email) password).bind fun passwordHash =>
      (ask (.createUser (trim email) name passwordHash)).bind (welcome c (trim email)) := by
  unfold Codec.register screen
  dsimp only
  split_ifs
  · rfl
  · cases Password.validate password with
    | error e => rfl
    | ok _ =>
      refine congrArg (Program.call (.emailExists (trim email))) (funext fun answer => ?_)
      cases answer with
      | error e => rfl
      | ok taken => cases taken <;> rfl

theorem run_screen (ids : Nat → String) (entropy : Nat → Draw) (w : World MemoryStore)
    {email password : String} (hemail : ¬ (email = "" ∨ '@' ∉ email.toList))
    (hpassword : Password.validate password = .ok ())
    (hfree : w.store.emails.contains email = false) :
    (screen email password).run ((MemoryStore.model ids).host entropy) w =
      (some (.ok (Password.hash (entropy w.drawn) password)), { w with drawn := w.drawn + 1 }) := by
  have hlook : MemoryStore.model ids w.clock (.emailExists email) w.store =
      (.ok false, w.store) := by
    rw [← hfree]
    rfl
  unfold screen
  simp only [hemail, if_false, hpassword, ofExcept_eq, bind_eq, pure_eq, done_ok_bind]
  rw [run_ask hlook]
  rfl

def promoted (created : CreatedUser) (s : MemoryStore) : MemoryStore :=
  if created.isFirst then s.withRole created.id superadminRole else s

theorem run_welcome (ids : Nat → String) (entropy : Nat → Draw) (w : World MemoryStore)
    {email access token : String} {created : CreatedUser}
    (hdefined : created.isFirst = true → w.store.roles.contains superadminRole = true)
    {s : MemoryStore} (hs : promoted created w.store = s) {p : Principal}
    (hp : p = ⟨created.id, email, s.rolesOf created.id⟩)
    (haccess : c.encodeAccess (c.accessClaims w.clock p) = .ok access)
    (htoken : c.encodeRefresh (c.refreshClaims w.clock (entropy w.drawn) p) = .ok token) :
    (welcome c email created).run ((MemoryStore.model ids).host entropy) w =
      (some (.ok (c.tokenResponse ⟨access, token⟩)), { w with
        store := { s with refreshTokens :=
          s.refreshTokens.insert p.subject (c.recordOf w.clock p.subject token) }
        drawn := w.drawn + 1 }) := by
  have hissue : (c.createTokens p).run ((MemoryStore.model ids).host entropy)
      { w with store := s } = (some (.ok ⟨access, token⟩), _) :=
    Codec.run_createTokens haccess htoken
  unfold promoted at hs
  unfold welcome
  split_ifs at hs ⊢ with hfirst
  · have hgrant : MemoryStore.model ids w.clock (.grantRole created.id superadminRole) w.store =
        (.ok (), s) := by
      rw [← hs]
      exact MemoryStore.grantRole_of_defined _ (hdefined hfirst)
    rw [bind_eq, run_ask hgrant, bind_eq, run_loadPrincipal, ← hp, bind_eq, run_bind hissue]
    rfl
  · subst hs
    rw [bind_eq, run_loadPrincipal, ← hp, bind_eq, run_bind hissue]
    rfl

/-- A registration of an email that is free, with the role defined that the first user needs. -/
theorem run_register (ids : Nat → String) (entropy : Nat → Draw) (w : World MemoryStore)
    {password access token : String} (name : Option String)
    (hemail : ¬ (trim email = "" ∨ '@' ∉ (trim email).toList))
    (hpassword : Password.validate password = .ok ())
    (hfree : w.store.emails.contains (trim email) = false)
    (hdefined : w.store.firstUserCreated = false → w.store.roles.contains superadminRole = true)
    {s : MemoryStore} (hs : promoted (w.store.nextUser ids)
      (w.store.withUser ids (trim email) name (Password.hash (entropy w.drawn) password)) = s)
    {p : Principal}
    (hp : p = ⟨(w.store.nextUser ids).id, trim email, s.rolesOf (w.store.nextUser ids).id⟩)
    (haccess : c.encodeAccess (c.accessClaims w.clock p) = .ok access)
    (htoken : c.encodeRefresh (c.refreshClaims w.clock (entropy (w.drawn + 1)) p) = .ok token) :
    (c.register email password name).run ((MemoryStore.model ids).host entropy) w =
      (some (.ok (c.tokenResponse ⟨access, token⟩)), { w with
        store := { s with refreshTokens :=
          s.refreshTokens.insert p.subject (c.recordOf w.clock p.subject token) }
        drawn := w.drawn + 2 }) := by
  have hscreen := run_screen ids entropy w hemail hpassword hfree
  have hcreate : MemoryStore.model ids w.clock (.createUser (trim email) name
      (Password.hash (entropy w.drawn) password)) w.store = (.ok (w.store.nextUser ids),
        w.store.withUser ids (trim email) name (Password.hash (entropy w.drawn) password)) :=
    MemoryStore.createUser_of_free _ _ _ hfree
  have hfirst (h : (w.store.nextUser ids).isFirst = true) : w.store.firstUserCreated = false := by
    simpa [MemoryStore.nextUser] using h
  let w₁ : World MemoryStore := { w with
    store := w.store.withUser ids (trim email) name (Password.hash (entropy w.drawn) password)
    drawn := w.drawn + 1 }
  rw [register_eq, run_bind hscreen]
  refine (run_ask (w := { w with drawn := w.drawn + 1 }) hcreate).trans ?_
  exact run_welcome ids entropy w₁ (fun h => hdefined (hfirst h)) hs hp haccess htoken

/-- The first registration fails where the superadmin role is not defined, but the user is there. -/
theorem run_register_undefined (ids : Nat → String) (entropy : Nat → Draw) (w : World MemoryStore)
    {password : String} (name : Option String)
    (hemail : ¬ (trim email = "" ∨ '@' ∉ (trim email).toList))
    (hpassword : Password.validate password = .ok ())
    (hfree : w.store.emails.contains (trim email) = false)
    (hfirst : w.store.firstUserCreated = false)
    (hundefined : w.store.roles.contains superadminRole = false) :
    (c.register email password name).run ((MemoryStore.model ids).host entropy) w =
      (some (.error (.validation (.unknownRole superadminRole))), { w with
        store := w.store.withUser ids (trim email) name
          (Password.hash (entropy w.drawn) password)
        drawn := w.drawn + 1 }) := by
  have hcreate : MemoryStore.model ids w.clock (.createUser (trim email) name
      (Password.hash (entropy w.drawn) password)) w.store = (.ok (w.store.nextUser ids),
        w.store.withUser ids (trim email) name (Password.hash (entropy w.drawn) password)) :=
    MemoryStore.createUser_of_free _ _ _ hfree
  have hisFirst : (w.store.nextUser ids).isFirst = true := by simp [MemoryStore.nextUser, hfirst]
  rw [register_eq, run_bind (run_screen ids entropy w hemail hpassword hfree)]
  refine (run_ask (w := { w with drawn := w.drawn + 1 }) hcreate).trans ?_
  unfold welcome
  rw [if_pos hisFirst, bind_eq]
  exact run_ask_error (MemoryStore.grantRole_of_undefined _ hundefined)

def NextIsSuperadmin (c : Codec) (ids : Nat → String) (entropy : Nat → Draw) (s : MemoryStore) : Prop :=
  ∀ mayFail email password name w xs res w', w.store = s →
    Traced (MemoryStore.faulty ids entropy mayFail) (c.register email password name) w xs (.ok res) w' →
    ∃ id, w'.store.emails.get? (trim email) = some id ∧ superadminRole ∈ w'.store.rolesOf id

/-- No registration gives anyone a role any more. -/
def NobodyPromoted (c : Codec) (ids : Nat → String) (entropy : Nat → Draw) (s : MemoryStore) : Prop :=
  ∀ mayFail email password name w xs r w', w.store = s →
    Traced (MemoryStore.faulty ids entropy mayFail) (c.register email password name) w xs r w' →
    w'.store.userRoles = s.userRoles

theorem nextIsSuperadmin_of_unused {s : MemoryStore} (h : s.firstUserCreated = false) :
    NextIsSuperadmin c ids entropy s := by
  rintro mayFail email password name w xs res w' rfl hr
  rcases (register_registering password name).traced hr with ⟨-, ⟨e, he⟩, -⟩ |
    ⟨user, ho, -, -, hgranted, -⟩
  · cases he
  · exact ⟨user.id, ho.listed, hgranted (ho.isFirst.mpr h) ⟨res, rfl⟩⟩

theorem nobodyPromoted_of_used {s : MemoryStore} (h : s.firstUserCreated = true) :
    NobodyPromoted c ids entropy s := by
  rintro mayFail email password name w xs r w' rfl hr
  rcases (register_registering password name).traced hr with ⟨hs, -, -⟩ |
    ⟨user, ho, -, -, -, hkept⟩
  · rw [hs]
  · refine hkept (Bool.eq_false_iff.mpr fun htrue => ?_)
    cases h.symm.trans (ho.isFirst.mp htrue)

/-- A registration that failed has left users, emails and the status of the first user as they were,
exactly if it did not create its user. Then it has changed nothing at all. Otherwise the email is
taken by the user who was created, and nobody will be made superadmin by registering. -/
theorem unchanged_iff_nobody_created {password : String} {name : Option String} {e : AuthError}
    (h : Traced (MemoryStore.faulty ids entropy mayFail) (c.register email password name) w xs (.error e)
      w') :
    ((w'.store.users = w.store.users ∧ w'.store.emails = w.store.emails ∧
        w'.store.firstUserCreated = w.store.firstUserCreated) ↔ ∀ y ∈ xs, created? y = none) ∧
    ((∀ y ∈ xs, created? y = none) → w'.store = w.store ∧
      (w.store.firstUserCreated = false → NextIsSuperadmin c ids entropy w'.store)) ∧
    ∀ y ∈ xs, ∀ account user, created? y = some (account, user) → account = trim email ∧
      w'.store.emails.get? (trim email) = some user.id ∧ NobodyPromoted c ids entropy w'.store := by
  rcases (register_registering password name).traced h with ⟨hs, -, hnone⟩ |
    ⟨user, ho, ⟨y, hy, hcreated⟩, hxs, -, -⟩
  · refine ⟨iff_of_true ⟨by rw [hs], by rw [hs], by rw [hs]⟩ hnone,
      fun _ => ⟨hs, fun hunused => ?_⟩, ?_⟩
    · rw [hs]
      exact nextIsSuperadmin_of_unused hunused
    · intro y hy account user hcreated
      cases (hnone y hy).symm.trans hcreated
  · have hsome : ¬ ∀ y ∈ xs, created? y = none := by
      intro hnone
      cases (hnone y hy).symm.trans hcreated
    have hchanged : w'.store.emails ≠ w.store.emails := by
      intro heq
      have hlisted := ho.listed
      rw [heq, (Table.contains_eq_false _ _).mp ho.free] at hlisted
      cases hlisted
    refine ⟨iff_of_false (fun hsame => hchanged hsame.2.1) hsome, fun hnone => absurd hnone hsome, ?_⟩
    intro z hz account user' hz'
    rcases hxs z hz with hnone | hsame
    · cases hnone.symm.trans hz'
    · obtain ⟨rfl, rfl⟩ := Prod.mk.inj (Option.some.inj (hsame.symm.trans hz'))
      exact ⟨rfl, ho.listed, nobodyPromoted_of_used ho.used⟩

private theorem register_undefined_role (ids : Nat → String) (entropy : Nat → Draw) :
    (Codec.register (.ofConfig (.withSecret "secret")) "ada@example.com" "correct horse" none).run
      ((MemoryStore.model ids).host entropy) ⟨{}, 0, 0⟩ =
        (some (.error (.validation (.unknownRole superadminRole))),
          ⟨MemoryStore.withUser ids "ada@example.com" none
            (Password.hash (entropy 0) "correct horse") {}, 0, 1⟩) := by
  have htrim : trim "ada@example.com" = "ada@example.com" := by decide
  have hemail : ¬ (trim "ada@example.com" = "" ∨ '@' ∉ (trim "ada@example.com").toList) := by
    rw [htrim]
    decide
  have hpassword : Password.validate "correct horse" = .ok () := rfl
  have h := run_register_undefined (c := .ofConfig (.withSecret "secret")) ids entropy ⟨{}, 0, 0⟩ none
    hemail hpassword rfl rfl rfl
  rwa [htrim] at h

/-- The first registration creates its user and fails where the superadmin role is not defined. -/
theorem unchanged_iff_nobody_created_undefined_role :
    ∃ w' xs e, Traced (MemoryStore.faulty serialId (fun n => .replicate 16 n.toUInt8) fun _ _ => False)
        (Codec.register (.ofConfig (.withSecret "secret")) "ada@example.com" "correct horse" none)
        ⟨{}, 0, 0⟩ xs (.error e) w' ∧
      (∃ y ∈ xs, created? y ≠ none) ∧
      NobodyPromoted (.ofConfig (.withSecret "secret")) serialId (fun n => .replicate 16 n.toUInt8)
        w'.store := by
  obtain ⟨xs, hr⟩ := traced_of_run (fun _ _ => False)
    (register_undefined_role serialId fun n => .replicate 16 n.toUInt8)
  obtain ⟨hiff, -, hcreated⟩ := unchanged_iff_nobody_created hr
  obtain ⟨y, hy, hne⟩ : ∃ y ∈ xs, created? y ≠ none := by
    by_contra hnone
    simp only [not_exists, not_and, not_not] at hnone
    have husers := (hiff.mpr hnone).1
    exact MemoryStore.size_withUser_ne _ _ _ _ _ (congrArg Table.size husers)
  obtain ⟨⟨account, user⟩, hsome⟩ := Option.ne_none_iff_exists'.mp hne
  exact ⟨_, xs, _, hr, ⟨y, hy, hne⟩, (hcreated y hy account user hsome).2.2⟩

/-- The claim that a failed registration leaves no trace fails: the superadmin role is defined only
after the first user was refused, whose email is taken, and the next one to register is no
superadmin. -/
theorem refused_first_user_stays :
    ∃ w₁ w₂ res,
      (Codec.register (.ofConfig (.withSecret "secret")) "ada@example.com" "correct horse" none).run
        ((MemoryStore.model serialId).host fun n => .replicate 16 n.toUInt8) ⟨{}, 0, 0⟩ =
          (some (.error (.validation (.unknownRole superadminRole))), w₁) ∧
      w₁.store.emails.contains "ada@example.com" = true ∧
      (Codec.register (.ofConfig (.withSecret "secret")) "grace@example.com" "correct horse" none).run
        ((MemoryStore.model serialId).host fun n => .replicate 16 n.toUInt8)
        { w₁ with store := w₁.store.insertRole ⟨superadminRole, []⟩ } = (some (.ok res), w₂) ∧
      ∀ id, superadminRole ∉ w₂.store.rolesOf id := by
  let c : Codec := .ofConfig (.withSecret "secret")
  let entropy : Nat → Draw := fun n => .replicate 16 n.toUInt8
  let ids : Nat → String := serialId
  let w : World MemoryStore := ⟨MemoryStore.insertRole ⟨superadminRole, []⟩
    (MemoryStore.withUser serialId
    "ada@example.com" none (Password.hash (entropy 0) "correct horse") {}), 0, 1⟩
  let grace : Principal := ⟨(w.store.nextUser serialId).id, "grace@example.com", .empty⟩
  obtain ⟨access, haccess⟩ : ∃ access, c.encodeAccess (c.accessClaims 0 grace) = .ok access :=
    Codec.exists_sign rfl _
  obtain ⟨token, htoken⟩ : ∃ token,
      c.encodeRefresh (c.refreshClaims 0 (entropy 2) grace) = .ok token := Codec.exists_sign rfl _
  have htrim : trim "grace@example.com" = "grace@example.com" := by decide
  have hemail : ¬ (trim "grace@example.com" = "" ∨ '@' ∉ (trim "grace@example.com").toList) := by
    rw [htrim]
    decide
  have hpassword : Password.validate "correct horse" = .ok () := rfl
  have hfree : w.store.emails.contains (trim "grace@example.com") = false := by
    rw [htrim]
    rfl
  have hsecond := run_register (c := c) ids entropy w none hemail hpassword hfree nofun rfl
    (show grace = _ by rw [htrim]; rfl) haccess htoken
  refine ⟨_, _, _, register_undefined_role ids entropy, rfl, hsecond, fun id hid => ?_⟩
  cases hid

end Registration

end Turnstile
