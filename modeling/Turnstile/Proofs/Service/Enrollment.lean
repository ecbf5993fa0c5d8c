import Turnstile.Proofs.Pool
import Turnstile.Proofs.Service.Registration

/-! Registrations made at once, in every order of their calls: an email is given to one user only, and
the first user who was created ends up as the only superadmin. -/

namespace Turnstile.Enrollment

open Program Registration

def Attempts (email : String) (y : Exchange) : Prop :=
  ∃ name passwordHash, y.call = .createUser email name passwordHash

/-- The first attempt on an email succeeds, and the others find it taken. The user is the first one
if nobody was created before. -/
def Answered (y : Exchange) (earlier : List Exchange) : Prop :=
  ∀ email name passwordHash answer, y = ⟨.createUser email name passwordHash, answer⟩ →
    ((∃ z ∈ earlier, Attempts email z) → answer = .error (.validation .emailTaken)) ∧
    ((∀ z ∈ earlier, ¬ Attempts email z) → ∃ user, answer = .ok user ∧
      (user.isFirst = true ↔ ∀ z ∈ earlier, created? z = none))

/-- A store whose users were created by the calls made so far, the latest first. -/
structure Recorded (ids : Nat → String) (log : List Exchange) (s : MemoryStore) : Prop where
  indexed : s.Indexed
  numbered : s.Numbered ids
  taken : ∀ email, s.emails.contains email = true ↔ ∃ y ∈ log, Attempts email y
  unused : s.firstUserCreated = false ↔ ∀ y ∈ log, created? y = none
  listed : ∀ y ∈ log, ∀ email user, created? y = some (email, user) →
    s.emails.get? email = some user.id
  answered : ∀ y earlier, y :: earlier <:+ log → Answered y earlier

variable {ids : Nat → String} {log : List Exchange} {s : MemoryStore}

private theorem answered_cons {y : Exchange} (hy : Answered y log)
    (h : ∀ z earlier, z :: earlier <:+ log → Answered z earlier) :
    ∀ z earlier, z :: earlier <:+ y :: log → Answered z earlier := by
  intro z earlier hz
  rcases List.suffix_cons_iff.mp hz with heq | hz
  · obtain ⟨rfl, rfl⟩ := List.cons.inj heq
    exact hy
  · exact h z earlier hz

theorem Recorded.empty (husers : s.users = {}) (hemails : s.emails = {})
    (hunused : s.firstUserCreated = false) : Recorded ids [] s := by
  have hnobody (id : String) : s.users.get? id = none := by
    rw [husers]
    rfl
  have hnone (email : String) : s.emails.get? email = none := by
    rw [hemails]
    rfl
  constructor
  case indexed =>
    constructor
    · intro email id hget
      cases (hnone email).symm.trans hget
    · intro id found hget
      cases (hnobody id).symm.trans hget
  case numbered =>
    intro id found hget
    cases (hnobody id).symm.trans hget
  case taken =>
    intro email
    simp [Table.contains, hnone]
  case unused => simp [hunused]
  case listed => simp
  case answered =>
    intro y earlier hy
    cases List.suffix_nil.mp hy

private theorem Recorded.other (h : Recorded ids log s) {s' : MemoryStore} {y : Exchange}
    (hy : y.call.method ≠ .createUser) (husers : s'.users = s.users)
    (hemails : s'.emails = s.emails) (hunused : s'.firstUserCreated = s.firstUserCreated) :
    Recorded ids (y :: log) s' := by
  have hnone : created? y = none := created?_of_method hy
  have hattempts (email : String) : ¬ Attempts email y := by
    rintro ⟨name, passwordHash, hcall⟩
    exact hy (by rw [hcall]; rfl)
  constructor
  case indexed => exact h.indexed.congr husers hemails
  case numbered => exact h.numbered.congr husers hemails
  case taken =>
    intro email
    rw [hemails, h.taken]
    simp [hattempts]
  case unused =>
    rw [hunused, h.unused]
    simp [hnone]
  case listed =>
    rw [hemails]
    refine List.forall_mem_cons.mpr ⟨fun email user hc => ?_, h.listed⟩
    cases hnone.symm.trans hc
  case answered =>
    refine answered_cons ?_ h.answered
    rintro email name passwordHash answer rfl
    exact absurd rfl hy

/-- An attempt on an email that is taken. -/
private theorem Recorded.refused (h : Recorded ids log s) {email : String}
    (htaken : s.emails.contains email = true) (name : Option String) (passwordHash : String) :
    Recorded ids
      (⟨.createUser email name passwordHash, .error (.validation .emailTaken)⟩ :: log) s := by
  constructor
  case indexed => exact h.indexed
  case numbered => exact h.numbered
  case taken =>
    intro other
    rw [h.taken]
    constructor
    · rintro ⟨y, hy, ha⟩
      exact ⟨y, List.mem_cons_of_mem _ hy, ha⟩
    · rintro ⟨y, hy, ha⟩
      rcases List.mem_cons.mp hy with rfl | hy
      · obtain ⟨_, _, hcall⟩ := ha
        obtain ⟨rfl, -, -⟩ := Call.createUser.inj hcall
        exact (h.taken _).mp htaken
      · exact ⟨y, hy, ha⟩
  case unused =>
    rw [h.unused]
    constructor
    · exact fun hnone => List.forall_mem_cons.mpr ⟨rfl, hnone⟩
    · exact fun hnone => (List.forall_mem_cons.mp hnone).2
  case listed => exact List.forall_mem_cons.mpr ⟨nofun, h.listed⟩
  case answered =>
    refine answered_cons ?_ h.answered
    intro email' name' passwordHash' answer heq
    cases heq
    constructor
    · exact fun _ => rfl
    · exact fun hnone => absurd ((h.taken email).mp htaken) (by simpa using hnone)

/-- An attempt on an email that is free. -/
private theorem Recorded.created (h : Recorded ids log s) (hids : Function.Injective ids)
    {email : String} (hfree : s.emails.contains email = false) (name : Option String)
    (passwordHash : String) :
    Recorded ids (⟨.createUser email name passwordHash, .ok (s.nextUser ids)⟩ :: log)
      (s.withUser ids email name passwordHash) := by
  have hnobody : ∀ y ∈ log, ¬ Attempts email y := by
    intro y hy ha
    rw [(h.taken email).mpr ⟨y, hy, ha⟩] at hfree
    cases hfree
  constructor
  case indexed => exact h.indexed.withUser h.numbered hids name passwordHash hfree
  case numbered => exact h.numbered.withUser name passwordHash hfree
  case taken =>
    intro other
    simp only [MemoryStore.withUser, Table.contains_insert, h.taken]
    constructor
    · rintro (rfl | ⟨y, hy, ha⟩)
      · exact ⟨_, List.mem_cons_self, name, passwordHash, rfl⟩
      · exact ⟨y, List.mem_cons_of_mem _ hy, ha⟩
    · rintro ⟨y, hy, ha⟩
      rcases List.mem_cons.mp hy with rfl | hy
      · obtain ⟨_, _, hcall⟩ := ha
        exact .inl (Call.createUser.inj hcall).1.symm
      · exact .inr ⟨y, hy, ha⟩
  case unused =>
    refine iff_of_false nofun fun hnone => ?_
    cases hnone _ List.mem_cons_self
  case listed =>
    refine List.forall_mem_cons.mpr ⟨fun other user hc => ?_, fun y hy other user hc => ?_⟩
    · obtain ⟨rfl, rfl⟩ := Prod.mk.inj (Option.some.inj hc)
      simp [MemoryStore.withUser, MemoryStore.nextUser]
    · have hlisted := h.listed y hy other user hc
      have hne : other ≠ email := by
        rintro rfl
        rw [(Table.contains_eq_false _ _).mp hfree] at hlisted
        cases hlisted
      simpa [MemoryStore.withUser, hne] using hlisted
  case answered =>
    refine answered_cons ?_ h.answered
    intro email' name' passwordHash' answer heq
    cases heq
    constructor
    · rintro ⟨y, hy, ha⟩
      exact absurd ha (hnobody y hy)
    · intro _
      refine ⟨_, rfl, ?_⟩
      simp [MemoryStore.nextUser, h.unused]

theorem Recorded.call (h : Recorded ids log s) (hids : Function.Injective ids) (t : Nanos) (d : Call) :
    Recorded ids (⟨d, (MemoryStore.model ids t d s).1⟩ :: log) (MemoryStore.model ids t d s).2 := by
  by_cases hd : d.method = .createUser
  · cases d with
    | createUser email name passwordHash =>
      simp only [MemoryStore.model]
      cases htaken : s.emails.contains email with
      | true =>
        rw [MemoryStore.createUser_of_taken ids name passwordHash htaken]
        exact h.refused htaken name passwordHash
      | false =>
        rw [MemoryStore.createUser_of_free ids name passwordHash htaken]
        exact h.created hids htaken name passwordHash
    | _ => cases hd
  · have hf := MemoryStore.frame_model ids t d s
    exact h.other hd (hf.users hd) (hf.emails hd) (hf.firstUserCreated hd)

private theorem Recorded.none_before (h : Recorded ids log s) {y : Exchange} {earlier : List Exchange}
    (hs : y :: earlier <:+ log) {email id : String} (hc : created? y = some (email, ⟨id, true⟩)) :
    ∀ z ∈ earlier, created? z = none := by
  obtain ⟨name, passwordHash, rfl⟩ := created?_eq_some.mp hc
  obtain ⟨hrefused, hcreated⟩ := h.answered _ _ hs email name passwordHash _ rfl
  have hnobody : ∀ z ∈ earlier, ¬ Attempts email z := fun z hz ha => by cases hrefused ⟨z, hz, ha⟩
  obtain ⟨user, huser, hfirst⟩ := hcreated hnobody
  obtain rfl := Except.ok.inj huser
  exact hfirst.mp rfl

theorem Recorded.step {α : Type} {ids : Nat → String} {entropy : Nat → Draw} {p p' : Program α}
    {w w' : World MemoryStore} {x : Option Exchange} (h : Recorded ids log w.store)
    (hids : Function.Injective ids)
    (hs : Step (MemoryStore.setting ids entropy) p w x p' w') : Recorded ids
    (x.toList ++ log) w'.store := by
  cases hs with
  | clock next => exact h
  | draw next => exact h
  | call d next => exact h.call hids w.clock d
  | lost d next _ hl => exact hl.elim

/-- Only one user is told to be the first. -/
theorem Recorded.first_unique (h : Recorded ids log s) {y z : Exchange} (hy : y ∈ log) (hz : z ∈ log)
    {email email' id id' : String} (hyc : created? y = some (email, ⟨id, true⟩))
    (hzc : created? z = some (email', ⟨id', true⟩)) : id = id' := by
  obtain ⟨later, earlier, rfl⟩ := List.append_of_mem hy
  rcases List.mem_append.mp hz with hz | hz
  · obtain ⟨latest, between, rfl⟩ := List.append_of_mem hz
    have hsuffix : z :: (between ++ y :: earlier) <:+ latest ++ z :: between ++ y :: earlier :=
      ⟨latest, by simp⟩
    have hnone : created? y = none := h.none_before hsuffix hzc y (by simp)
    cases hnone.symm.trans hyc
  · rcases List.mem_cons.mp hz with rfl | hz
    · cases hyc.symm.trans hzc
      rfl
    · cases (h.none_before ⟨later, rfl⟩ hyc z hz).symm.trans hzc

/-- Recording does not look at the other parts of a store. -/
theorem Recorded.congr (h : Recorded ids log s) {s' : MemoryStore} (hs : SameAccounts s s') :
    Recorded ids log s' where
  indexed := h.indexed.congr hs.users hs.emails
  numbered := h.numbered.congr hs.users hs.emails
  taken := by rw [hs.emails]; exact h.taken
  unused := by rw [hs.firstUserCreated]; exact h.unused
  listed := by rw [hs.emails]; exact h.listed
  answered := h.answered

variable {ι : Type} [DecidableEq ι] {c : Codec} {entropy : Nat → Draw}
  {requests : ι → RegisterRequest} {P : Pool ι MemoryStore Unit} {i : ι} {x : Option Exchange}
  {p : Program Unit} {w : World MemoryStore}

def registration (c : Codec) (request : RegisterRequest) : Program Unit := do
  let _ ← c.register request.email request.password request.name

private theorem registration_registering (request : RegisterRequest) :
    Registering c (trim request.email) (registration c request) := by
  have hregister : Registering c (trim request.email)
      (c.register request.email request.password request.name) := register_registering _ _
  exact hregister.bind (fun _ => trivial) fun _ => trivial

/-- A store that has no users, and in which the superadmin role is defined. -/
structure Vacant (s : MemoryStore) : Prop where
  users : s.users = {}
  emails : s.emails = {}
  unused : s.firstUserCreated = false
  userRoles : s.userRoles = {}
  defined : s.roles.contains superadminRole = true

/-- The pools that come about when registrations start on such a store. The rest of the store may
change in any way. -/
abbrev Reaches (c : Codec) (ids : Nat → String) (entropy : Nat → Draw)
    (requests : ι → RegisterRequest) : Pool ι MemoryStore Unit → Prop :=
  Pool.Reaches (MemoryStore.setting ids entropy) SameAccounts (fun w => Vacant w.store)
    fun i => registration c (requests i)

def First (log : List (Event ι MemoryStore)) (id : String) : Prop :=
  ∃ x ∈ log, ∃ email, created? x.exchange = some (email, ⟨id, true⟩)

/-- How far a registration has come: it has done nothing yet, or it is about to make the first user
superadmin, or the roles are settled. -/
def Stage (c : Codec) (email : String) (log : List (Event ι MemoryStore)) (i : ι)
    (p : Program Unit) : Prop :=
  (Registering c email p ∧ ∀ x ∈ log, x.thread = i → x.after = x.before ∧ created? x.exchange = none) ∨
    (∃ id, AwaitsGrant id p ∧ First log id) ∨ Settled p

/-- What holds of all registrations at any moment. -/
structure Orderly (c : Codec) (ids : Nat → String) (requests : ι → RegisterRequest)
    (P : Pool ι MemoryStore Unit) : Prop where
  recorded : Recorded ids (P.log.map Event.exchange) P.world.store
  defined : P.world.store.roles.contains superadminRole = true
  stages : ∀ i, Stage c (trim (requests i).email) P.log i (P.left i)
  asked : ∀ x ∈ P.log, ∀ email, Attempts email x.exchange → email = trim (requests x.thread).email
  refused : ∀ x ∈ P.log, ∀ email name passwordHash e,
    x.exchange = ⟨.createUser email name passwordHash, .error e⟩ →
    P.left x.thread = .done (.error e) ∧ ∀ y ∈ P.log, y.thread = x.thread → y.after = y.before
  made : c.algorithm.isSymmetric = true → ∀ x ∈ P.log, ∀ email user,
    created? x.exchange = some (email, user) → (P.left x.thread).Fulfils
  granted : ∀ x ∈ P.log, ∀ email id, created? x.exchange = some (email, ⟨id, true⟩) →
    AwaitsGrant id (P.left x.thread) ∨ superadminRole ∈ P.world.store.rolesOf id
  holders : ∀ id, superadminRole ∈ P.world.store.rolesOf id → First P.log id

private theorem not_awaits_of_registering {email id : String} (h : Registering c email p) :
    ¬ AwaitsGrant id p := by
  rintro ⟨next, rfl, -⟩
  cases h

private theorem not_awaits_of_settled {id : String} (h : Settled p) : ¬ AwaitsGrant id p := by
  rintro ⟨next, rfl, -⟩
  exact h.1.2 rfl

private theorem id_eq_of_awaits {id id' : String} (h : AwaitsGrant id p) (h' : AwaitsGrant id' p) :
    id = id' := by
  obtain ⟨next, rfl, -⟩ := h
  obtain ⟨next', heq, -⟩ := h'
  cases heq
  rfl

omit [DecidableEq ι] in
private theorem Stage.first {email id : String} {log : List (Event ι MemoryStore)}
    (h : Stage c email log i p) (hp : AwaitsGrant id p) : First log id := by
  rcases h with ⟨hreg, -⟩ | ⟨id', hp', hfirst⟩ | hsettled
  · exact absurd hp (not_awaits_of_registering hreg)
  · rwa [id_eq_of_awaits hp hp']
  · exact absurd hp (not_awaits_of_settled hsettled)

private theorem First.mono {id : String} (h : First P.log id) :
    First (P.advance i x p w).log id := by
  obtain ⟨z, hz, hcreated⟩ := h
  exact ⟨z, Pool.mem_log_advance.mpr (.inr hz), hcreated⟩

private theorem Stage.of_ne {email : String} {j : ι} (h : Stage c email P.log j (P.left j))
    (hj : j ≠ i) :
    Stage c email (P.advance i x p w).log j ((P.advance i x p w).left j) := by
  rw [Pool.left_advance_of_ne hj]
  rcases h with ⟨hreg, hquiet⟩ | ⟨id, hawaits, hfirst⟩ | hsettled
  · refine .inl ⟨hreg, fun z hz hthread => ?_⟩
    have hz' : z ∈ P.log := Pool.mem_log_of_advance hz (by rwa [hthread])
    exact hquiet z hz' hthread
  · exact .inr (.inl ⟨id, hawaits, hfirst.mono⟩)
  · exact .inr (.inr hsettled)

/-- A step takes the registrations from one good moment to the next if it keeps to its stage, gives
the role to the user it is about to give it to, and has done nothing if it is refused. -/
private theorem Orderly.step (hP : Orderly c ids requests P) (hids : Function.Injective ids)
    (hs : Step (MemoryStore.setting ids entropy) (P.left i) P.world x p w)
    (hroles : w.store.roles = P.world.store.roles)
    (hstage : Stage c (trim (requests i).email) (P.advance i x p w).log i p)
    (hasked : ∀ y ∈ x, ∀ email, Attempts email y → email = trim (requests i).email)
    (hrefused : ∀ y ∈ x, ∀ email name passwordHash e,
      y = ⟨.createUser email name passwordHash, .error e⟩ → p = .done (.error e) ∧
        w.store = P.world.store ∧ ∀ z ∈ P.log, z.thread = i → z.after = z.before)
    (hmade : c.algorithm.isSymmetric = true → ∀ z ∈ (P.advance i x p w).log, z.thread = i →
      ∀ email user, created? z.exchange = some (email, user) → p.Fulfils)
    (hcreated : ∀ y ∈ x, ∀ email id, created? y = some (email, ⟨id, true⟩) → AwaitsGrant id p)
    (hgrants : ∀ id, superadminRole ∈ w.store.rolesOf id ↔
      AwaitsGrant id (P.left i) ∨ superadminRole ∈ P.world.store.rolesOf id) :
    Orderly c ids requests (P.advance i x p w) := by
  constructor
  case recorded =>
    rw [Pool.exchanges_advance]
    exact hP.recorded.step hids hs
  case defined =>
    show w.store.roles.contains superadminRole = true
    rw [hroles]
    exact hP.defined
  case stages =>
    intro j
    by_cases hj : j = i
    · subst hj
      rw [Pool.left_advance]
      exact hstage
    · exact (hP.stages j).of_ne hj
  case asked =>
    intro z hz email ha
    rcases Pool.mem_log_advance.mp hz with ⟨y, rfl, rfl⟩ | hz
    · exact hasked y rfl email ha
    · exact hP.asked z hz email ha
  case refused =>
    intro z hz email name passwordHash e hexchange
    rcases Pool.mem_log_advance.mp hz with ⟨y, rfl, rfl⟩ | hz
    · obtain ⟨hdone, hsame, hquiet⟩ := hrefused y rfl email name passwordHash e hexchange
      refine ⟨Pool.left_advance.trans hdone, fun u hu hthread => ?_⟩
      rcases Pool.mem_log_advance.mp hu with ⟨v, -, rfl⟩ | hu
      · exact hsame
      · exact hquiet u hu hthread
    · obtain ⟨hdone, hquiet⟩ := hP.refused z hz email name passwordHash e hexchange
      -- A registration that was refused has ended, so it is not the one that took the step.
      have hthread : z.thread ≠ i := by
        rintro rfl
        rw [hdone] at hs
        cases hs
      refine ⟨(Pool.left_advance_of_ne hthread).trans hdone, fun u hu hu' => ?_⟩
      exact hquiet u (Pool.mem_log_of_advance hu (by rwa [hu'])) hu'
  case made =>
    intro hc z hz email user hcreated'
    by_cases hthread : z.thread = i
    · rw [hthread, Pool.left_advance]
      exact hmade hc z hz hthread email user hcreated'
    · rw [Pool.left_advance_of_ne hthread]
      exact hP.made hc z (Pool.mem_log_of_advance hz hthread) email user hcreated'
  case granted =>
    intro z hz email id hc
    rcases Pool.mem_log_advance.mp hz with ⟨y, rfl, rfl⟩ | hz
    · left
      rw [Pool.left_advance]
      exact hcreated y rfl email id hc
    · rcases hP.granted z hz email id hc with hawaits | hheld
      · by_cases hthread : z.thread = i
        · right
          rw [hthread] at hawaits
          exact (hgrants id).mpr (.inl hawaits)
        · left
          rw [Pool.left_advance_of_ne hthread]
          exact hawaits
      · right
        exact (hgrants id).mpr (.inr hheld)
  case holders =>
    intro id hheld
    rcases (hgrants id).mp hheld with hawaits | hheld
    · exact ((hP.stages i).first hawaits).mono
    · exact (hP.holders id hheld).mono

/-- A registration that has created its user goes on as long as its calls are answered. -/
private theorem Orderly.fulfils_of_step (hP : Orderly c ids requests P)
    (hs : Step (MemoryStore.setting ids entropy) (P.left i) P.world x p w)
    (hx : ∀ y ∈ x, y.call.method ≠ .createUser) (hanswers : ∀ y ∈ x, ∃ a, y.answer = .ok a) :
    c.algorithm.isSymmetric = true → ∀ z ∈ (P.advance i x p w).log, z.thread = i →
      ∀ email user, created? z.exchange = some (email, user) → p.Fulfils := by
  intro hc z hz hthread email user hcreated
  rcases Pool.mem_log_advance.mp hz with ⟨y, hy, rfl⟩ | hz
  · cases (created?_of_method (hx y hy)).symm.trans hcreated
  · have hleft := hP.made hc z hz email user hcreated
    rw [hthread] at hleft
    exact hleft.step hs hanswers

/-- Before the creation a registration only looks. -/
private theorem Orderly.registering (hP : Orderly c ids requests P) (hids : Function.Injective ids)
    (hs : Step (MemoryStore.setting ids entropy) (P.left i) P.world x p w)
    (hreg : Registering c (trim (requests i).email) (P.left i))
    (hquiet : ∀ z ∈ P.log, z.thread = i → z.after = z.before ∧ created? z.exchange = none) :
    Orderly c ids requests (P.advance i x p w) := by
  have hawaits (id : String) : ¬ AwaitsGrant id (P.left i) := not_awaits_of_registering hreg
  have hkept (hsame : w.store.userRoles = P.world.store.userRoles) (id : String) :
      superadminRole ∈ w.store.rolesOf id ↔
        AwaitsGrant id (P.left i) ∨ superadminRole ∈ P.world.store.rolesOf id := by
    unfold MemoryStore.rolesOf
    rw [hsame]
    simp [hawaits id]
  have hstill (hsame : w.store = P.world.store) (hx : ∀ y ∈ x, created? y = none) :
      ∀ z ∈ (P.advance i x p w).log, z.thread = i →
        z.after = z.before ∧ created? z.exchange = none := by
    intro z hz hthread
    rcases Pool.mem_log_advance.mp hz with ⟨y, hy, rfl⟩ | hz
    · exact ⟨hsame, hx y hy⟩
    · exact hquiet z hz hthread
  -- The step looks, is refused the creation, or creates the user.
  rcases hreg.step hs with ⟨hsame, hreg', hx⟩ | ⟨name, passwordHash, e, rfl, hsame, rfl, -⟩ |
    ⟨name, passwordHash, hfree, rfl, hstore, hjoins, hfulfils⟩
  · have hnone : ∀ y ∈ x, created? y = none := fun y hy => created?_of_method (hx y hy)
    have hnobody := hstill hsame hnone
    refine hP.step hids hs (by rw [hsame]) (.inl ⟨hreg', hnobody⟩) ?_ ?_ ?_ ?_ (hkept (by rw [hsame]))
    · rintro y hy email ⟨name, passwordHash, hcall⟩
      exact absurd (by rw [hcall]; rfl) (hx y hy)
    · rintro y hy email name passwordHash e rfl
      exact absurd rfl (hx _ hy)
    · intro _ z hz hthread email user hc
      cases (hnobody z hz hthread).2.symm.trans hc
    · intro y hy email id hc
      cases (hnone y hy).symm.trans hc
  · have hnobody := hstill hsame fun y hy => by
      obtain rfl := Option.some.inj hy
      rfl
    refine hP.step hids hs (by rw [hsame]) (.inl ⟨.failed e, hnobody⟩) ?_ ?_ ?_ ?_
      (hkept (by rw [hsame]))
    · rintro y hy email ⟨_, _, hcall⟩
      obtain rfl := Option.some.inj hy
      exact (Call.createUser.inj hcall).1.symm
    · rintro y hy email _ _ e' heq
      obtain rfl := Option.some.inj hy
      cases heq
      exact ⟨rfl, hsame, fun z hz hthread => (hquiet z hz hthread).1⟩
    · intro _ z hz hthread email user hc
      cases (hnobody z hz hthread).2.symm.trans hc
    · rintro y hy email id hc
      obtain rfl := Option.some.inj hy
      cases hc
  · generalize P.world.store.nextUser ids = user at hs hjoins ⊢
    obtain ⟨id, first⟩ := user
    refine hP.step hids hs (by rw [hstore]; rfl) ?_ ?_ ?_ (fun hc _ _ _ _ _ _ => hfulfils hc) ?_
      (hkept (by rw [hstore]; rfl))
    · cases first with
      | true => exact .inr (.inl ⟨id, hjoins, _, List.mem_cons_self, _, rfl⟩)
      | false => exact .inr (.inr hjoins)
    · rintro y hy email ⟨_, _, hcall⟩
      obtain rfl := Option.some.inj hy
      exact (Call.createUser.inj hcall).1.symm
    · rintro y hy email _ _ e' heq
      obtain rfl := Option.some.inj hy
      cases heq
    · rintro y hy email id' hc
      obtain rfl := Option.some.inj hy
      cases hc
      exact hjoins

/-- A step that neither creates users nor grants roles. -/
private theorem Orderly.settled (hP : Orderly c ids requests P) (hids : Function.Injective ids)
    (hs : Step (MemoryStore.setting ids entropy) (P.left i) P.world x p w)
    (hsettled : Settled (P.left i)) : Orderly c ids requests (P.advance i x p w) := by
  obtain ⟨hp, hsame, hx⟩ := hsettled.step hs
  refine hP.step hids hs hsame.roles (.inr (.inr hp)) ?_ ?_ ?_ ?_ fun id => ?_
  · rintro y hy email ⟨name, passwordHash, hcall⟩
    exact absurd (by rw [hcall]; rfl) (hx y hy)
  · rintro y hy email name passwordHash e rfl
    exact absurd rfl (hx _ hy)
  · exact hP.fulfils_of_step hs hx (hsettled.answers hs)
  · intro y hy email id hc
    cases (created?_of_method (hx y hy)).symm.trans hc
  · unfold MemoryStore.rolesOf
    rw [hsame.userRoles]
    simp [not_awaits_of_settled hsettled]

private theorem Orderly.granting (hP : Orderly c ids requests P) (hids : Function.Injective ids)
    (hs : Step (MemoryStore.setting ids entropy) (P.left i) P.world x p w) {id : String}
    (hawaits : AwaitsGrant id (P.left i)) : Orderly c ids requests (P.advance i x p w) := by
  -- No call is lost and the role stays defined, so the grant cannot be refused.
  obtain ⟨-, rfl, hp, hstore⟩ | ⟨e, -, -, -, hundefined | hl⟩ := hawaits.step hs
  · have hx : ∀ y ∈ some (⟨.grantRole id superadminRole, .ok ()⟩ : Exchange),
        y.call.method ≠ .createUser ∧ ∃ a, y.answer = .ok a := by
      intro y hy
      obtain rfl := Option.some.inj hy
      exact ⟨nofun, (), rfl⟩
    have hother := fun y hy => (hx y hy).1
    refine hP.step hids hs (by rw [hstore]; rfl) (.inr (.inr hp)) ?_ ?_ ?_ ?_ fun id' => ?_
    · rintro y hy email ⟨name, passwordHash, hcall⟩
      exact absurd (by rw [hcall]; rfl) (hother y hy)
    · rintro y hy email name passwordHash e rfl
      exact absurd rfl (hother _ hy)
    · exact hP.fulfils_of_step hs hother fun y hy => (hx y hy).2
    · intro y hy email id' hc
      cases (created?_of_method (hother y hy)).symm.trans hc
    · rw [hstore, MemoryStore.mem_rolesOf_withRole]
      have hid : AwaitsGrant id' (P.left i) ↔ id' = id :=
        ⟨fun h => id_eq_of_awaits h hawaits, fun h => h ▸ hawaits⟩
      simp [hid]
  · rw [hP.defined] at hundefined
    cases hundefined
  · exact hl.elim

omit [DecidableEq ι] in
private theorem Orderly.opened {w : World MemoryStore} (hw : Vacant w.store) :
    Orderly c ids requests (Pool.opened w fun i => registration c (requests i)) where
  recorded := .empty hw.users hw.emails hw.unused
  defined := hw.defined
  stages i := .inl ⟨registration_registering (requests i), fun x hx => (nomatch hx)⟩
  asked x hx := nomatch hx
  refused x hx := nomatch hx
  made _ x hx := nomatch hx
  granted x hx := nomatch hx
  holders id hheld := by
    change superadminRole ∈ w.store.rolesOf id at hheld
    unfold MemoryStore.rolesOf at hheld
    rw [hw.userRoles] at hheld
    cases hheld

omit [DecidableEq ι] in
private theorem Orderly.other (h : Orderly c ids requests P) {s : MemoryStore}
    (hs : SameAccounts P.world.store s) :
    Orderly c ids requests { P with world := { P.world with store := s } } := by
  have hroles (id : String) : s.rolesOf id = P.world.store.rolesOf id := by
    unfold MemoryStore.rolesOf
    rw [hs.userRoles]
  constructor
  case recorded => exact h.recorded.congr hs
  case defined => exact hs.roles ▸ h.defined
  case stages => exact h.stages
  case asked => exact h.asked
  case refused => exact h.refused
  case made => exact h.made
  case granted => exact fun x hx email id hc => hroles id ▸ h.granted x hx email id hc
  case holders => exact fun id hheld => h.holders id (hroles id ▸ hheld)

theorem Reaches.orderly (hP : Reaches c ids entropy requests P) (hids : Function.Injective ids) :
    Orderly c ids requests P := by
  refine Pool.Reaches.keeps hP (fun w hw => .opened hw) (fun P t h _ => ?_) (fun P s h hs => h.other hs)
    fun P i x p w h hs => ?_
  · exact ⟨h.recorded, h.defined, h.stages, h.asked, h.refused, h.made, h.granted, h.holders⟩
  · rcases h.stages i with ⟨hreg, hquiet⟩ | ⟨id, hawaits, -⟩ | hsettled
    · exact h.registering hids hs hreg hquiet
    · exact h.granting hids hs hawaits
    · exact h.settled hids hs hsettled

/-- In every order of steps: emails and users lead to each other. The first attempt on an email
succeeds, as does its registration if tokens can be signed; any other registration that comes so far
is refused and has changed nothing. The user who was created before all others is the only one called
the first, nobody else is made superadmin, and that user is when all registrations have ended. -/
theorem Reaches.one_account (hP : Reaches c ids entropy requests P)
    (hids : Function.Injective ids) :
    (P.world.store.Indexed ∧
      (∀ id user, P.world.store.findById id = some user ↔ ∃ found,
        P.world.store.findByEmail user.email = some found ∧ found.user = user ∧ user.id = id) ∧
      ∀ email, P.world.store.emails.contains email = (P.world.store.findByEmail email).isSome) ∧
    (∀ x earlier, x :: earlier <:+ P.log → ∀ email name passwordHash answer,
      x.exchange = ⟨.createUser email name passwordHash, answer⟩ →
      email = trim (requests x.thread).email ∧
      ((∃ y ∈ earlier, Attempts email y.exchange) →
        answer = .error (.validation .emailTaken) ∧
        P.left x.thread = .done (.error (.validation .emailTaken)) ∧
        ∀ y ∈ P.log, y.thread = x.thread → y.after = y.before) ∧
      ((∀ y ∈ earlier, ¬ Attempts email y.exchange) → ∃ user, answer = .ok user ∧
        P.world.store.emails.get? email = some user.id ∧
        (user.isFirst = true ↔ ∀ y ∈ earlier, created? y.exchange = none) ∧
        (c.algorithm.isSymmetric = true → ∀ e, P.left x.thread ≠ .done (.error e)))) ∧
    (∀ id id', First P.log id → First P.log id' → id = id') ∧
    (∀ id, superadminRole ∈ P.world.store.rolesOf id → First P.log id) ∧
    ((∀ i, ∃ r, P.left i = .done r) →
      ∀ id, superadminRole ∈ P.world.store.rolesOf id ↔ First P.log id) := by
  have h : Orderly c ids requests P := hP.orderly hids
  refine ⟨⟨h.recorded.indexed, fun id user => h.recorded.indexed.findById_eq_some,
    h.recorded.indexed.contains_emails⟩, ?_, ?_, h.holders, fun hdone id => ⟨h.holders id, ?_⟩⟩
  · intro x earlier hx email name passwordHash answer hexchange
    have hmem : x ∈ P.log := hx.mem List.mem_cons_self
    have hattempts : Attempts email x.exchange := by
      rw [hexchange]
      exact ⟨name, passwordHash, rfl⟩
    have hsuffix : x.exchange :: earlier.map (fun y => y.exchange) <:+
        P.log.map fun y => y.exchange := hx.map _
    obtain ⟨hlate, hfirst⟩ :=
      h.recorded.answered _ _ hsuffix email name passwordHash answer hexchange
    refine ⟨h.asked x hmem email hattempts, fun hearlier => ?_, fun hnobody => ?_⟩
    · obtain rfl := hlate (by simpa using hearlier)
      exact ⟨rfl, h.refused x hmem email name passwordHash _ hexchange⟩
    · obtain ⟨user, rfl, hiff⟩ := hfirst (by simpa using hnobody)
      have hcreated : created? x.exchange = some (email, user) := by
        rw [hexchange]
        rfl
      refine ⟨user, rfl, h.recorded.listed _ (List.mem_map_of_mem hmem) email user hcreated,
        by simpa using hiff, fun hc e he => ?_⟩
      have hfulfils := h.made hc x hmem email user hcreated
      rw [he] at hfulfils
      exact hfulfils
  · rintro id id' ⟨x, hx, email, hc⟩ ⟨y, hy, email', hc'⟩
    exact h.recorded.first_unique (List.mem_map_of_mem hx) (List.mem_map_of_mem hy) hc hc'
  · rintro ⟨x, hx, email, hc⟩
    rcases h.granted x hx email id hc with ⟨next, hawaits, -⟩ | hheld
    · obtain ⟨r, hr⟩ := hdone x.thread
      cases hr.symm.trans hawaits
    · exact hheld

private def admitting (c : Codec) (request : RegisterRequest) (user : CreatedUser) : Program Unit :=
  (welcome c (trim request.email) user).bind fun _ => done (.ok ())

private def creating (c : Codec) (request : RegisterRequest) (passwordHash : String) :
    Program Unit :=
  (ask (.createUser (trim request.email) request.name passwordHash)).bind (admitting c request)

omit [DecidableEq ι] in
private theorem registration_eq (c : Codec) (request : RegisterRequest) :
    registration c request =
      (screen (trim request.email) request.password).bind (creating c request) := by
  unfold registration
  rw [bind_eq, register_eq, Program.bind_assoc]
  refine congrArg _ (funext fun passwordHash => ?_)
  rw [Program.bind_assoc]
  rfl

private theorem Reaches.screened (hP : Reaches c ids entropy requests P) {n : Nat} {t : Nanos}
    (hw : P.world = ⟨s, t, n⟩) (hleft : P.left i = registration c (requests i))
    (hemail : ¬ (trim (requests i).email = "" ∨ '@' ∉ (trim (requests i).email).toList))
    (hpassword : Password.validate (requests i).password = .ok ())
    (hfree : s.emails.contains (trim (requests i).email) = false) :
    ∃ Q, Reaches c ids entropy requests Q ∧ Q.world = ⟨s, t, n + 1⟩ ∧
      Q.left i = creating c (requests i) (Password.hash (entropy n) (requests i).password) ∧
      ∀ j, j ≠ i → Q.left j = P.left j := by
  obtain ⟨Q, hQ, hworld, hQleft, hothers, -⟩ := hP.of_run
    (hleft.trans (registration_eq c (requests i))) hw
    (run_screen ids entropy ⟨s, t, n⟩ hemail hpassword hfree)
  exact ⟨Q, hQ, hworld, hQleft, hothers⟩

private theorem Reaches.created (hP : Reaches c ids entropy requests P) (hw : P.world = w)
    {passwordHash : String} (hleft : P.left i = creating c (requests i) passwordHash)
    {answer : Except AuthError CreatedUser}
    (h : MemoryStore.model ids w.clock (.createUser (trim (requests i).email) (requests i).name
      passwordHash) w.store = (answer, s)) :
    ∃ Q, Reaches c ids entropy requests Q ∧ Q.world = { w with store := s } ∧
      Q.left i = (done answer).bind (admitting c (requests i)) ∧
      (∀ j, j ≠ i → Q.left j = P.left j) ∧
      Q.calls = (i, ⟨.createUser (trim (requests i).email) (requests i).name passwordHash,
        answer⟩) :: P.calls :=
  hP.of_traced (f := admitting c (requests i)) hleft hw (traced_ask h)

private theorem Reaches.admitted (hP : Reaches c ids entropy requests P) (hw : P.world = w)
    {user : CreatedUser} (hleft : P.left i = admitting c (requests i) user)
    {access token : String}
    (hdefined : user.isFirst = true → w.store.roles.contains superadminRole = true)
    (hs : promoted user w.store = s) {q : Principal}
    (hq : q = ⟨user.id, trim (requests i).email, s.rolesOf user.id⟩)
    (haccess : c.encodeAccess (c.accessClaims w.clock q) = .ok access)
    (htoken : c.encodeRefresh (c.refreshClaims w.clock (entropy w.drawn) q) = .ok token) :
    ∃ Q, Reaches c ids entropy requests Q ∧
      Q.world = { w with
        store := { s with refreshTokens :=
          s.refreshTokens.insert q.subject (c.recordOf w.clock q.subject token) }
        drawn := w.drawn + 1 } ∧
      Q.left i = .done (.ok ()) ∧ (∀ j, j ≠ i → Q.left j = P.left j) ∧ P.calls <:+ Q.calls :=
  hP.of_run (f := fun _ => done (.ok ())) hleft hw
    (run_welcome ids entropy w hdefined hs hq haccess htoken)

private def newcomers : Fin 3 → RegisterRequest
  | 0 => ⟨"ada@example.com", "correct horse", none⟩
  | 1 => ⟨"grace@example.com", "correct horse", none⟩
  | 2 => ⟨" ada@example.com", "battery staple", none⟩

/-- Three registrations look for their emails before any user is created. Two of them are for one
email, and the other one ends before the first user has been made superadmin. -/
theorem Reaches.one_account_newcomers : ∃ P,
    Reaches (.ofConfig (.withSecret "secret")) serialId (fun n => .replicate 16 n.toUInt8)
      newcomers P ∧
    P.left 0 = .done (.ok ()) ∧ P.left 1 = .done (.ok ()) ∧
    (∃ passwordHash, (2, ⟨.createUser "ada@example.com" none passwordHash,
      .error (.validation .emailTaken)⟩) ∈ P.calls) ∧
    P.left 2 = .done (.error (.validation .emailTaken)) ∧
    ∀ id, superadminRole ∈ P.world.store.rolesOf id ↔ id = serialId 0 := by
  let c : Codec := .ofConfig (.withSecret "secret")
  let entropy : Nat → Draw := fun n => .replicate 16 n.toUInt8
  let s₀ : MemoryStore := MemoryStore.insertRole ⟨superadminRole, []⟩ {}
  let s₁ : MemoryStore :=
    s₀.withUser serialId "ada@example.com" none (Password.hash (entropy 0) "correct horse")
  let s₂ : MemoryStore :=
    s₁.withUser serialId "grace@example.com" none (Password.hash (entropy 1) "correct horse")
  have hfirst : MemoryStore.model serialId 0 (.createUser "ada@example.com" none
      (Password.hash (entropy 0) "correct horse")) s₀ = (.ok ⟨serialId 0, true⟩, s₁) :=
    MemoryStore.createUser_of_free _ _ _ rfl
  have hagain : MemoryStore.model serialId 0 (.createUser "ada@example.com" none
      (Password.hash (entropy 2) "battery staple")) s₁ =
        (.error (.validation .emailTaken), s₁) := MemoryStore.createUser_of_taken _ _ _ rfl
  have hsecond : MemoryStore.model serialId 0 (.createUser "grace@example.com" none
      (Password.hash (entropy 1) "correct horse")) s₁ = (.ok ⟨serialId 1, false⟩, s₂) :=
    MemoryStore.createUser_of_free _ _ _ rfl
  let ada : Principal := ⟨serialId 0, "ada@example.com", .insert superadminRole .empty⟩
  let grace : Principal := ⟨serialId 1, "grace@example.com", .empty⟩
  obtain ⟨access₀, haccess₀⟩ : ∃ access, c.encodeAccess (c.accessClaims 0 ada) = .ok access :=
    Codec.exists_sign rfl _
  obtain ⟨token₀, htoken₀⟩ : ∃ token,
      c.encodeRefresh (c.refreshClaims 0 (entropy 4) ada) = .ok token := Codec.exists_sign rfl _
  obtain ⟨access₁, haccess₁⟩ : ∃ access, c.encodeAccess (c.accessClaims 0 grace) = .ok access :=
    Codec.exists_sign rfl _
  obtain ⟨token₁, htoken₁⟩ : ∃ token,
      c.encodeRefresh (c.refreshClaims 0 (entropy 3) grace) = .ok token := Codec.exists_sign rfl _
  have hstart : Reaches c serialId entropy newcomers
      (Pool.opened ⟨s₀, 0, 0⟩ fun i => registration c (newcomers i)) :=
    .start _ ⟨rfl, rfl, rfl, rfl, rfl⟩
  -- All three look for their emails and hash their passwords.
  obtain ⟨P₁, hP₁, hw₁, hleft₁, hothers₁⟩ := Reaches.screened hstart (i := 0) rfl rfl
    (by decide) rfl rfl
  obtain ⟨P₂, hP₂, hw₂, hleft₂, hothers₂⟩ := Reaches.screened hP₁ (i := 1) hw₁
    (hothers₁ 1 (by decide)) (by decide) rfl rfl
  obtain ⟨P₃, hP₃, hw₃, hleft₃, hothers₃⟩ := Reaches.screened hP₂ (i := 2) hw₂
    ((hothers₂ 2 (by decide)).trans (hothers₁ 2 (by decide))) (by decide) rfl rfl
  -- Ada is created, but not again, and then Grace is created.
  obtain ⟨P₄, hP₄, hw₄, hleft₄, hothers₄, hcalls₄⟩ := Reaches.created hP₃ (i := 0) hw₃
    ((hothers₃ 0 (by decide)).trans ((hothers₂ 0 (by decide)).trans hleft₁)) hfirst
  obtain ⟨P₅, hP₅, hw₅, hleft₅, hothers₅, hcalls₅⟩ := Reaches.created hP₄ (i := 2) hw₄
    ((hothers₄ 2 (by decide)).trans hleft₃) hagain
  obtain ⟨P₆, hP₆, hw₆, hleft₆, hothers₆, hcalls₆⟩ := Reaches.created hP₅ (i := 1) hw₅
    ((hothers₅ 1 (by decide)).trans ((hothers₄ 1 (by decide)).trans
      ((hothers₃ 1 (by decide)).trans hleft₂))) hsecond
  -- Grace's registration ends before Ada's.
  obtain ⟨P₇, hP₇, hw₇, hleft₇, hothers₇, hcalls₇⟩ := Reaches.admitted hP₆ (i := 1) hw₆ hleft₆
    nofun rfl (q := grace) rfl haccess₁ htoken₁
  obtain ⟨P₈, hP₈, hw₈, hleft₈, hothers₈, hcalls₈⟩ := Reaches.admitted hP₇ (i := 0) hw₇
    ((hothers₇ 0 (by decide)).trans ((hothers₆ 0 (by decide)).trans
      ((hothers₅ 0 (by decide)).trans hleft₄)))
    (fun _ => rfl) rfl (q := ada) rfl haccess₀ htoken₀
  have hcalls := hcalls₇.trans hcalls₈
  rw [hcalls₆, hcalls₅, hcalls₄] at hcalls
  have hrefused := hcalls.mem (.tail _ (.head _))
  obtain ⟨x, hx, heq⟩ := List.mem_map.mp (hcalls.mem (.tail _ (.tail _ (.head _))))
  have hmade : First P₈.log (serialId 0) :=
    ⟨x, hx, _, (congrArg (fun y => created? y.2) heq).trans rfl⟩
  have hgrace := (hothers₈ 1 (by decide)).trans hleft₇
  have htwice := (hothers₈ 2 (by decide)).trans ((hothers₇ 2 (by decide)).trans
    ((hothers₆ 2 (by decide)).trans hleft₅))
  have hdone (i : Fin 3) : ∃ r, P₈.left i = .done r :=
    match i with
    | 0 => ⟨_, hleft₈⟩
    | 1 => ⟨_, hgrace⟩
    | 2 => ⟨_, htwice⟩
  obtain ⟨-, -, hunique, -, hsuperadmin⟩ := Reaches.one_account hP₈ serialId_injective
  refine ⟨P₈, hP₈, hleft₈, hgrace, ⟨_, hrefused⟩, htwice, fun id => ?_⟩
  rw [hsuperadmin hdone]
  exact ⟨fun h => hunique _ _ h hmade, fun h => h ▸ hmade⟩

end Turnstile.Enrollment
