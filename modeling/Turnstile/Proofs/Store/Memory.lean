import Mathlib.Tactic.SplitIfs
import Turnstile.Proofs.SortedSet
import Turnstile.Proofs.Table
import Turnstile.Store.Memory

/-! What the calls to a store in memory leave alone, and how its users and emails belong together:
every email leads to its user, and every user has an id of its own. Both hold of every store that
comes about by calls, as long as no id is handed out twice. -/

namespace Turnstile

def serialId (n : Nat) : String :=
  "018bcfe5-6800-7000-8000-" ++ Nat.repr (100000000000 + n)

private theorem repr_injective : Function.Injective Nat.repr := by
  intro m n h
  have hdigits : Nat.toDigits 10 m = Nat.toDigits 10 n := by
    rw [← Nat.toList_repr, ← Nat.toList_repr, h]
  rw [← Nat.ofDigitChars_ten_toDigits (n := m), hdigits, Nat.ofDigitChars_ten_toDigits]

theorem serialId_injective : Function.Injective serialId := by
  intro m n h
  unfold serialId at h
  generalize hm : 100000000000 + m = k at h
  generalize hn : 100000000000 + n = l at h
  have hserial : k = l := repr_injective ((String.append_right_inj _).mp h)
  omega

namespace MemoryStore

variable {ids : Nat → String}

/-- Every part of a store that a call does not write. -/
structure Frame (c : Call) (s s' : MemoryStore) : Prop where
  users : c.method ≠ .createUser → s'.users = s.users
  emails : c.method ≠ .createUser → s'.emails = s.emails
  firstUserCreated : c.method ≠ .createUser → s'.firstUserCreated = s.firstUserCreated
  refreshTokens : c.method ≠ .upsert → c.method ≠ .delete → c.method ≠ .deleteMatching →
    s'.refreshTokens = s.refreshTokens
  revocations : c.method ≠ .isRevoked → c.method ≠ .revoke → s'.revocations = s.revocations
  userRoles : c.method ≠ .grantRole → s'.userRoles = s.userRoles
  roles : s'.roles = s.roles

theorem Frame.refl (c : Call) (s : MemoryStore) : Frame c s s where
  users _ := rfl
  emails _ := rfl
  firstUserCreated _ := rfl
  refreshTokens _ _ _ := rfl
  revocations _ _ := rfl
  userRoles _ := rfl
  roles := rfl

theorem frame_model (ids : Nat → String) (t : Nanos) (c : Call) (s : MemoryStore) :
    Frame c s (model ids t c s).2 := by
  have hsame := Frame.refl c s
  cases c with
  | createUser email name passwordHash =>
    simp only [model, createUser]
    split_ifs
    · exact hsame
    · exact { hsame with
        users := fun h => absurd rfl h
        emails := fun h => absurd rfl h
        firstUserCreated := fun h => absurd rfl h }
  | upsert record => exact { hsame with refreshTokens := fun h => absurd rfl h }
  | delete userId => exact { hsame with refreshTokens := fun _ h => absurd rfl h }
  | deleteMatching userId tokenHash =>
    simp only [model, deleteMatching]
    split
    · exact hsame
    · split_ifs
      · exact { hsame with refreshTokens := fun _ _ h => absurd rfl h }
      · exact hsame
  | isRevoked key =>
    simp only [model, isRevoked]
    split
    · exact hsame
    · split_ifs
      · exact { hsame with revocations := fun h => absurd rfl h }
      · exact hsame
  | revoke key ttl =>
    simp only [model, revoke]
    split_ifs
    · exact hsame
    · exact { hsame with revocations := fun _ h => absurd rfl h }
  | grantRole userId role =>
    simp only [model, grantRole]
    split_ifs
    · exact { hsame with userRoles := fun h => absurd rfl h }
    · exact hsame
  | _ => exact hsame

def Reads : Call → Prop
  | .findByEmail _ | .findById _ | .emailExists _ | .findByUser _ | .findRole _ | .rolesByNames _
  | .rolesForUser _ => True
  | _ => False

theorem model_reads (ids : Nat → String) (t : Nanos) {c : Call} (s : MemoryStore) (h : Reads c) :
    (model ids t c s).2 = s := by
  cases c with
  | createUser | upsert | delete | deleteMatching | isRevoked | revoke | grantRole => exact h.elim
  | _ => rfl

/-- Only creations and grants can be refused. -/
theorem exists_model_ok (ids : Nat → String) (t : Nanos) {c : Call} (s : MemoryStore)
    (h : c.method ≠ .createUser ∧ c.method ≠ .grantRole) : ∃ a, (model ids t c s).1 = .ok a := by
  cases c with
  | createUser => exact absurd rfl h.1
  | grantRole => exact absurd rfl h.2
  | _ => exact ⟨_, rfl⟩

/-- An email leads to the user who has it, and a user is found under its id and its email. -/
structure Indexed (s : MemoryStore) : Prop where
  leads : ∀ email id, s.emails.get? email = some id →
    ∃ found, s.users.get? id = some found ∧ found.user.email = email
  listed : ∀ id found, s.users.get? id = some found →
    found.user.id = id ∧ s.emails.get? found.user.email = some id

/-- Every id in use is one of those that were handed out. -/
def Numbered (ids : Nat → String) (s : MemoryStore) : Prop :=
  ∀ id found, s.users.get? id = some found → ∃ n < s.emails.size, id = ids n

variable {s : MemoryStore}

def nextUser (ids : Nat → String) (s : MemoryStore) : CreatedUser :=
  ⟨ids s.emails.size, !s.firstUserCreated⟩

def withUser (ids : Nat → String) (email : String) (name : Option String) (passwordHash : String)
    (s : MemoryStore) : MemoryStore :=
  let id := ids s.emails.size
  { s with
    users := s.users.insert id ⟨⟨id, email, name⟩, some passwordHash⟩
    emails := s.emails.insert email id
    firstUserCreated := true }

theorem createUser_of_taken (ids : Nat → String) {email : String} (name : Option String)
    (passwordHash : String) (h : s.emails.contains email = true) :
    s.createUser ids email name passwordHash = (.error (.validation .emailTaken), s) :=
  if_pos h

theorem createUser_of_free (ids : Nat → String) {email : String} (name : Option String)
    (passwordHash : String) (h : s.emails.contains email = false) :
    s.createUser ids email name passwordHash =
      (.ok (s.nextUser ids), s.withUser ids email name passwordHash) := by
  unfold createUser
  rw [if_neg (by simp [h])]
  rfl

theorem Indexed.congr {s' : MemoryStore} (hi : s.Indexed) (husers : s'.users = s.users)
    (hemails : s'.emails = s.emails) : s'.Indexed := by
  constructor
  · rw [husers, hemails]
    exact hi.leads
  · rw [husers, hemails]
    exact hi.listed

theorem Numbered.congr {s' : MemoryStore} (hn : s.Numbered ids) (husers : s'.users = s.users)
    (hemails : s'.emails = s.emails) : s'.Numbered ids := by
  unfold Numbered
  rw [husers, hemails]
  exact hn

/-- The id of a new user is not in use. -/
theorem Numbered.fresh (hn : s.Numbered ids) (hids : Function.Injective ids) :
    s.users.get? (ids s.emails.size) = none := by
  cases hget : s.users.get? (ids s.emails.size) with
  | none => rfl
  | some found =>
    obtain ⟨n, hlt, hid⟩ := hn _ found hget
    exact absurd (hids hid) (Nat.ne_of_gt hlt)

theorem Numbered.nextUser_ne (hn : s.Numbered ids) (hids : Function.Injective ids) {id : String}
    (h : (s.users.get? id).isSome) : (s.nextUser ids).id ≠ id := by
  rintro rfl
  have hnone : s.users.get? (s.nextUser ids).id = none := hn.fresh hids
  rw [hnone] at h
  cases h

theorem Numbered.withUser (hn : s.Numbered ids) {email : String} (name : Option String)
    (passwordHash : String) (hfree : s.emails.contains email = false) :
    (s.withUser ids email name passwordHash).Numbered ids := by
  have hsize : (s.withUser ids email name passwordHash).emails.size = s.emails.size + 1 :=
    Table.size_insert _ _ _ ((Table.contains_eq_false _ _).mp hfree)
  intro id found hget
  rw [hsize]
  simp only [MemoryStore.withUser, Table.get?_insert] at hget
  by_cases hid : id = ids s.emails.size
  · exact ⟨s.emails.size, Nat.lt_succ_self _, hid⟩
  · rw [if_neg hid] at hget
    obtain ⟨n, hlt, hid'⟩ := hn id found hget
    exact ⟨n, Nat.lt_succ_of_lt hlt, hid'⟩

theorem Indexed.withUser (hi : s.Indexed) (hn : s.Numbered ids) (hids : Function.Injective ids)
    {email : String} (name : Option String) (passwordHash : String)
    (hfree : s.emails.contains email = false) :
    (s.withUser ids email name passwordHash).Indexed := by
  have hnoEmail : s.emails.get? email = none := (Table.contains_eq_false _ _).mp hfree
  have hnoUser : s.users.get? (ids s.emails.size) = none := hn.fresh hids
  constructor
  · intro e id hget
    simp only [MemoryStore.withUser, Table.get?_insert] at hget ⊢
    by_cases he : e = email
    · rw [if_pos he] at hget
      obtain rfl := Option.some.inj hget
      exact ⟨_, if_pos rfl, he.symm⟩
    · rw [if_neg he] at hget
      obtain ⟨found, hfound, hemail⟩ := hi.leads e id hget
      have hid : id ≠ ids s.emails.size := by
        rintro rfl
        rw [hnoUser] at hfound
        cases hfound
      exact ⟨found, by rw [if_neg hid, hfound], hemail⟩
  · intro id found hget
    simp only [MemoryStore.withUser, Table.get?_insert] at hget ⊢
    by_cases hid : id = ids s.emails.size
    · rw [if_pos hid] at hget
      obtain rfl := Option.some.inj hget
      exact ⟨hid.symm, by rw [if_pos rfl, hid]⟩
    · rw [if_neg hid] at hget
      obtain ⟨hsame, hlisted⟩ := hi.listed id found hget
      have hne : found.user.email ≠ email := by
        intro he
        rw [he, hnoEmail] at hlisted
        cases hlisted
      exact ⟨hsame, by rw [if_neg hne, hlisted]⟩

theorem get?_users_withUser (ids : Nat → String) (email : String) (name : Option String)
    (passwordHash : String) (s : MemoryStore) :
    (s.withUser ids email name passwordHash).users.get? (s.nextUser ids).id =
      some ⟨⟨(s.nextUser ids).id, email, name⟩, some passwordHash⟩ :=
  (Table.get?_insert _ _ _ _).trans (if_pos rfl)

@[simp] theorem size_withUser_ne (ids : Nat → String) (email : String) (name : Option String)
    (passwordHash : String) (s : MemoryStore) :
    (s.withUser ids email name passwordHash).users.size ≠ 0 := nofun

/-- Users are found alike by email and by id. -/
theorem Indexed.findById_eq_some (hi : s.Indexed) {id : String} {user : User} :
    s.findById id = some user ↔
      ∃ found, s.findByEmail user.email = some found ∧ found.user = user ∧ user.id = id := by
  unfold findById findByEmail
  constructor
  · intro h
    obtain ⟨found, hfound, rfl⟩ := Option.map_eq_some_iff.mp h
    obtain ⟨hid, hlisted⟩ := hi.listed id found hfound
    exact ⟨found, by rw [hlisted]; exact hfound, rfl, hid⟩
  · rintro ⟨found, h, rfl, rfl⟩
    obtain ⟨id, -, hfound⟩ := Option.bind_eq_some_iff.mp h
    obtain ⟨hid, -⟩ := hi.listed id found hfound
    rw [hid, hfound]
    rfl

/-- An email is in use exactly if it leads to a user. -/
theorem Indexed.contains_emails (hi : s.Indexed) (email : String) :
    s.emails.contains email = (s.findByEmail email).isSome := by
  unfold Table.contains findByEmail
  cases hget : s.emails.get? email with
  | none => rfl
  | some id =>
    obtain ⟨found, hfound, -⟩ := hi.leads email id hget
    rw [Option.bind_some, hfound]
    rfl

def withRole (userId role : String) (s : MemoryStore) : MemoryStore :=
  { s with userRoles := s.userRoles.insert userId ((s.rolesOf userId).insert role) }

theorem grantRole_of_defined (userId : String) {role : String}
    (h : s.roles.contains role = true) : s.grantRole userId role = (.ok (), s.withRole userId role) :=
  if_pos h

theorem grantRole_of_undefined (userId : String) {role : String}
    (h : s.roles.contains role = false) :
    s.grantRole userId role = (.error (.validation (.unknownRole role)), s) :=
  if_neg (by simp [h])

@[simp] theorem rolesOf_withRole (userId role : String) (s : MemoryStore) :
    (s.withRole userId role).rolesOf userId = (s.rolesOf userId).insert role := by
  simp [withRole, rolesOf]

@[simp] theorem mem_rolesOf_withRole {userId id role name : String} :
    name ∈ (s.withRole userId role).rolesOf id ↔
      (id = userId ∧ name = role) ∨ name ∈ s.rolesOf id := by
  unfold withRole rolesOf
  by_cases hid : id = userId
  · subst hid
    simp
  · simp [hid]

def Filed (s : MemoryStore) : Prop :=
  ∀ id record, s.refreshTokens.get? id = some record → record.userId = id

/-- The stores that come about by defining roles and by calls, whoever makes them. -/
inductive Reachable (ids : Nat → String) : MemoryStore → Prop
  | empty : Reachable ids {}
  | define {s : MemoryStore} (role : Role) : Reachable ids s → Reachable ids (s.insertRole role)
  | call {s : MemoryStore} (t : Nanos) (d : Call) :
    Reachable ids s → Reachable ids (model ids t d s).2

namespace Reachable

/-- A property of stores that defining roles and calls preserve holds of every reachable store. -/
theorem preserved {I : MemoryStore → Prop} (h : Reachable ids s) (hempty : I {})
    (hdefine : ∀ role s, I s → I (s.insertRole role))
    (hcall : ∀ t d s, I s → I (model ids t d s).2) : I s := by
  induction h with
  | empty => exact hempty
  | define role _ ih => exact hdefine role _ ih
  | call t d _ ih => exact hcall t d _ ih

/-- A call creates a user under a free email, or leaves the users and their emails alone. -/
private theorem users_model (ids : Nat → String) (t : Nanos) (d : Call) (s : MemoryStore) :
    (∃ email name passwordHash, s.emails.contains email = false ∧
      (model ids t d s).2 = s.withUser ids email name passwordHash) ∨
    ((model ids t d s).2.users = s.users ∧ (model ids t d s).2.emails = s.emails ∧
      (model ids t d s).2.firstUserCreated = s.firstUserCreated) := by
  have hframe := frame_model ids t d s
  cases d with
  | createUser email name passwordHash =>
    cases hfree : s.emails.contains email with
    | true =>
      exact .inr (by simp only [model, createUser_of_taken ids name passwordHash hfree, and_self])
    | false =>
      exact .inl ⟨email, name, passwordHash, hfree,
        congrArg Prod.snd (createUser_of_free ids name passwordHash hfree)⟩
  | _ => exact .inr ⟨hframe.users nofun, hframe.emails nofun, hframe.firstUserCreated nofun⟩

/-- Users and emails belong together. -/
theorem sound (h : Reachable ids s) (hids : Function.Injective ids) :
    s.Indexed ∧ s.Numbered ids := by
  refine h.preserved (I := fun s => s.Indexed ∧ s.Numbered ids) ⟨⟨nofun, nofun⟩, nofun⟩
    (fun role s ⟨hi, hn⟩ => ⟨hi.congr rfl rfl, hn.congr rfl rfl⟩) ?_
  rintro t d s ⟨hi, hn⟩
  obtain ⟨email, name, passwordHash, hfree, hs⟩ | ⟨husers, hemails, -⟩ := users_model ids t d s
  · rw [hs]
    exact ⟨hi.withUser hn hids name passwordHash hfree, hn.withUser name passwordHash hfree⟩
  · exact ⟨hi.congr husers hemails, hn.congr husers hemails⟩

/-- The first creation of a user is remembered, whichever ids are handed out. -/
theorem firstUserCreated (h : Reachable ids s) :
    s.firstUserCreated = decide (s.users.size ≠ 0) := by
  refine h.preserved (I := fun s => s.firstUserCreated = decide (s.users.size ≠ 0)) rfl
    (fun role s ih => ih) ?_
  intro t d s ih
  obtain ⟨email, name, passwordHash, -, hs⟩ | ⟨husers, -, hflag⟩ := users_model ids t d s
  · rw [hs]
    exact (decide_eq_true (size_withUser_ne ids email name passwordHash s)).symm
  · rw [husers, hflag, ih]

private theorem filed_erase (hf : s.Filed) (userId : String) :
    Filed { s with refreshTokens := s.refreshTokens.erase userId } := by
  intro id record hget
  simp only [Table.get?_erase] at hget
  by_cases hid : id = userId
  · rw [if_pos hid] at hget
    cases hget
  · rw [if_neg hid] at hget
    exact hf id record hget

private theorem filed_model (t : Nanos) (d : Call) (hf : s.Filed) :
    (model ids t d s).2.Filed := by
  have hframe := frame_model ids t d s
  cases d with
  | upsert new =>
    intro id record hget
    simp only [model, Table.get?_insert] at hget
    by_cases hid : id = new.userId
    · rw [if_pos hid] at hget
      rw [hid, Option.some.inj hget]
    · rw [if_neg hid] at hget
      exact hf id record hget
  | delete userId => exact filed_erase hf userId
  | deleteMatching userId tokenHash =>
    simp only [model, deleteMatching]
    split
    · exact hf
    · split_ifs
      · exact filed_erase hf userId
      · exact hf
  | _ => exact fun id record hget => hf id record (hframe.refreshTokens nofun nofun nofun ▸ hget)

theorem filed (h : Reachable ids s) : s.Filed :=
  h.preserved nofun (fun _ _ ih => ih) fun t d _ ih => filed_model t d ih

end Reachable

end MemoryStore

end Turnstile
