import Turnstile.Proofs.Execution
import Turnstile.Proofs.SortedSet
import Turnstile.Proofs.Table
import Turnstile.Service.Accounts
import Turnstile.Store.Memory

/-! The permissions a caller is shown are those it has: asking for the roles one by one until one of
them allows a request, and asking for all of them at once, come to the same over every store that
finds roles by their names. -/

namespace Turnstile

open Program

def Role.Carries (role : Role) (key : PermissionKey) : Prop :=
  key ∈ role.permissions.map Permission.key

theorem Role.grants_iff_carries (role : Role) (resource method : String) :
    role.grants resource method = true ↔ role.Carries ⟨resource, method⟩ := by
  simp [Role.grants, Permission.allows, Role.Carries, Permission.key]

theorem PermissionKey.lt_irrefl (key : PermissionKey) : ¬ key < key := by
  rintro (hlt | ⟨-, hlt⟩) <;> exact String.lt_irrefl _ hlt

theorem mem_permissionsFor {roles : List Role} {key : PermissionKey} :
    key ∈ permissionsFor roles ↔ ∃ role ∈ roles, role.Carries key := by
  unfold permissionsFor Role.Carries
  rw [SortedSet.mem_ofList, List.mem_flatMap]

/-- A host that answers questions about roles, and stays in states in which it does: a role that is
found under a name carries the keys that the name stands for, and so do all roles found under some
names together. -/
structure FindsRoles {σ : Type} (h : Host σ) (I : σ → Prop)
    (stands : String → PermissionKey → Prop) : Prop where
  one : ∀ name s, I s → ∃ found s', h.answer (.findRole name) s = (some (.ok found), s') ∧ I s' ∧
    ∀ key, (∃ role, found = some role ∧ role.Carries key) ↔ stands name key
  several : ∀ names s, I s → ∃ roles s',
    h.answer (.rolesByNames names) s = (some (.ok roles), s') ∧ I s' ∧
      ∀ key, (∃ role ∈ roles, role.Carries key) ↔ ∃ name ∈ names, stands name key

namespace FindsRoles

variable {σ : Type} {h : Host σ} {I : σ → Prop} {stands : String → PermissionKey → Prop} {s : σ}

/-- The walk over the roles ends early, but not too early. -/
theorem run_someRoleGrants (hf : FindsRoles h I stands) (resource method : String)
    (names : List String) (hs : I s) :
    ∃ b s', (someRoleGrants resource method names).run h s = (some (.ok b), s') ∧ I s' ∧
      (b = true ↔ ∃ name ∈ names, stands name ⟨resource, method⟩) := by
  induction names generalizing s with
  | nil => exact ⟨false, s, rfl, hs, by simp⟩
  | cons name names ih =>
    obtain ⟨found, s₁, hanswer, hs₁, hstands⟩ := hf.one name s hs
    obtain ⟨b, s₂, hrun, hs₂, hb⟩ := ih hs₁
    unfold someRoleGrants
    rw [bind_eq, run_ask_answer hanswer]
    cases hfound : found with
    | none =>
      refine ⟨b, s₂, hrun, hs₂, ?_⟩
      have hnot : ¬ stands name ⟨resource, method⟩ := by
        rw [← hstands, hfound]
        simp
      simp [hb, hnot]
    | some role =>
      have hcarries : role.grants resource method = true ↔ stands name ⟨resource, method⟩ := by
        rw [Role.grants_iff_carries, ← hstands, hfound]
        simp
      by_cases hgrants : role.grants resource method = true
      · refine ⟨true, s₁, by simp only [hgrants, if_true]; rfl, hs₁, ?_⟩
        simp [hcarries.mp hgrants]
      · refine ⟨b, s₂, by simp only [hgrants]; exact hrun, hs₂, ?_⟩
        simp [hb, mt hcarries.mpr hgrants]

/-- Claims of no superuser carry a permission if some of their roles stands for it. -/
theorem run_claimsPermit (hf : FindsRoles h I stands) {claims : AccessClaims}
    (hsuper : claims.superuser = false) (resource method : String) (hs : I s) :
    ∃ b s', (claimsPermit claims resource method).run h s = (some (.ok b), s') ∧ I s' ∧
      (b = true ↔ ∃ name ∈ claims.roles, stands name ⟨resource, method⟩) := by
  unfold claimsPermit
  rw [hsuper, if_neg (by simp)]
  exact hf.run_someRoleGrants resource method claims.roles.elems hs

/-- Claims carry a permission if they are a superuser's, or if some of their roles stands for it. -/
theorem run_claimsPermit_iff (hf : FindsRoles h I stands) (claims : AccessClaims)
    (resource method : String) (hs : I s) :
    ∃ b s', (claimsPermit claims resource method).run h s = (some (.ok b), s') ∧ I s' ∧
      (b = true ↔
        claims.superuser = true ∨ ∃ name ∈ claims.roles, stands name ⟨resource, method⟩) := by
  cases hsuper : claims.superuser with
  | true =>
    unfold claimsPermit
    rw [if_pos hsuper]
    exact ⟨true, s, rfl, hs, by simp⟩
  | false =>
    obtain ⟨b, s', hrun, hs', hb⟩ := hf.run_claimsPermit hsuper resource method hs
    exact ⟨b, s', hrun, hs', by simpa using hb⟩

/-- The permissions of some role names are all that the names stand for. -/
theorem run_effectivePermissions (hf : FindsRoles h I stands) (names : RoleSet) (hs : I s) :
    ∃ set s', (effectivePermissions names).run h s = (some (.ok set), s') ∧ I s' ∧
      ∀ key, key ∈ set ↔ ∃ name ∈ names, stands name key := by
  obtain ⟨roles, s', hanswer, hs', hstands⟩ := hf.several names.elems s hs
  refine ⟨permissionsFor roles, s', ?_, hs', fun key => ?_⟩
  · unfold effectivePermissions
    rw [bind_eq, run_ask_answer hanswer]
    rfl
  · rw [mem_permissionsFor]
    exact hstands key

end FindsRoles

def Host.Finds {σ : Type} (h : Host σ) (s : σ) (name : String) (key : PermissionKey) : Prop :=
  ∃ role s', h.answer (.findRole name) s = (some (.ok (some role)), s') ∧ role.Carries key

/-- At a state of a host, what claims are shown and what they are allowed agree: the keys listed are
those of the roles found under the names of the claims, they are the ones the caller is told, and a
caller that is no superuser is allowed exactly these. -/
structure Agrees {σ : Type} (h : Host σ) (s : σ) (claims : AccessClaims) (set : PermissionSet) :
    Prop where
  listed : ∃ s', (effectivePermissions claims.roles).run h s = (some (.ok set), s')
  told : ∃ s', (describeCaller claims).run h s = (some (.ok ⟨claims.subject, claims.email,
    claims.roles.elems, set.elems, claims.superuser, claims.expiry⟩), s')
  union : ∀ key, key ∈ set ↔ ∃ name ∈ claims.roles, h.Finds s name key
  allowed : claims.superuser = false → ∀ resource method, ∃ b s',
    (claimsPermit claims resource method).run h s = (some (.ok b), s') ∧
      (b = true ↔ (⟨resource, method⟩ : PermissionKey) ∈ set)

namespace FindsRoles

variable {σ : Type} {h : Host σ} {I : σ → Prop} {stands : String → PermissionKey → Prop} {s : σ}

theorem finds_iff (hf : FindsRoles h I stands) (hs : I s) {name : String} {key : PermissionKey} :
    h.Finds s name key ↔ stands name key := by
  obtain ⟨found, s', hanswer, -, hstands⟩ := hf.one name s hs
  rw [← hstands]
  constructor
  · rintro ⟨role, s'', hrole, hkey⟩
    rw [hanswer] at hrole
    obtain ⟨hsame, -⟩ := Prod.mk.inj hrole
    exact ⟨role, Except.ok.inj (Option.some.inj hsame), hkey⟩
  · rintro ⟨role, rfl, hkey⟩
    exact ⟨role, s', hanswer, hkey⟩

/-- Where roles are found, the list and the check agree. -/
theorem agrees (hf : FindsRoles h I stands) (hs : I s) (claims : AccessClaims) :
    ∃ set, Agrees h s claims set ∧ ∀ key, key ∈ set ↔ ∃ name ∈ claims.roles, stands name key := by
  obtain ⟨set, s', hrun, -, hset⟩ := hf.run_effectivePermissions claims.roles hs
  refine ⟨set, ⟨⟨s', hrun⟩, ⟨s', ?_⟩, fun key => ?_, fun hsuper resource method => ?_⟩, hset⟩
  · unfold describeCaller
    rw [bind_eq, run_bind hrun]
    rfl
  · simp only [hset, hf.finds_iff hs]
  · obtain ⟨b, s'', hpermit, -, hb⟩ := hf.run_claimsPermit hsuper resource method hs
    exact ⟨b, s'', hpermit, hb.trans (hset _).symm⟩

end FindsRoles

/-- Hosts that find roles carrying the same keys show the same permissions and allow the same. -/
theorem Agrees.same {σ τ : Type} {h : Host σ} {h' : Host τ} {s : σ} {s' : τ} {claims : AccessClaims}
    {set set' : PermissionSet} (ha : Agrees h s claims set) (ha' : Agrees h' s' claims set')
    (hset : ∀ key, key ∈ set ↔ key ∈ set') :
    ((effectivePermissions claims.roles).run h s).1 =
        ((effectivePermissions claims.roles).run h' s').1 ∧
      ∀ resource method, ((claimsPermit claims resource method).run h s).1 =
        ((claimsPermit claims resource method).run h' s').1 := by
  constructor
  · obtain ⟨t, hrun⟩ := ha.listed
    obtain ⟨t', hrun'⟩ := ha'.listed
    rw [hrun, hrun', SortedSet.eq_of_mem_iff PermissionKey.lt_irrefl hset]
  · intro resource method
    cases hsuper : claims.superuser with
    | true =>
      unfold claimsPermit
      rw [if_pos hsuper]
      rfl
    | false =>
      obtain ⟨b, t, hrun, hb⟩ := ha.allowed hsuper resource method
      obtain ⟨b', t', hrun', hb'⟩ := ha'.allowed hsuper resource method
      have hsame : b = b' := Bool.eq_iff_iff.mpr (hb.trans ((hset _).trans hb'.symm))
      rw [hrun, hrun', hsame]

namespace MemoryStore

/-- A name stands for the keys of the role defined under it. -/
def Stands (s : MemoryStore) (name : String) (key : PermissionKey) : Prop :=
  ∃ role, s.roles.get? name = some role ∧ role.Carries key

theorem findsRoles (ids : Nat → String) (entropy : Nat → Draw) (w : World MemoryStore) :
    FindsRoles ((MemoryStore.model ids).host entropy) (· = w) w.store.Stands where
  one := by
    rintro name _ rfl
    exact ⟨_, _, rfl, rfl, fun _ => Iff.rfl⟩
  several := by
    rintro names _ rfl
    refine ⟨_, _, rfl, rfl, fun key => ?_⟩
    simp only [List.mem_filterMap, Stands]
    constructor
    · rintro ⟨role, ⟨name, hname, hrole⟩, hkey⟩
      exact ⟨name, hname, role, hrole, hkey⟩
    · rintro ⟨name, hname, role, hrole, hkey⟩
      exact ⟨role, ⟨name, hname, hrole⟩, hkey⟩

end MemoryStore

end Turnstile
