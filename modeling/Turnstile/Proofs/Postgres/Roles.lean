import Mathlib.Tactic.SplitIfs
import Turnstile.Proofs.Postgres.Grouping
import Turnstile.Proofs.Postgres.Script
import Turnstile.Proofs.Store.Memory

/-! Roles found in a database, from the rows in which they are joined with their permissions. -/

namespace Turnstile

open Program

namespace Postgres

def RoleRow.columns (r : RoleRow) : List Value :=
  [.text r.role, Value.ofText? r.name, Value.ofText? r.resource, Value.ofText? r.method]

theorem roleRow_columns (r : RoleRow) : roleRow r.columns = .ok r := by
  rcases r with ⟨role, _ | name, _ | resource, _ | method⟩ <;> rfl

theorem mapM_roleRow_columns (rows : List RoleRow) :
    (rows.map RoleRow.columns).mapM roleRow = .ok rows := by
  induction rows with
  | nil => rfl
  | cons r rows ih =>
    rw [List.map_cons, List.mapM_cons, roleRow_columns, ih]
    rfl

/-- Rows of one role make up this role alone. -/
theorem head?_groupRoles {rows : List RoleRow} {name : String}
    (h : ∀ row ∈ rows, row.role = name) {role : Role} (hrole : role ∈ groupRoles rows) :
    (groupRoles rows).head? = some role := by
  have hall : rows.filter (·.role = role.name) = rows := by
    obtain ⟨⟨row, hrow, hname⟩, -⟩ := mem_groupRoles.mp hrole
    refine List.filter_eq_self.mpr fun r hr => decide_eq_true ?_
    rw [h r hr, ← h row hrow, hname]
  have hsingle := groupRoles_filter hrole
  rw [hall] at hsingle
  rw [hsingle]
  rfl

/-- The first role made of rows of one role carries the keys of these rows. -/
theorem carries_head?_groupRoles {rows : List RoleRow} {name : String} {key : PermissionKey}
    (h : ∀ row ∈ rows, row.role = name) :
    (∃ role, (groupRoles rows).head? = some role ∧ role.Carries key) ↔
      ∃ row ∈ rows, row.key? = some key := by
  rw [← carries_groupRoles]
  constructor
  · rintro ⟨role, hhead, hkey⟩
    exact ⟨role, List.mem_of_mem_head? hhead, hkey⟩
  · rintro ⟨role, hrole, hkey⟩
    exact ⟨role, head?_groupRoles h hrole, hkey⟩

/-- A database that holds some rows of roles, in the states in which it does: it answers the two
questions about roles with the rows of the role names asked for, in any order. -/
structure HoldsRoles {σ : Type} (database : Statement → σ → Except DbError Reply × σ)
    (rows : List RoleRow) (I : σ → Prop) : Prop where
  one : ∀ name s, I s → ∃ (found : List RoleRow) (affected : Nat) (s' : σ),
    database ⟨rolePermissions ++ " WHERE r.name = $1", [.text name]⟩ s =
      (.ok ⟨found.map RoleRow.columns, affected⟩, s') ∧ I s' ∧
      found.Perm (rows.filter (·.role = name))
  several : ∀ names s, I s → ∃ (found : List RoleRow) (affected : Nat) (s' : σ),
    database ⟨rolePermissions ++ " WHERE r.name = ANY($1)", [.texts names]⟩ s =
      (.ok ⟨found.map RoleRow.columns, affected⟩, s') ∧ I s' ∧
      found.Perm (rows.filter (·.role ∈ names))

def RowsStand (rows : List RoleRow) (name : String) (key : PermissionKey) : Prop :=
  ∃ row ∈ rows, row.role = name ∧ row.key? = some key

theorem exists_rowsStand {rows : List RoleRow} {p : String → Prop} {key : PermissionKey} :
    (∃ name, p name ∧ RowsStand rows name key) ↔
      ∃ row ∈ rows, p row.role ∧ row.key? = some key := by
  constructor
  · rintro ⟨name, hname, row, hrow, rfl, hkey⟩
    exact ⟨row, hrow, hname, hkey⟩
  · rintro ⟨row, hrow, hname, hkey⟩
    exact ⟨row.role, hname, row, hrow, rfl, hkey⟩

/-- Rows that are fetched are read back. -/
theorem run_fetchAll_roleRow {σ β : Type} {database : Statement → σ → Except DbError Reply × σ}
    {statement : Statement} {rows : List RoleRow} {affected : Nat} {s s' : σ}
    (h : database statement s = (.ok ⟨rows.map RoleRow.columns, affected⟩, s'))
    (f : List RoleRow → Script β) :
    model.run database (Script.fetchAll roleRow statement >>= f) s =
      model.run database (f rows) s' := by
  rw [Script.bind_eq, Script.run_bind, Script.run_fetchAll h, mapM_roleRow_columns]
  rfl

/-- A database that holds rows of roles finds the roles that they make up. -/
theorem HoldsRoles.findsRoles {σ : Type} {database : Statement → σ → Except DbError Reply × σ}
    {rows : List RoleRow} {I : σ → Prop} (hd : HoldsRoles database rows I)
    (entropy : Nat → Draw) :
    FindsRoles ((model database).host entropy) (fun w => I w.store) (RowsStand rows) where
  one := by
    intro name w hw
    obtain ⟨found, affected, s', hreply, hs', hperm⟩ := hd.one name w.store hw
    have hrow : ∀ row, row ∈ found ↔ row ∈ rows ∧ row.role = name := fun row => by
      rw [hperm.mem_iff, List.mem_filter, decide_eq_true_eq]
    have hran : model database w.clock (.findRole name) w.store =
        (.ok (groupRoles found).head?, s') := run_fetchAll_roleRow hreply _
    refine ⟨(groupRoles found).head?, { w with store := s' }, ?_, hs', fun key => ?_⟩
    · simp only [StoreModel.host, hran]
    · rw [carries_head?_groupRoles fun row h => ((hrow row).mp h).2]
      simp only [hrow, RowsStand, and_assoc]
  several := by
    intro names w hw
    by_cases hnames : names = []
    · subst hnames
      exact ⟨[], w, rfl, hw, by simp⟩
    obtain ⟨found, affected, s', hreply, hs', hperm⟩ := hd.several names w.store hw
    have hrow : ∀ row, row ∈ found ↔ row ∈ rows ∧ row.role ∈ names := fun row => by
      rw [hperm.mem_iff, List.mem_filter, decide_eq_true_eq]
    have hran : model database w.clock (.rolesByNames names) w.store =
        (.ok (groupRoles found), s') := by
      change model.run database (rolesByNames names) w.store = _
      unfold rolesByNames
      rw [if_neg hnames]
      exact run_fetchAll_roleRow hreply _
    refine ⟨groupRoles found, { w with store := s' }, ?_, hs', fun key => ?_⟩
    · simp only [StoreModel.host, hran]
    · rw [carries_groupRoles, exists_rowsStand]
      simp only [hrow, and_assoc]

/-- The rows in which a role is joined with its permissions, a single one with nulls if there are
none. -/
def joinRows (role : Role) : List RoleRow :=
  if role.permissions = [] then [⟨role.name, none, none, none⟩]
  else role.permissions.map fun p => ⟨role.name, some p.name, some p.resource, some p.method⟩

theorem role_of_mem_joinRows {role : Role} {row : RoleRow} (h : row ∈ joinRows role) :
    row.role = role.name := by
  unfold joinRows at h
  split_ifs at h
  · obtain rfl := List.mem_singleton.mp h
    rfl
  · obtain ⟨p, -, rfl⟩ := List.mem_map.mp h
    rfl

theorem carries_iff_joinRows {role : Role} {key : PermissionKey} :
    role.Carries key ↔ ∃ row ∈ joinRows role, row.key? = some key := by
  unfold joinRows Role.Carries
  split_ifs with hnone
  · simp [hnone, RoleRow.key?, RoleRow.permission?]
  · have hkey (p : Permission) :
        RoleRow.key? ⟨role.name, some p.name, some p.resource, some p.method⟩ = some p.key := rfl
    constructor
    · intro h
      obtain ⟨p, hp, rfl⟩ := List.mem_map.mp h
      exact ⟨_, List.mem_map_of_mem hp, hkey p⟩
    · rintro ⟨row, hrow, h⟩
      obtain ⟨p, hp, rfl⟩ := List.mem_map.mp hrow
      exact List.mem_map.mpr ⟨p, hp, Option.some.inj ((hkey p).symm.trans h)⟩

/-- The rows of some roles stand for what these roles carry. -/
theorem rowsStand_joinRows {roles : List Role} {name : String} {key : PermissionKey} :
    RowsStand (roles.flatMap joinRows) name key ↔
      ∃ role ∈ roles, role.name = name ∧ role.Carries key := by
  constructor
  · rintro ⟨row, hrow, rfl, hkey⟩
    obtain ⟨role, hrole, hrow⟩ := List.mem_flatMap.mp hrow
    exact ⟨role, hrole, (role_of_mem_joinRows hrow).symm, carries_iff_joinRows.mpr ⟨row, hrow, hkey⟩⟩
  · rintro ⟨role, hrole, rfl, hkey⟩
    obtain ⟨row, hrow, hkey⟩ := carries_iff_joinRows.mp hkey
    exact ⟨row, List.mem_flatMap.mpr ⟨role, hrole, hrow⟩, role_of_mem_joinRows hrow, hkey⟩

/-- A store in memory in which just some roles are defined, each under its name. -/
def Defines (store : MemoryStore) (roles : List Role) : Prop :=
  ∀ name role, store.roles.get? name = some role ↔ role ∈ roles ∧ role.name = name

theorem defines_empty : Defines {} [] := by
  simp [Defines]

/-- One more role is defined under a name of its own. -/
theorem Defines.insertRole {store : MemoryStore} {roles : List Role} (h : Defines store roles)
    {role : Role} (hnew : ∀ r ∈ roles, r.name ≠ role.name) :
    Defines (store.insertRole role) (role :: roles) := by
  intro name r
  rw [MemoryStore.insertRole, Table.get?_insert, List.mem_cons]
  split_ifs with hname
  · rw [Option.some.injEq]
    constructor
    · rintro rfl
      exact ⟨.inl rfl, hname.symm⟩
    · rintro ⟨rfl | hr, hrname⟩
      · rfl
      · exact absurd (hrname.trans hname) (hnew r hr)
  · rw [h name r]
    constructor
    · rintro ⟨hr, hrname⟩
      exact ⟨.inr hr, hrname⟩
    · rintro ⟨rfl | hr, hrname⟩
      · exact absurd hrname.symm hname
      · exact ⟨hr, hrname⟩

/-- Roles that are defined in memory stand for what their rows stand for. -/
theorem Defines.stands_iff {store : MemoryStore} {roles : List Role} (hroles : Defines store roles)
    {rows : List RoleRow} (hrows : rows.Perm (roles.flatMap joinRows)) {name : String}
    {key : PermissionKey} : store.Stands name key ↔ RowsStand rows name key := by
  have hperm : RowsStand rows name key ↔ RowsStand (roles.flatMap joinRows) name key :=
    exists_congr fun row => and_congr_left fun _ => hrows.mem_iff
  rw [hperm, rowsStand_joinRows]
  simp only [MemoryStore.Stands, hroles name, and_assoc]

/-- What a caller is shown agrees with what it is allowed, over the store in memory and over a
database that holds the rows of roles, and both stores agree where the same roles are defined. -/
theorem list_agrees_with_check :
    (∀ (ids : Nat → String) (entropy : Nat → Draw) (w : World MemoryStore) (claims : AccessClaims),
      ∃ set, Agrees ((MemoryStore.model ids).host entropy) w claims set) ∧
    ∀ (σ : Type) (database : Statement → σ → Except DbError Reply × σ) (rows : List RoleRow)
      (I : σ → Prop), HoldsRoles database rows I →
      ∀ (entropy : Nat → Draw) (v : World σ), I v.store →
        (∀ claims : AccessClaims, ∃ set, Agrees ((model database).host entropy) v claims set ∧
          ∀ key, key ∈ set ↔ ∃ row ∈ rows, row.role ∈ claims.roles ∧ row.key? = some key) ∧
        ∀ roles : List Role, rows.Perm (roles.flatMap joinRows) →
          ∀ (ids : Nat → String) (entropy' : Nat → Draw) (w : World MemoryStore),
            Defines w.store roles →
            ∀ claims : AccessClaims,
              ((effectivePermissions claims.roles).run ((model database).host entropy) v).1 =
                ((effectivePermissions claims.roles).run ((MemoryStore.model ids).host entropy') w).1 ∧
              ∀ resource method,
                ((claimsPermit claims resource method).run ((model database).host entropy) v).1 =
                  ((claimsPermit claims resource method).run
                    ((MemoryStore.model ids).host entropy') w).1 := by
  refine ⟨fun ids entropy w claims => ?_, fun σ database rows I hd entropy v hv => ?_⟩
  · obtain ⟨set, hagrees, -⟩ := (MemoryStore.findsRoles ids entropy w).agrees rfl claims
    exact ⟨set, hagrees⟩
  have hrows := hd.findsRoles entropy
  refine ⟨fun claims => ?_, fun roles hperm ids entropy' w hroles claims => ?_⟩
  · obtain ⟨set, hagrees, hset⟩ := hrows.agrees hv claims
    exact ⟨set, hagrees, fun key => (hset key).trans exists_rowsStand⟩
  · obtain ⟨set, hagrees, hset⟩ := hrows.agrees hv claims
    obtain ⟨set', hagrees', hset'⟩ := (MemoryStore.findsRoles ids entropy' w).agrees rfl claims
    refine hagrees.same hagrees' fun key => ?_
    rw [hset, hset']
    exact exists_congr fun name => and_congr_right fun _ => (hroles.stands_iff hperm).symm

/-- A database of nothing but rows of roles, which returns several roles back to front. -/
def tabled (rows : List RoleRow) (statement : Statement) (s : Unit) :
    Except DbError Reply × Unit :=
  match statement.params with
  | [.text name] => (.ok ⟨(rows.filter (·.role = name)).map RoleRow.columns, 0⟩, s)
  | [.texts names] => (.ok ⟨(rows.filter (·.role ∈ names)).reverse.map RoleRow.columns, 0⟩, s)
  | _ => (.ok {}, s)

theorem tabled_holdsRoles (rows : List RoleRow) : HoldsRoles (tabled rows) rows fun _ => True where
  one _ s _ := ⟨_, 0, s, rfl, trivial, List.Perm.refl _⟩
  several _ s _ := ⟨_, 0, s, rfl, trivial, List.reverse_perm _⟩

/-- An editor is allowed over the database what it is allowed in memory, beside a role without
permissions and one that is not defined. -/
theorem list_agrees_with_check_editor :
    let editor : Role := ⟨"editor", [⟨"write", "/posts", "POST"⟩]⟩
    let guest : Role := ⟨"guest", []⟩
    let rows := [guest, editor].flatMap joinRows
    let store := (MemoryStore.insertRole editor {}).insertRole guest
    let claims : AccessClaims :=
      ⟨"ada", "ada@example.com", .ofList ["nobody", "guest", "editor"], 0, false⟩
    HoldsRoles (tabled rows) rows (fun _ => True) ∧ Defines store [guest, editor] ∧
      ∀ entropy : Nat → Draw,
        ((claimsPermit claims "/posts" "POST").run ((model (tabled rows)).host entropy)
          ⟨(), 0, 0⟩).1 = some (.ok true) ∧
        ((claimsPermit claims "/posts" "GET").run ((model (tabled rows)).host entropy)
          ⟨(), 0, 0⟩).1 = some (.ok false) := by
  intro editor guest rows store claims
  have hholds : HoldsRoles (tabled rows) rows fun _ => True := tabled_holdsRoles rows
  have hstore : Defines store [guest, editor] :=
    (defines_empty.insertRole (by simp)).insertRole (by simp [guest, editor])
  refine ⟨hholds, hstore, fun entropy => ?_⟩
  have hsame := ((list_agrees_with_check.2 Unit (tabled rows) rows (fun _ => True) hholds entropy
    ⟨(), 0, 0⟩ trivial).2 [guest, editor] (List.Perm.refl _) serialId entropy ⟨store, 0, 0⟩ hstore
    claims).2
  exact ⟨(hsame _ _).trans (by rfl), (hsame _ _).trans (by rfl)⟩

end Postgres

end Turnstile
