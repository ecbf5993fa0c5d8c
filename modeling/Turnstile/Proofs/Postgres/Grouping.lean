import Mathlib.Data.List.Forall2
import Mathlib.Data.List.Induction
import Mathlib.Tactic.SplitIfs
import Turnstile.Postgres.RoleRow
import Turnstile.Proofs.Service.Permissions
import Turnstile.Proofs.Text.ByteOrder

/-! The roles made of rows: row after row is placed among them, and in the end each role holds the
permissions of its own rows and no others, whatever rows come between. -/

namespace Turnstile.Postgres

/-- The row in which a permission is joined with its role. -/
def permissionRow (role : String) (p : Permission) : RoleRow :=
  ⟨role, some p.name, some p.resource, some p.method⟩

def RoleRow.Complete (r : RoleRow) : Prop :=
  r.name.isSome ∧ r.resource.isSome ∧ r.method.isSome

instance (r : RoleRow) : Decidable r.Complete :=
  inferInstanceAs (Decidable (_ ∧ _ ∧ _))

def RoleRow.key? (r : RoleRow) : Option PermissionKey :=
  r.permission?.map Permission.key

/-- A row has a permission if it is the one in which this is joined with the role. -/
theorem permission?_eq_some {r : RoleRow} {p : Permission} (h : r.permission? = some p) :
    r = permissionRow r.role p := by
  rcases r with ⟨role, _ | name, _ | resource, _ | method⟩ <;> cases h
  rfl

theorem complete_iff {r : RoleRow} : r.Complete ↔ ∃ p, r.permission? = some p := by
  rcases r with ⟨role, _ | name, _ | resource, _ | method⟩ <;>
    simp [RoleRow.Complete, RoleRow.permission?]

/-- The permissions that some rows give to the role with a name. -/
def permissionsOf (rows : List RoleRow) (name : String) : List Permission :=
  (rows.filter (·.role = name)).filterMap RoleRow.permission?

theorem permissionsOf_append (rows rows' : List RoleRow) (name : String) :
    permissionsOf (rows ++ rows') name = permissionsOf rows name ++ permissionsOf rows' name := by
  unfold permissionsOf
  rw [List.filter_append, List.filterMap_append]

theorem permissionsOf_self (r : RoleRow) : permissionsOf [r] r.role = r.permission?.toList := by
  unfold permissionsOf
  rw [List.filter_cons_of_pos (by simp), List.filter_nil]
  cases h : r.permission? <;> simp [h]

theorem permissionsOf_other {r : RoleRow} {name : String} (h : r.role ≠ name) :
    permissionsOf [r] name = [] := by
  unfold permissionsOf
  rw [List.filter_cons_of_neg (by simpa using h)]
  rfl

theorem permissionsOf_of_not_mem {rows : List RoleRow} {name : String}
    (h : name ∉ rows.map RoleRow.role) : permissionsOf rows name = [] := by
  have hnone : rows.filter (·.role = name) = [] := List.filter_eq_nil_iff.mpr fun r hr hname =>
    h (of_decide_eq_true hname ▸ List.mem_map_of_mem hr)
  unfold permissionsOf
  rw [hnone, List.filterMap_nil]

/-- The permissions of a role are its rows without nulls, one for one. -/
theorem map_permissionsOf (rows : List RoleRow) (name : String) :
    (permissionsOf rows name).map (permissionRow name) =
      rows.filter fun r => r.role = name ∧ r.Complete := by
  induction rows with
  | nil => rfl
  | cons r rows ih =>
    rw [← List.singleton_append, permissionsOf_append, List.map_append, ih, List.filter_append]
    congr 1
    by_cases hname : r.role = name
    · subst hname
      rw [permissionsOf_self]
      cases hperm : r.permission? with
      | none =>
        have hnull : ¬ r.Complete := by simp [complete_iff, hperm]
        simp [hnull]
      | some p =>
        have hfull : r.Complete := complete_iff.mpr ⟨p, hperm⟩
        simp [hfull, ← permission?_eq_some hperm]
    · rw [permissionsOf_other hname]
      simp [hname]

def roleOf (rows : List RoleRow) (name : String) : Role :=
  ⟨name, permissionsOf rows name⟩

/-- A row that is placed among the roles that some rows make up is one more of these rows. -/
theorem place_map_roleOf {rows : List RoleRow} {r : RoleRow} {names : List String}
    (hincreasing : names.Pairwise (· < ·))
    (hnew : r.role ∉ names → permissionsOf rows r.role = []) :
    r.place (names.map (roleOf rows)) =
      (SortedSet.insertSorted r.role names).map (roleOf (rows ++ [r])) := by
  have hself : permissionsOf (rows ++ [r]) r.role =
      permissionsOf rows r.role ++ r.permission?.toList := by
    rw [permissionsOf_append, permissionsOf_self]
  have hother {name : String} (h : r.role ≠ name) :
      roleOf (rows ++ [r]) name = roleOf rows name := by
    unfold roleOf
    rw [permissionsOf_append, permissionsOf_other h, List.append_nil]
  have hothers {names : List String} (h : ∀ name ∈ names, r.role < name) :
      names.map (roleOf (rows ++ [r])) = names.map (roleOf rows) := by
    refine List.map_congr_left fun name hname => hother ?_
    rintro rfl
    exact String.lt_irrefl _ (h _ hname)
  induction names with
  | nil =>
    have hfirst : permissionsOf rows r.role = [] := hnew (by simp)
    simp [RoleRow.place, SortedSet.insertSorted, roleOf, hself, hfirst]
  | cons name names ih =>
    obtain ⟨hname, hincreasing⟩ := List.pairwise_cons.mp hincreasing
    unfold SortedSet.insertSorted
    rw [List.map_cons, RoleRow.place]
    change (if r.role < name then _ else if name < r.role then _ else _) = _
    split_ifs with hlt hgt
    · have hbefore : ∀ n ∈ name :: names, r.role < n := by
        intro n hn
        rcases List.mem_cons.mp hn with rfl | hn
        · exact hlt
        · exact String.lt_trans hlt (hname n hn)
      have hnone : permissionsOf rows r.role = [] :=
        hnew fun h => String.lt_irrefl _ (hbefore _ h)
      rw [List.map_cons, hothers hbefore, List.map_cons]
      simp [roleOf, hself, hnone]
    · have hne : r.role ≠ name := by
        rintro rfl
        exact hlt hgt
      rw [List.map_cons, hother hne, ih hincreasing fun h => hnew (by simp [hne, h])]
    · obtain rfl : r.role = name := LinearLT.connected hlt hgt
      rw [List.map_cons, hothers hname]
      simp [roleOf, hself]

def roleNames (rows : List RoleRow) : RoleSet :=
  .ofList (rows.map RoleRow.role)

theorem mem_roleNames {rows : List RoleRow} {name : String} :
    name ∈ (roleNames rows).elems ↔ ∃ r ∈ rows, r.role = name :=
  SortedSet.mem_ofList.trans List.mem_map

theorem roleNames_concat (rows : List RoleRow) (r : RoleRow) :
    (roleNames (rows ++ [r])).elems = SortedSet.insertSorted r.role (roleNames rows).elems := by
  unfold roleNames SortedSet.ofList
  rw [List.map_append, List.foldl_append]
  rfl

/-- All rows placed make up one role for each name. -/
theorem groupRoles_eq_map (rows : List RoleRow) :
    groupRoles rows = (roleNames rows).elems.map (roleOf rows) := by
  induction rows using List.reverseRecOn with
  | nil => rfl
  | append_singleton rows r ih =>
    have hnew (h : r.role ∉ (roleNames rows).elems) : permissionsOf rows r.role = [] :=
      permissionsOf_of_not_mem (mt SortedSet.mem_ofList.mpr h)
    rw [roleNames_concat, ← place_map_roleOf (roleNames rows).increasing hnew, ← ih]
    unfold groupRoles
    rw [List.foldl_append]
    rfl

theorem mem_groupRoles {rows : List RoleRow} {role : Role} :
    role ∈ groupRoles rows ↔ (∃ r ∈ rows, r.role = role.name) ∧
      role.permissions = permissionsOf rows role.name := by
  rw [groupRoles_eq_map, List.mem_map]
  constructor
  · rintro ⟨name, hname, rfl⟩
    exact ⟨mem_roleNames.mp hname, rfl⟩
  · rintro ⟨hname, hperms⟩
    obtain ⟨name, perms⟩ := role
    exact ⟨name, mem_roleNames.mpr hname, by rw [roleOf, ← hperms]⟩

/-- The rows of one role make up this role alone. -/
theorem groupRoles_filter {rows : List RoleRow} {role : Role} (h : role ∈ groupRoles rows) :
    groupRoles (rows.filter (·.role = role.name)) = [role] := by
  obtain ⟨⟨r, hr, hname⟩, hperms⟩ := mem_groupRoles.mp h
  have hnames : roleNames (rows.filter (·.role = role.name)) =
      ⟨[role.name], List.pairwise_singleton _ _⟩ := by
    refine SortedSet.eq_of_mem_iff String.lt_irrefl fun name => mem_roleNames.trans ?_
    refine Iff.trans ?_ List.mem_singleton.symm
    constructor
    · rintro ⟨r', hr', rfl⟩
      exact of_decide_eq_true (List.mem_filter.mp hr').2
    · rintro rfl
      exact ⟨r, List.mem_filter.mpr ⟨hr, decide_eq_true hname⟩, hname⟩
  have hsame : permissionsOf (rows.filter (·.role = role.name)) role.name = role.permissions := by
    unfold permissionsOf at hperms ⊢
    rw [List.filter_filter, hperms]
    simp only [Bool.and_self]
  rw [groupRoles_eq_map, hnames, List.map_singleton, roleOf, hsame]

/-- The roles made of some rows carry the keys of these rows. -/
theorem carries_groupRoles {rows : List RoleRow} {key : PermissionKey} :
    (∃ role ∈ groupRoles rows, role.Carries key) ↔ ∃ row ∈ rows, row.key? = some key := by
  constructor
  · rintro ⟨role, hrole, hkey⟩
    obtain ⟨p, hp, rfl⟩ := List.mem_map.mp hkey
    rw [(mem_groupRoles.mp hrole).2] at hp
    obtain ⟨row, hrow, hperm⟩ := List.mem_filterMap.mp hp
    exact ⟨row, (List.mem_filter.mp hrow).1, by simp [RoleRow.key?, hperm]⟩
  · rintro ⟨row, hrow, hkey⟩
    obtain ⟨p, hp, rfl⟩ := Option.map_eq_some_iff.mp hkey
    have hmem : p ∈ permissionsOf rows row.role :=
      List.mem_filterMap.mpr ⟨row, List.mem_filter.mpr ⟨hrow, by simp⟩, hp⟩
    exact ⟨roleOf rows row.role, mem_groupRoles.mpr ⟨⟨row, hrow, rfl⟩, rfl⟩,
      List.mem_map_of_mem hmem⟩

/-- Rows in another order make up the same roles, with their permissions in another order. -/
theorem groupRoles_perm {rows rows' : List RoleRow} (h : rows.Perm rows') :
    List.Forall₂ (fun role role' => role.name = role'.name ∧
      role.permissions.Perm role'.permissions) (groupRoles rows) (groupRoles rows') := by
  have hnames : roleNames rows = roleNames rows' :=
    SortedSet.eq_of_mem_iff String.lt_irrefl fun name => by
      unfold roleNames
      rw [SortedSet.mem_ofList, SortedSet.mem_ofList, (h.map RoleRow.role).mem_iff]
  rw [groupRoles_eq_map, groupRoles_eq_map, ← hnames, List.forall₂_map_left_iff,
    List.forall₂_map_right_iff]
  exact List.forall₂_same.mpr fun name _ => ⟨rfl, (h.filter _).filterMap _⟩

theorem key?_eq_some {r : RoleRow} {key : PermissionKey} :
    r.key? = some key ↔ ∃ name, r = ⟨r.role, some name, some key.resource, some key.method⟩ := by
  unfold RoleRow.key?
  rw [Option.map_eq_some_iff]
  constructor
  · rintro ⟨p, hp, rfl⟩
    exact ⟨p.name, permission?_eq_some hp⟩
  · rintro ⟨name, hr⟩
    rw [hr]
    exact ⟨⟨name, key.resource, key.method⟩, rfl, rfl⟩

/-- Roles made of rows have the rows' permissions and no others: they come in the order of the bytes
of their names, one for each name, and each holds the permissions of its complete rows, one for one
and in their order. The order of the rows matters only for that of the permissions of a role, a role
is the same without the rows of the others, and all roles together grant the keys of the complete
rows. -/
theorem grouping_faithful (rows : List RoleRow) :
    ((groupRoles rows).Pairwise fun a b => utf8 a.name < utf8 b.name) ∧
    (∀ name, (∃ role ∈ groupRoles rows, role.name = name) ↔ ∃ r ∈ rows, r.role = name) ∧
    (∀ role ∈ groupRoles rows, role.permissions.map (permissionRow role.name) =
      rows.filter fun r => r.role = role.name ∧ r.Complete) ∧
    (∀ rows', rows.Perm rows' →
      List.Forall₂ (fun role role' => role.name = role'.name ∧
        role.permissions.Perm role'.permissions) (groupRoles rows) (groupRoles rows')) ∧
    (∀ role ∈ groupRoles rows, groupRoles (rows.filter (·.role = role.name)) = [role]) ∧
    ∀ key, key ∈ permissionsFor (groupRoles rows) ↔
      ∃ role name, (⟨role, some name, some key.resource, some key.method⟩ : RoleRow) ∈ rows := by
  refine ⟨?_, fun name => ?_, fun role hrole => ?_, fun _ => groupRoles_perm,
    fun _ => groupRoles_filter, fun key => ?_⟩
  · rw [groupRoles_eq_map, List.pairwise_map]
    exact (roleNames rows).increasing.imp utf8_lt_iff.mpr
  · constructor
    · rintro ⟨role, hrole, rfl⟩
      exact (mem_groupRoles.mp hrole).1
    · rintro ⟨r, hr, rfl⟩
      exact ⟨roleOf rows r.role, mem_groupRoles.mpr ⟨⟨r, hr, rfl⟩, rfl⟩, rfl⟩
  · rw [(mem_groupRoles.mp hrole).2, map_permissionsOf]
  · rw [mem_permissionsFor, carries_groupRoles]
    constructor
    · rintro ⟨r, hr, hkey⟩
      obtain ⟨name, heq⟩ := key?_eq_some.mp hkey
      exact ⟨r.role, name, heq ▸ hr⟩
    · rintro ⟨role, name, hr⟩
      exact ⟨_, hr, key?_eq_some.mpr ⟨name, rfl⟩⟩

/-- Rows of two roles in turn, one of which is there with nulls only and one of whose permissions is
there twice, make the same roles as in another order. -/
theorem grouping_faithful_interleaved :
    let write : RoleRow := permissionRow "editor" ⟨"write", "/posts", "POST"⟩
    let read : RoleRow := permissionRow "editor" ⟨"read", "/posts", "GET"⟩
    let guest : RoleRow := ⟨"guest", none, none, none⟩
    let half : RoleRow := ⟨"editor", some "half", none, some "GET"⟩
    let rows := [guest, write, half, read, guest, write]
    let editor : Role := ⟨"editor", [⟨"write", "/posts", "POST"⟩, ⟨"read", "/posts", "GET"⟩,
      ⟨"write", "/posts", "POST"⟩]⟩
    groupRoles rows = [editor, ⟨"guest", []⟩] ∧
      rows.Perm [read, write, write, half, guest, guest] ∧
      List.Forall₂ (fun role role' => role.name = role'.name ∧
        role.permissions.Perm role'.permissions) (groupRoles rows)
        (groupRoles [read, write, write, half, guest, guest]) ∧
      editor.permissions.map (permissionRow "editor") = [write, read, write] := by
  intro write read guest half rows editor
  have hrows : groupRoles rows = [editor, ⟨"guest", []⟩] := by decide
  have hperm : rows.Perm [read, write, write, half, guest, guest] := by decide
  obtain ⟨-, -, hheld, hreorder, -⟩ := grouping_faithful rows
  refine ⟨hrows, hperm, hreorder _ hperm, ?_⟩
  exact (hheld editor (by simp [hrows])).trans (by decide)

end Turnstile.Postgres
