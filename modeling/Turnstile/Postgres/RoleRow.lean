import Turnstile.Role

/-! Rows of roles joined with their permissions. -/

namespace Turnstile.Postgres

/-- A role with one of its permissions, or with nulls where it has none. -/
structure RoleRow where
  role : String
  name : Option String
  resource : Option String
  method : Option String
  deriving Repr, DecidableEq

def RoleRow.permission? (r : RoleRow) : Option Permission := do
  return ⟨← r.name, ← r.resource, ← r.method⟩

/-- Some roles in order of their names, and a row among them: its permission goes behind those of its
role, which is a new one if it is not there yet. -/
def RoleRow.place (r : RoleRow) : List Role → List Role
  | [] => [⟨r.role, r.permission?.toList⟩]
  | role :: roles =>
    if r.role < role.name then ⟨r.role, r.permission?.toList⟩ :: role :: roles
    else if role.name < r.role then role :: r.place roles
    else { role with permissions := role.permissions ++ r.permission?.toList } :: roles

/-- One role for each name in the rows, in order of the names, with the permissions of its rows. -/
def groupRoles (rows : List RoleRow) : List Role :=
  rows.foldl (fun roles r => r.place roles) []

end Turnstile.Postgres
