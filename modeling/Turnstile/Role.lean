import Turnstile.SortedSet
import Turnstile.Json.Format

/-! Roles and the permissions they grant. -/

namespace Turnstile

/-- What authorization is decided on: a resource and a method, both compared exactly. -/
structure PermissionKey where
  resource : String
  method : String
  deriving Repr, DecidableEq

structure Permission where
  name : String
  resource : String
  method : String
  deriving Repr, DecidableEq

structure Role where
  name : String
  permissions : List Permission
  deriving Repr, DecidableEq

/-- The role that passes every permission check. -/
def superadminRole : String := "superadmin"

abbrev RoleSet := SortedSet String

namespace PermissionKey

/-- Keys are ordered by resource, then by method. -/
protected def lt (a b : PermissionKey) : Prop :=
  a.resource < b.resource ∨ (a.resource = b.resource ∧ a.method < b.method)

instance : LT PermissionKey := ⟨PermissionKey.lt⟩

instance : DecidableLT PermissionKey := fun a b =>
  inferInstanceAs (Decidable (a.resource < b.resource ∨
    (a.resource = b.resource ∧ a.method < b.method)))

instance : LinearLT PermissionKey where
  trans {a b c} hab hbc := by
    rcases hab with hab | ⟨e, hab⟩
    · rcases hbc with hbc | ⟨f, _⟩
      · exact .inl (String.lt_trans hab hbc)
      · exact .inl (f ▸ hab)
    · rcases hbc with hbc | ⟨f, hbc⟩
      · exact .inl (e ▸ hbc)
      · exact .inr ⟨e.trans f, String.lt_trans hab hbc⟩
  connected {a b} hab hba := by
    have hr : a.resource = b.resource :=
      LinearLT.connected (fun h => hab (.inl h)) (fun h => hba (.inl h))
    have hm : a.method = b.method :=
      LinearLT.connected (fun h => hab (.inr ⟨hr, h⟩)) (fun h => hba (.inr ⟨hr.symm, h⟩))
    cases a
    cases b
    simp_all

def format : Json.Format PermissionKey where
  fields := [Json.required "resource" Json.readText, Json.required "http_method" Json.readText]
  values k := [.text k.resource, .text k.method]
  build
    | [.text resource, .text method] => some ⟨resource, method⟩
    | _ => none

end PermissionKey

abbrev PermissionSet := SortedSet PermissionKey

namespace Permission

/-- The key of a permission, without its display name. -/
def key (p : Permission) : PermissionKey :=
  ⟨p.resource, p.method⟩

def allows (p : Permission) (resource method : String) : Bool :=
  p.resource = resource && p.method = method

def format : Json.Format Permission where
  fields := [Json.required "name" Json.readText, Json.required "resource" Json.readText,
    Json.required "http_method" Json.readText]
  values p := [.text p.name, .text p.resource, .text p.method]
  build
    | [.text name, .text resource, .text method] => some ⟨name, resource, method⟩
    | _ => none

end Permission

namespace Role

def grants (r : Role) (resource method : String) : Bool :=
  r.permissions.any fun p => p.allows resource method

def format : Json.Format Role where
  fields := [Json.required "name" Json.readText,
    Json.required "permissions" (Json.readList Permission.format.json)]
  values r := [.text r.name, .list (r.permissions.map Permission.format.toJson)]
  build
    | [.text name, permissions] => (Permission.format.ofItems? permissions).map (⟨name, ·⟩)
    | _ => none

end Role

def permissionsFor (roles : List Role) : PermissionSet :=
  SortedSet.ofList (roles.flatMap fun r => r.permissions.map Permission.key)

end Turnstile
