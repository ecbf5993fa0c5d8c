import Turnstile.Role
import Turnstile.Time

/-! Users, the identities tokens are issued for, and what is stored about refresh tokens. -/

namespace Turnstile

structure User where
  id : String
  email : String
  name : Option String
  deriving Repr, DecidableEq

/-- A user with the hash of the password, if a password was set. -/
structure Credentials where
  user : User
  passwordHash : Option String
  deriving Repr, DecidableEq

/-- A user just created. `isFirst` holds for the first user of a store only. -/
structure CreatedUser where
  id : String
  isFirst : Bool
  deriving Repr, DecidableEq

structure Principal where
  subject : String
  email : String
  roles : RoleSet
  deriving DecidableEq

/-- What is stored about a user's refresh token: never the token itself. -/
structure RefreshRecord where
  userId : String
  tokenHash : String
  expiresAt : Nanos
  createdAt : Nanos
  deriving Repr, DecidableEq

structure TokenPair where
  access : String
  refresh : String
  deriving Repr, DecidableEq

def User.format : Json.Format User where
  fields := [Json.required "id" Json.readText, Json.required "email" Json.readText,
    Json.optional "name" Json.readText]
  values u := [.text u.id, .text u.email, Json.ofText? u.name]
  build
    | [.text id, .text email, name] => some ⟨id, email, name.text?⟩
    | _ => none

end Turnstile
