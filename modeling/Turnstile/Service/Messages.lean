import Turnstile.Role

/-! The bodies of requests and responses. -/

namespace Turnstile

structure LoginRequest where
  email : String
  password : String
  deriving Repr, DecidableEq

structure RegisterRequest where
  email : String
  password : String
  name : Option String
  deriving Repr, DecidableEq

/-- The body of a refresh or a logout: the refresh token. -/
structure RefreshRequest where
  refreshToken : String
  deriving Repr, DecidableEq

/-- The answer to a login, registration or refresh. -/
structure TokenResponse where
  accessToken : String
  refreshToken : String
  tokenType : String
  /-- The lifetime of the access token in seconds. -/
  expiresIn : Int
  deriving Repr, DecidableEq

structure MessageResponse where
  detail : String
  deriving Repr, DecidableEq

abbrev CheckPermissionQuery := PermissionKey

structure MeResponse where
  userId : String
  email : String
  roles : List String
  /-- The permissions of the roles; a superuser passes every check regardless. -/
  permissions : List PermissionKey
  superuser : Bool
  expiresAt : Int
  deriving Repr, DecidableEq

def LoginRequest.format : Json.Format LoginRequest where
  fields := [Json.required "email" Json.readText, Json.required "password" Json.readText]
  values r := [.text r.email, .text r.password]
  build
    | [.text email, .text password] => some ⟨email, password⟩
    | _ => none

/-- The JSON form of a registration. Written as a list, it may end before the name. -/
def RegisterRequest.format : Json.Format RegisterRequest where
  fields := [Json.required "email" Json.readText, Json.required "password" Json.readText,
    { Json.optional "name" Json.readText with trailing := true }]
  values r := [.text r.email, .text r.password, Json.ofText? r.name]
  build
    | [.text email, .text password, name] => some ⟨email, password, name.text?⟩
    | _ => none

def RefreshRequest.format : Json.Format RefreshRequest where
  fields := [Json.required "refresh_token" Json.readText]
  values r := [.text r.refreshToken]
  build
    | [.text refreshToken] => some ⟨refreshToken⟩
    | _ => none

def TokenResponse.format : Json.Format TokenResponse where
  fields := [Json.required "access_token" Json.readText,
    Json.required "refresh_token" Json.readText, Json.required "token_type" Json.readText,
    Json.required "expires_in" Json.readInt64]
  values r := [.text r.accessToken, .text r.refreshToken, .text r.tokenType, .int r.expiresIn]
  build
    | [.text accessToken, .text refreshToken, .text tokenType, .int expiresIn] =>
      some ⟨accessToken, refreshToken, tokenType, expiresIn⟩
    | _ => none

def MessageResponse.format : Json.Format MessageResponse where
  fields := [Json.required "detail" Json.readText]
  values r := [.text r.detail]
  build
    | [.text detail] => some ⟨detail⟩
    | _ => none

def MeResponse.format : Json.Format MeResponse where
  fields := [Json.required "user_id" Json.readText, Json.required "email" Json.readText,
    Json.required "roles" (Json.readList Json.readText),
    Json.required "permissions" (Json.readList PermissionKey.format.json),
    Json.required "is_superuser" Json.readBool, Json.required "expires_at" Json.readInt64]
  values r := [.text r.userId, .text r.email, Json.texts r.roles,
    .list (r.permissions.map PermissionKey.format.toJson), .bool r.superuser, .int r.expiresAt]
  build
    | [.text userId, .text email, roles, permissions, .bool superuser, .int expiresAt] =>
      (PermissionKey.format.ofItems? permissions).map
        (⟨userId, email, roles.textsIn, ·, superuser, expiresAt⟩)
    | _ => none

end Turnstile
