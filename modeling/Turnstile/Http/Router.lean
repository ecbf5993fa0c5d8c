import Turnstile.Http.Message
import Turnstile.Service.Accounts

/-! The routes of the API. -/

namespace Turnstile.Http

open Program

inductive Route where
  | login
  | register
  | refresh
  | logout
  | checkPermission
  | me
  deriving Repr, DecidableEq

namespace Route

def all : List Route := [login, register, refresh, logout, checkPermission, me]

def path : Route → String
  | login => "/auth/login"
  | register => "/auth/register"
  | refresh => "/auth/refresh"
  | logout => "/auth/logout"
  | checkPermission => "/auth/check-permission"
  | me => "/auth/me"

/-- The route with a path, in exactly that spelling. -/
def ofPath? (path : String) : Option Route :=
  all.find? fun r => r.path = path

/-- The methods a route answers. A route that answers `GET` answers `HEAD` without a body. -/
def methods : Route → List String
  | login | register | refresh | logout => ["POST"]
  | checkPermission | me => ["GET", "HEAD"]

def allow (r : Route) : String × String :=
  ("allow", String.intercalate "," r.methods)

end Route

def respond {α : Type} (format : Json.Format α) (p : Program α) : Program Response := do
  match ← p.attempt with
  | .ok a => return .ofJson 200 (format.toJson a)
  | .error e => return .ofError (.ofAuth e)

/-- The response to what a request carries, or to its refusal. -/
def withPart {α : Type} (part : Except Rejection α) (next : α → Program Response) :
    Program Response :=
  match part with
  | .ok a => next a
  | .error e => return .ofRejection e

/-- The response for the bearer of a token, or for a missing one. -/
def withBearer (r : Request) (next : String → Program Response) : Program Response :=
  match bearerToken r.headers with
  | .ok token => next token
  | .error e => return .ofError e

def withCaller (c : Codec) (r : Request) (next : AccessClaims → Program Response) :
    Program Response :=
  withBearer r fun token => do
    match ← (c.checkAccess token).attempt with
    | .ok claims => next claims
    | .error e => return .ofError (.ofAuth e)

def handle (c : Codec) (r : Request) : Route → Program Response
  | .login =>
    withPart (r.json LoginRequest.format) fun body =>
      respond TokenResponse.format (c.login body.email body.password)
  | .register =>
    withPart (r.json RegisterRequest.format) fun body =>
      respond TokenResponse.format (c.register body.email body.password body.name)
  | .refresh =>
    withPart (r.json RefreshRequest.format) fun body =>
      respond TokenResponse.format (c.refresh body.refreshToken)
  | .logout =>
    withPart (r.json RefreshRequest.format) fun body =>
      withBearer r fun access =>
        respond MessageResponse.format (c.logout access body.refreshToken)
  | .checkPermission =>
    withPart r.permission fun asked =>
      withBearer r fun access =>
        respond MessageResponse.format (c.confirmPermission access asked.resource asked.method)
  | .me =>
    withCaller c r fun claims => respond MeResponse.format (describeCaller claims)

/-- The response of a route to any method. Only a caller whose token is in force learns that `me`
does not answer a method. -/
def dispatch (c : Codec) (r : Request) (route : Route) : Program Response :=
  if r.method ∈ route.methods then handle c r route
  else
    match route with
    | .me => withCaller c r fun _ => return ⟨405, [], .empty⟩
    | _ => return ⟨405, [], .empty⟩

/-- The response of all routes. Whether a path is unknown is told only to a caller whose token is
in force. -/
def routed (c : Codec) (r : Request) : Program Response :=
  match Route.ofPath? r.path with
  | some route => dispatch c r route
  | none => withCaller c r fun _ => return ⟨404, [], .empty⟩

def sharingHeaders : List (String × String) :=
  [("access-control-allow-origin", "*"),
    ("vary", "origin, access-control-request-method, access-control-request-headers")]

/-- The header that tells the methods of a route to a request with another method. -/
def allowHeaders (r : Request) : List (String × String) :=
  match Route.ofPath? r.path with
  | some route => if r.method ∈ route.methods then [] else [route.allow]
  | none => []

/-- The response to a page that asks what it may send: anything. -/
def preflight : Response :=
  ⟨200, [("access-control-allow-methods", "*"), ("access-control-allow-headers", "*")], .empty⟩

/-- A response as it is sent: without its body for `HEAD`. -/
def sent (r : Request) (response : Response) : Response :=
  let response := response.withHeaders (allowHeaders r ++ sharingHeaders)
  if r.method = "HEAD" then { response with body := .empty } else response

def serve (c : Codec) (r : Request) : Program Response :=
  if r.method = "OPTIONS" then return sent r preflight
  else do
    let response ← routed c r
    return sent r response

def timedOut (r : Request) : Response :=
  sent r ⟨408, [], .empty⟩

/-- The response to a request over a host, and the state after it. -/
def run {σ : Type} (h : Host σ) (c : Codec) (r : Request) (s : σ) : Response × σ :=
  match (serve c r).run h s with
  | (none, s) => (timedOut r, s)
  | (some (.ok response), s) => (response, s)
  | (some (.error e), s) => (sent r (.ofError (.ofAuth e)), s)

end Turnstile.Http
