import Turnstile.Http.Headers
import Turnstile.Http.MediaType
import Turnstile.Http.Query
import Turnstile.Role

/-! Requests, responses, and reading what a request carries. -/

namespace Turnstile.Http

/-- A request. The target is a path with an optional query. -/
structure Request where
  method : String
  target : String
  headers : Headers := []
  body : Bytes := []
  deriving Repr, DecidableEq

inductive Body where
  | empty
  | json (value : Json)
  | text (text : String)

structure Response where
  status : Nat
  headers : List (String × String) := []
  body : Body := .empty

def Request.resource (r : Request) : List Char :=
  r.target.toList.takeWhile (· ≠ '#')

/-- The path of a target, as it is written. -/
def Request.path (r : Request) : String :=
  String.ofList (r.resource.takeWhile (· ≠ '?'))

def Request.query (r : Request) : Bytes :=
  utf8 (String.ofList ((r.resource.dropWhile (· ≠ '?')).drop 1))

inductive Rejection where
  | mediaType
  | tooLarge
  | notJson
  | otherJson
  | query
  deriving Repr, DecidableEq

def Rejection.status : Rejection → Nat
  | mediaType => 415
  | tooLarge => 413
  | notJson => 400
  | otherJson => 422
  | query => 400

def Rejection.text : Rejection → String
  | mediaType => "Expected request with `Content-Type: application/json`"
  | tooLarge => "Failed to buffer the request body: length limit exceeded"
  | notJson => "Failed to parse the request body as JSON"
  | otherJson => "Failed to deserialize the JSON body into the target type"
  | query => "Failed to deserialize query string"

/-- The longest body that is read: two mebibytes. -/
def maxBodyBytes : Nat := 2 * 1024 * 1024

def Request.saysJson (r : Request) : Bool :=
  ((r.headers.first? "content-type").bind headerText?).any isJsonType

def Request.json {α : Type} (r : Request) (format : Json.Format α) : Except Rejection α :=
  if ¬ r.saysJson then .error .mediaType
  else if maxBodyBytes < r.body.length then .error .tooLarge
  else
    match format.parse r.body with
    | .ok a => .ok a
    | .error .grammar => .error .notJson
    | .error .shape => .error .otherJson

/-- The permission asked for by a query. Each of the two names must occur once. -/
def Request.permission (r : Request) : Except Rejection PermissionKey :=
  let pairs := queryPairs r.query
  match onlyValue? pairs "resource", onlyValue? pairs "http_method" with
  | some resource, some method => .ok ⟨resource, method⟩
  | _, _ => .error .query

namespace Response

def ofJson (status : Nat) (value : Json) : Response :=
  ⟨status, [("content-type", "application/json")], .json value⟩

def ofError (e : ApiError) : Response :=
  ofJson e.status e.body

def ofRejection (r : Rejection) : Response :=
  ⟨r.status, [("content-type", "text/plain; charset=utf-8")], .text r.text⟩

def withHeaders (r : Response) (headers : List (String × String)) : Response :=
  { r with headers := r.headers ++ headers }

end Response

end Turnstile.Http
