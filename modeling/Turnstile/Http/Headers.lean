import Turnstile.Service.ApiError
import Turnstile.Text.Blank
import Turnstile.Text.Utf8

/-! Request headers and the bearer token in them. -/

namespace Turnstile.Http

/-- Header lines in order. Names compare without regard to ASCII case. -/
abbrev Headers := List (String × Bytes)

def lowerName (name : String) : String :=
  String.ofList (name.toList.map Char.toLower)

/-- The value of the first header line with a name, given in lower case. -/
def Headers.first? (h : Headers) (name : String) : Option Bytes :=
  (h.find? fun line => lowerName line.1 = name).map (·.2)

/-- A header value as text, if it consists of visible ASCII characters, spaces and tabs. -/
def headerText? (value : Bytes) : Option String :=
  if value.all fun b => (0x20 ≤ b && b < 0x7f) || b = 0x09 then
    some (String.ofList (value.map fun b => Char.ofNat b.toNat))
  else none

/-- The token of the first `Authorization` header, without blanks around it. -/
def bearerToken (h : Headers) : Except ApiError String :=
  match (h.first? "authorization").bind headerText? with
  | none => .error (.unauthorized "Missing authorization header")
  | some value =>
    let scheme := "Bearer ".toList
    let token := trimBlanks (value.toList.drop scheme.length)
    if scheme.isPrefixOf value.toList ∧ token ≠ [] then .ok (String.ofList token)
    else .error (.unauthorized "Invalid authorization scheme")

end Turnstile.Http
