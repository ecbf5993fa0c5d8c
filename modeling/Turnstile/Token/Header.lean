import Turnstile.Error
import Turnstile.Token.Jwk
import Turnstile.Json.Shape

/-! Token headers. -/

namespace Turnstile.Header

def toJson (a : Algorithm) : Json :=
  .record [("typ", .text "JWT"), ("alg", .text a.name)]

/-- The members a header may have; only the algorithm must be there. -/
def fields : List Json.Field :=
  [Json.optional "typ" Json.readText,
    Json.required "alg" (Json.readChoice (Algorithm.all.map Algorithm.name)),
    Json.optional "cty" Json.readText,
    Json.optional "jku" Json.readText,
    Json.optional "jwk" Jwk.read,
    Json.optional "kid" Json.readText,
    Json.optional "x5u" Json.readText,
    Json.optional "x5c" (Json.readList Json.readText),
    Json.optional "x5t" Json.readText,
    Json.optional "x5t#S256" Json.readText]

def algorithm (b : Bytes) : Except Json.Fault Algorithm :=
  Json.readAll read b
where
  /-- Reads a header. -/
  read : Json.Reader Algorithm := do
    match ← Json.readFields fields with
    | _ :: .text name :: _ =>
      match Algorithm.ofName? name with
      | some a => return a
      | none => throw .shape
    | _ => throw .shape

end Turnstile.Header
