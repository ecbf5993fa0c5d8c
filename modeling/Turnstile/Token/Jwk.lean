import Turnstile.Json.Outline

/-! Public keys that a token header may carry. -/

namespace Turnstile.Jwk

open Turnstile.Json (Outline)

def named (members : List (String × Outline)) (name : String) : List Outline :=
  (members.filter fun m => m.1 = name).map (·.2)

/-- Whether a member occurs at most once, and then holds null or something of a kind. -/
def optional (members : List (String × Outline)) (name : String) (kind : Outline → Bool) : Bool :=
  match named members name with
  | [] => true
  | [.null] => true
  | [v] => kind v
  | _ => false

/-- Whether a member occurs exactly once and holds something of a kind. -/
def required (members : List (String × Outline)) (name : String) (kind : Outline → Bool) : Bool :=
  match named members name with
  | [v] => kind v
  | _ => false

def isText (v : Outline) : Bool := v.text?.isSome

def isTextList : Outline → Bool
  | .list items => items.all isText
  | _ => false

/-- One of some names, as a text or as the only member of a record, with the value null. -/
def isChoice (names : List String) : Outline → Bool
  | .text s => names.contains s
  | .record [(s, .null)] => names.contains s
  | _ => false

/-- One of some names; as the member of a record, its value may also be an empty record. -/
def isLooseChoice (names : List String) : Outline → Bool
  | .record [(s, .record [])] => names.contains s
  | v => isChoice names v

def keyAlgorithms : List String :=
  ["HS256", "HS384", "HS512", "ES256", "ES384", "RS256", "RS384", "RS512", "PS256", "PS384",
    "PS512", "EdDSA", "RSA1_5", "RSA-OAEP", "RSA-OAEP-256"]

def curves : List String := ["P-256", "P-384", "P-521", "Ed25519"]

def hasUse (members : List (String × Outline)) : Bool :=
  optional members "use" isText && optional members "key_ops" isTextList &&
    optional members "alg" (isLooseChoice keyAlgorithms) && optional members "kid" isText &&
    optional members "x5u" isText && optional members "x5c" isTextList &&
    optional members "x5t" isText && optional members "x5t#S256" isText

/-- The members that make up a key of one of the four types. -/
def hasKey (members : List (String × Outline)) : Bool :=
  let text name := required members name isText
  let choice name names := required members name (isChoice names)
  (choice "kty" ["EC"] && choice "crv" curves && text "x" && text "y") ||
    (choice "kty" ["RSA"] && text "n" && text "e") ||
    (choice "kty" ["oct"] && text "k") ||
    (choice "kty" ["OKP"] && choice "crv" curves && text "x")

def isKey : Outline → Bool
  | .record members => hasUse members && hasKey members
  | _ => false

/-- Reads a public key; only that it is one is kept. -/
def read : Json.Reader Json := do
  if isKey (← Json.outline Json.memberDepth) then return .bool true else throw .shape

end Turnstile.Jwk
