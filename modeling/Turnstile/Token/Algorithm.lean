import Turnstile.Digest.Hmac

/-! Signature algorithms of tokens. -/

namespace Turnstile

inductive Algorithm where
  | hs256 | hs384 | hs512
  | es256 | es384
  | rs256 | rs384 | rs512
  | ps256 | ps384 | ps512
  | edDsa
  deriving Repr, DecidableEq

namespace Algorithm

def all : List Algorithm :=
  [hs256, hs384, hs512, es256, es384, rs256, rs384, rs512, ps256, ps384, ps512, edDsa]

def name : Algorithm → String
  | hs256 => "HS256" | hs384 => "HS384" | hs512 => "HS512"
  | es256 => "ES256" | es384 => "ES384"
  | rs256 => "RS256" | rs384 => "RS384" | rs512 => "RS512"
  | ps256 => "PS256" | ps384 => "PS384" | ps512 => "PS512"
  | edDsa => "EdDSA"

/-- The algorithm with the given name, in exactly that spelling. -/
def ofName? (s : String) : Option Algorithm :=
  all.find? fun a => a.name = s

def hash? : Algorithm → Option Sha2.Hash
  | hs256 => some Sha2.sha256
  | hs384 => some Sha2.sha384
  | hs512 => some Sha2.sha512
  | _ => none

def isSymmetric (a : Algorithm) : Bool :=
  a = hs256 || a = hs384 || a = hs512

end Algorithm

end Turnstile
