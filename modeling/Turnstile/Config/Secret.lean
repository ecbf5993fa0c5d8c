import Turnstile.Config.Token
import Turnstile.Text.Utf8

/-! Where the signing secret comes from. -/

namespace Turnstile

structure Environment where
  entries : List (String × Bytes)
  deriving Repr, DecidableEq

/-- The value of a variable. One that is not UTF-8 counts as unset. -/
def Environment.lookup (env : Environment) (name : String) : Option String :=
  (env.entries.lookup name).bind ofUtf8?

namespace Secret

/-- A secret, and the content of the secret file after it was found. -/
structure Resolved where
  secret : String
  file : Option Bytes
  deriving Repr, DecidableEq

/-- The secret kept in a file: its text without blanks around it, if any is left. -/
def stored? (file : Option Bytes) : Option String :=
  ((file.bind ofUtf8?).map trim).filter (· ≠ "")

/-- The secret from the environment, else from the file, else `fresh`, which then replaces the
file. -/
def resolve (env : Environment) (file : Option Bytes) (fresh : String) : Resolved :=
  match (env.lookup "JWT_SECRET").filter (· ≠ "") with
  | some secret => ⟨secret, file⟩
  | none =>
    match (env.lookup "AUTH_SECRET").filter (· ≠ "") with
    | some secret => ⟨secret, file⟩
    | none =>
      match stored? file with
      | some secret => ⟨secret, file⟩
      | none => ⟨fresh, some (utf8 fresh)⟩

def alphabet : List Char :=
  "ABCDEFGHIJKLMNOPQRSTUVWXYZabcdefghijklmnopqrstuvwxyz0123456789".toList

def length : Nat := 64

def ofChoices (choices : List Nat) : String :=
  String.ofList (choices.map fun n => alphabet.getD (n % alphabet.length) 'A')

end Secret

/-- Token settings from the environment, with the secret file to fall back on. -/
def TokenConfig.fromEnvironment (env : Environment) (file : Option Bytes) (fresh : String) :
    Except Misconfigured TokenConfig :=
  TokenConfig.fromLookup env.lookup (Secret.resolve env file fresh).secret

/-- The content of the secret file after that. It is looked into only for want of a secret in the
environment. -/
def TokenConfig.fileAfter (env : Environment) (file : Option Bytes) (fresh : String) :
    Option Bytes :=
  if TokenConfig.usesFallback env.lookup then (Secret.resolve env file fresh).file else file

end Turnstile
