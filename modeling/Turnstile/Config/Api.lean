import Turnstile.Config.Secret

/-! The settings of the API server. -/

namespace Turnstile

structure ApiConfig where
  bindAddress : String
  databaseUrl : String
  token : TokenConfig
  /-- The longest a request may take. -/
  requestTimeoutSecs : Nat
  deriving Repr, DecidableEq

namespace ApiConfig

def defaultTimeoutSecs : Nat := 10

/-- The request timeout in seconds given by the environment, or the default. -/
def timeoutFrom (env : Environment) : Except Misconfigured Nat :=
  match env.lookup "REQUEST_TIMEOUT_SECS" with
  | none => .ok defaultTimeoutSecs
  | some text =>
    match natural? 64 (trimBlanks text.toList) with
    | some n => .ok n
    | none => .error (.notInteger "REQUEST_TIMEOUT_SECS" text)

/-- Settings from the environment, with the secret file to fall back on. -/
def fromEnvironment (env : Environment) (file : Option Bytes) (fresh : String) :
    Except Misconfigured ApiConfig := do
  let timeout ← timeoutFrom env
  let token ← TokenConfig.fromEnvironment env file fresh
  return {
    bindAddress := (env.lookup "BIND_ADDR").getD "127.0.0.1:3100"
    databaseUrl := (env.lookup "DATABASE_URL").getD "postgres://localhost:5432/tollgate"
    token
    requestTimeoutSecs := timeout
  }

/-- The default settings with the given secret, on a free local port and without a database. -/
def withSecret (secret : String) : ApiConfig :=
  ⟨"127.0.0.1:0", "", TokenConfig.withSecret secret, defaultTimeoutSecs⟩

end ApiConfig

end Turnstile
