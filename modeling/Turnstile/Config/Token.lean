import Turnstile.Error
import Turnstile.Text.Blank

/-! The settings tokens are signed with. -/

namespace Turnstile

structure TokenConfig where
  secret : String
  algorithm : Algorithm
  accessMinutes : Int
  refreshMinutes : Int
  deriving Repr, DecidableEq

namespace TokenConfig

/-- The lifetime of access tokens unless set otherwise: a quarter of an hour. -/
def defaultAccessMinutes : Int := 15

/-- The lifetime of refresh tokens unless set otherwise: thirty days. -/
def defaultRefreshMinutes : Int := 30 * 24 * 60

def accessSetting : String := "ACCESS_TOKEN_EXPIRE_MINUTES"

def refreshSetting : String := "REFRESH_TOKEN_EXPIRE_MINUTES"

/-- HS256 and the default lifetimes, with the given secret. -/
def withSecret (secret : String) : TokenConfig :=
  ⟨secret, .hs256, defaultAccessMinutes, defaultRefreshMinutes⟩

def checkLifetime (setting : String) (minutes : Int) : Except Misconfigured Unit :=
  if 1 ≤ minutes ∧ minutes ≤ maxLifetimeMinutes then .ok ()
  else .error (.lifetimeRange setting minutes)

/-- Refuses an empty secret, an algorithm without shared secret and lifetimes out of range. -/
def validate (c : TokenConfig) : Except Misconfigured Unit := do
  if c.secret = "" then throw .emptySecret
  if ¬ c.algorithm.isSymmetric then throw (.asymmetric c.algorithm)
  checkLifetime accessSetting c.accessMinutes
  checkLifetime refreshSetting c.refreshMinutes

/-- Upper case as far as algorithm names go: besides the ASCII letters only `ſ` has an upper case
letter that occurs in one. -/
def upperChar (c : Char) : Char :=
  if c = 'ſ' then 'S' else c.toUpper

/-- The symmetric algorithm named by a setting, in either case and with blanks around it. -/
def parseAlgorithm (text : String) : Except Misconfigured Algorithm :=
  match Algorithm.ofName? (String.ofList ((trimBlanks text.toList).map upperChar)) with
  | none => .error (.unknownAlgorithm text)
  | some a => if a.isSymmetric then .ok a else .error (.asymmetricSetting text)

/-- The minutes given by a setting, with blanks around them, or the default. -/
def parseMinutes (setting : String) (default : Int) : Option String → Except Misconfigured Int
  | none => .ok default
  | some text =>
    match int64? (trimBlanks text.toList) with
    | some n => .ok n
    | none => .error (.notInteger setting text)

def secretSetting? (lookup : String → Option String) : Option String :=
  (["JWT_SECRET", "AUTH_SECRET"].filterMap lookup).find? (· ≠ "")

/-- The settings found by a lookup, with a secret to fall back on. -/
def fromLookup (lookup : String → Option String) (fallback : String) :
    Except Misconfigured TokenConfig := do
  let algorithm ← match lookup "JWT_ALGORITHM" with
    | some text => parseAlgorithm text
    | none => pure .hs256
  let accessMinutes ← parseMinutes accessSetting defaultAccessMinutes (lookup accessSetting)
  let refreshMinutes ← parseMinutes refreshSetting defaultRefreshMinutes (lookup refreshSetting)
  let config : TokenConfig :=
    ⟨(secretSetting? lookup).getD fallback, algorithm, accessMinutes, refreshMinutes⟩
  config.validate
  return config

def usesFallback (lookup : String → Option String) : Bool :=
  (secretSetting? lookup).isNone

def describe (c : TokenConfig) : String :=
  "TokenConfig \x7b secret: \"<redacted>\", algorithm: " ++ c.algorithm.name ++
    ", access_ttl_minutes: " ++ toString c.accessMinutes ++
    ", refresh_ttl_minutes: " ++ toString c.refreshMinutes ++ " \x7d"

end TokenConfig

end Turnstile
