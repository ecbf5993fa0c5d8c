import Turnstile.Config.Api
import Turnstile.Programs.Arguments
import Turnstile.Programs.Dotenv
import Turnstile.Programs.Log
import Turnstile.Text.Quoted
import Turnstile.Text.Timestamp
import Turnstile.Text.Url

/-! The start of the API server, up to its connection to the database. -/

namespace Turnstile.Server

open Arguments

/-- The settings given by arguments, with the environment and defaults for the rest. -/
structure Settings where
  port : Nat
  host : String
  databaseUrl : String
  maxConnections : Nat
  skipMigrations : Bool
  deriving Repr, DecidableEq

def options : List Opt :=
  [helpOption, ⟨"port", none, .number 16⟩, ⟨"host", none, .single⟩,
    ⟨"database-url", none, .single⟩, ⟨"max-connections", none, .number 32⟩,
    ⟨"skip-migrations", none, .flag⟩]

/-- The value of an option: from the arguments, else from a variable, which must be UTF-8, else
the default. -/
def setting? (env : Environment) (g : Given) (long : String) (name : Option String)
    (default : String) : Option String :=
  match g.value? long with
  | some value => some value
  | none =>
    match name.bind fun n => env.entries.lookup n with
    | some bytes => ofUtf8? bytes
    | none => some default

/-- The settings, unless a value does not fit. -/
def settings? (env : Environment) (g : Given) : Option Settings := do
  let port ← number? 16 (← setting? env g "port" (some "PORT") "3100")
  let host ← setting? env g "host" (some "HOST") "127.0.0.1"
  let databaseUrl ←
    setting? env g "database-url" (some "DATABASE_URL") "postgres://localhost:5432/tollgate"
  let maxConnections ← number? 32 (← setting? env g "max-connections" none "5")
  return ⟨port, host, databaseUrl, maxConnections, g.has "skip-migrations"⟩

/-- The name of the server, by which its messages are marked. -/
def name : String := "tollgate_api_server"

def startText (c : ApiConfig) (maxConnections : Nat) : String :=
  "starting " ++ name ++ " bind_addr=" ++ c.bindAddress ++
    " max_connections=" ++ toString maxConnections ++ " algorithm=" ++ c.token.algorithm.name ++
    " access_ttl_minutes=" ++ toString c.token.accessMinutes ++
    " refresh_ttl_minutes=" ++ toString c.token.refreshMinutes

/-- A message as it is shown, with the level in five columns. -/
def message (now : Nanos) (level : LogLevel) (text : String) : String :=
  timestamp now ++ " " ++ String.ofList (List.replicate (5 - level.label.length) ' ') ++
    level.label ++ " " ++ name ++ ": " ++ text

inductive Prepared where
  /-- Arguments that do not fit. -/
  | usage
  | help (long : Bool)
  | misconfigured (problem : Misconfigured)
  | ready (config : ApiConfig) (settings : Settings)

/-- The configuration and settings in force, if the arguments and the environment allow any. -/
def prepare (env : Environment) (file : Option Bytes) (fresh : String) (args : List String) :
    Prepared :=
  match read options (.atMost 0) args none {} with
  | .help long => .help long
  | .given g _ =>
    match settings? env g with
    | none => .usage
    | some s =>
      match ApiConfig.fromEnvironment env file fresh with
      | .error problem => .misconfigured problem
      | .ok config =>
        .ready { config with
          bindAddress := s.host ++ ":" ++ toString s.port
          databaseUrl := s.databaseUrl } s
  | _ => .usage

def logFilter (env : Environment) : LogFilter :=
  ((env.lookup "RUST_LOG").bind serverFilter?).getD defaultServerFilter

/-- What a start leaves behind: its exit code, unless it goes on to connect, and its messages. -/
structure Output where
  exitCode : Option Nat
  stdout : String := ""
  stderr : List String := []
  deriving Repr, DecidableEq

/-- The start of the server, with the settings file of its directory and its texts for help. -/
def start (helpText : Bool → String) (env : Environment) (dotenv : Option Bytes)
    (file : Option Bytes) (fresh : String)
    (now : Nanos) (args : List String) : Output :=
  let env := match dotenv with
    | some content => Dotenv.load env content
    | none => env
  match prepare env file fresh args with
  | .usage => { exitCode := some 2 }
  | .help long => { exitCode := some 0, stdout := helpText long }
  | .misconfigured problem =>
    { exitCode := some 1, stderr := ["Error: Config(" ++ quotedText problem.message ++ ")"] }
  | .ready config s =>
    let text := startText config s.maxConnections
    let lines := if (logFilter env).shows name .info text then [message now .info text] else []
    if Url.isUrl config.databaseUrl then { exitCode := none, stderr := lines }
    else { exitCode := some 1, stderr := lines ++ ["Error: Configuration"] }

end Turnstile.Server
