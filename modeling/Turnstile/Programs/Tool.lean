import Turnstile.Config.Secret
import Turnstile.Password
import Turnstile.Programs.Arguments
import Turnstile.Programs.Log
import Turnstile.Token.Codec
import Turnstile.Version

/-! The operator tool: hashing passwords, and issuing and inspecting access tokens. -/

namespace Turnstile.Tool

open Arguments

inductive Command where
  | version
  | hashPassword (password : String)
  | inspectToken (token : String) (allowExpired : Bool)
  | issueToken (subject email : String) (roles : List String)
  deriving Repr, DecidableEq

/-- Help with a command, or with all of them, at length or in short. -/
structure Help where
  command : Option String
  long : Bool
  deriving Repr, DecidableEq

inductive Request where
  | run (verbose : Bool) (command : Command)
  | version
  | help (h : Help)
  | usage
  deriving Repr, DecidableEq

structure Output where
  exitCode : Nat
  stdout : String := ""
  stderr : String := ""
  deriving Repr, DecidableEq

/-- The option for more messages, before or after the command. -/
def verboseOption : Opt := ⟨"verbose", some 'v', .flag⟩

def mainOptions : List Opt := [verboseOption, helpOption, ⟨"version", some 'V', .version⟩]

def inspectOptions : List Opt := [verboseOption, helpOption, ⟨"allow-expired", none, .flag⟩]

def issueOptions : List Opt :=
  [verboseOption, helpOption, ⟨"sub", none, .single⟩, ⟨"email", none, .single⟩,
    ⟨"role", none, .repeated⟩]

/-- The command with what was given to it, if that is complete. -/
def command? (name : String) (g : Given) : Option Command :=
  match name, g.positionals with
  | "version", [] => some .version
  | "hash-password", [password] => some (.hashPassword password)
  | "inspect-token", [token] => some (.inspectToken token (g.has "allow-expired"))
  | "issue-token", [] => do
    return .issueToken (← g.value? "sub") (← g.value? "email") (g.values "role")
  | _, _ => none

def optionsOf? : String → Option (List Opt)
  | "version" | "hash-password" => some [verboseOption, helpOption]
  | "inspect-token" => some inspectOptions
  | "issue-token" => some issueOptions
  | _ => none

def positionalsOf : String → Nat
  | "hash-password" | "inspect-token" => 1
  | _ => 0

/-- What the command `help` is asked, which takes the name of a command. -/
def parseHelp : List String → Request
  | [] => .help ⟨none, true⟩
  | [name] =>
    if name = "help" ∨ (optionsOf? name).isSome then .help ⟨some name, true⟩ else .usage
  | _ => .usage

def parse (args : List String) : Request :=
  match read mainOptions .stop args none {} with
  | .version => .version
  | .help long => .help ⟨none, long⟩
  | .given _ ("help" :: rest) => parseHelp rest
  | .given before (name :: rest) =>
    match optionsOf? name with
    | none => .usage
    | some options =>
      match read options (.atMost (positionalsOf name)) rest none {} with
      | .help long => .help ⟨some name, long⟩
      | .given g _ =>
        match command? name g with
        | some command => .run (before.has "verbose" || g.has "verbose") command
        | none => .usage
      | _ => .usage
  | _ => .usage

/-- The name of the tool, by which its messages are marked. -/
def name : String := "tollgate_cli"

def message (level : LogLevel) (text : String) : String :=
  level.label ++ " [" ++ name ++ "] " ++ text ++ "\n"

/-- What a command prints, and a message about it. -/
structure Printed where
  line : String
  note : Option (LogLevel × String) := none
  deriving Repr, DecidableEq

/-- The codec for the settings in the environment. Without a secret there is none: the tool never
makes one up. -/
def codec (env : Environment) : Except AuthError Codec :=
  ((TokenConfig.fromLookup env.lookup "").mapError .config).map Codec.ofConfig

/-- What a command prints, or the text of its failure. -/
def execute (env : Environment) (now : Nanos) (salt : Draw) : Command → Except String Printed
  | .version => .ok ⟨name ++ " " ++ Turnstile.version, none⟩
  | .hashPassword password =>
    if password = "" then .error "password must not be empty"
    else .ok ⟨Password.hash salt password, none⟩
  | .inspectToken token allowExpired => failing do
    let c ← codec env
    let claims ← if allowExpired then c.decodeAccessAnyAge token else c.decodeAccess now token
    return ⟨(AccessClaims.format.toJson claims).toLines,
      some (.debug, "verified token for " ++ claims.subject)⟩
  | .issueToken subject email roles => failing do
    let c ← codec env
    let claims := c.accessClaims now ⟨subject, email, .ofList roles⟩
    let token ← c.encodeAccess claims
    return ⟨token,
      some (.info, s!"issuing access token for {subject} expiring at {claims.expiry}")⟩
where
  /-- A failure as the tool reports it. -/
  failing (r : Except AuthError Printed) : Except String Printed :=
    r.mapError fun e => "Auth: " ++ e.message

/-- The settings for messages: from the environment if they make sense, else by what the arguments
ask for. -/
def logFilter (env : Environment) (verbose : Bool) : LogFilter :=
  ((env.lookup "RUST_LOG").bind toolFilter?).getD
    ⟨[⟨none, if verbose then .debug else .warn⟩], []⟩

/-- A run of the tool, with the texts it has for help. -/
def run (helpText : Help → String) (env : Environment) (now : Nanos) (salt : Draw)
    (args : List String) : Output :=
  match parse args with
  | .usage => { exitCode := 2 }
  | .help h => { exitCode := 0, stdout := helpText h }
  | .version => { exitCode := 0, stdout := name ++ " " ++ Turnstile.version ++ "\n" }
  | .run verbose command =>
    let shown (level : LogLevel) (text : String) : String :=
      if (logFilter env verbose).shows name level text then message level text else ""
    match execute env now salt command with
    | .error text => { exitCode := 1, stderr := shown .error text }
    | .ok printed =>
      { exitCode := 0
        stdout := printed.line ++ "\n"
        stderr := match printed.note with
          | some (level, text) => shown level text
          | none => "" }

end Turnstile.Tool
