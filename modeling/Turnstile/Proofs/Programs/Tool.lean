import Turnstile.Programs.Tool
import Turnstile.Proofs.Config.Secret
import Turnstile.Proofs.Programs.Arguments
import Turnstile.Proofs.Token.Codec

/-! The operator tool and the servers speak the same tokens: what the tool issues is taken by every
program started in the same environment, and shown by the tool. -/

namespace Turnstile.Tool

open Arguments

variable {helpText : Help → String} {env : Environment} {now : Nanos} {salt : Draw}
  {args : List String} {verbose : Bool}
  {command : Command} {c : Codec} {claims : AccessClaims} {token : String}

def issuing (subject email : String) (roles : List String) : List String :=
  "issue-token" :: ("--sub=" ++ subject) :: ("--email=" ++ email) ::
    roles.map fun role => "--role=" ++ role

/-- The arguments that ask what a token says, expired or not. -/
def inspecting (token : String) : Bool → List String
  | false => ["inspect-token", token]
  | true => ["inspect-token", "--allow-expired", token]

/-- Before the command only its name counts. -/
private theorem parse_command (name : String) {rest : List String} {options : List Opt}
    {g : Given} (hname : name.toList.head? ≠ some '-') (hoptions : optionsOf? name = some options)
    (hread : read options (.atMost (positionalsOf name)) rest none {} = .given g [])
    (hcommand : command? name g = some command) :
    parse (name :: rest) = .run (g.has "verbose") command := by
  have hstop : read mainOptions .stop (name :: rest) none {} = .given {} (name :: rest) :=
    read_stop hname
  have hhelp : name ≠ "help" := by
    rintro rfl
    cases hoptions
  unfold parse
  rw [hstop]
  simp only [hoptions, hread, hcommand]
  rfl

private def given (subject email : String) (roles : List String) : Given where
  options := [("sub", subject), ("email", email)] ++ roles.map fun role => ("role", role)

private theorem read_issuing (subject email : String) (roles : List String) :
    read issueOptions (.atMost 0)
      (("--sub=" ++ subject) :: ("--email=" ++ email) :: roles.map fun role => "--role=" ++ role)
      none {} = .given (given subject email roles) [] := by
  have hsub (rest : List String) :
      read issueOptions (.atMost 0) (("--sub=" ++ subject) :: rest) none {} =
        read issueOptions (.atMost 0) rest none { options := [("sub", subject)] } :=
    read_attached "sub" (by decide) rfl (.inl rfl) rfl
  have hemail (rest : List String) : read issueOptions (.atMost 0) (("--email=" ++ email) :: rest) none
      { options := [("sub", subject)] } =
        read issueOptions (.atMost 0) rest none { options := [("sub", subject), ("email", email)] } :=
    read_attached "email" (by decide) rfl (.inl rfl) rfl
  rw [hsub, hemail]
  exact read_repeated (o := ⟨"role", none, .repeated⟩) "role" (by decide) rfl rfl roles _

private theorem values_given (subject email : String) (roles : List String) :
    (given subject email roles).value? "sub" = some subject ∧
      (given subject email roles).value? "email" = some email ∧
      (given subject email roles).values "role" = roles ∧
      (given subject email roles).has "verbose" = false := by
  have hother (name : String) (hname : "role" ≠ name) :
      (roles.map fun role => ("role", role)).filter (fun o => o.1 = name) = [] := by
    simp [hname]
  have hroles : (roles.map fun role => ("role", role)).filter (fun o => o.1 = "role") =
      roles.map fun role => ("role", role) := by
    simp
  unfold given Given.has Given.value? Given.values
  simp only [List.filter_append, hother "sub" (by decide),
    hother "email" (by decide), hother "verbose" (by decide), hroles]
  refine ⟨rfl, rfl, ?_, rfl⟩
  have hkeep : [("sub", subject), ("email", email)].filter (fun o => o.1 = "role") = [] := rfl
  rw [hkeep, List.nil_append, List.map_map]
  exact List.map_id roles

/-- Every subject, email and list of roles can be asked for. -/
theorem parse_issuing (subject email : String) (roles : List String) :
    parse (issuing subject email roles) = .run false (.issueToken subject email roles) := by
  obtain ⟨hsub, hemail, hroles, hverbose⟩ := values_given subject email roles
  have hcomplete (g : Given) (hg : g.positionals = []) : command? "issue-token" g = (do
      return .issueToken (← g.value? "sub") (← g.value? "email") (g.values "role")) := by
    unfold command?
    simp only [hg]
  have hcommand : command? "issue-token" (given subject email roles) =
      some (.issueToken subject email roles) := by
    rw [hcomplete _ rfl, hsub, hemail, hroles]
    rfl
  rw [← hverbose]
  exact parse_command "issue-token" (by decide) rfl (read_issuing subject email roles) hcommand

theorem parse_inspecting (h : token.toList.head? ≠ some '-') (allowExpired : Bool) :
    parse (inspecting token allowExpired) = .run false (.inspectToken token allowExpired) := by
  cases allowExpired with
  | false =>
    exact parse_command (g := ⟨[], [token]⟩) "inspect-token" (by decide) rfl
      (read_positional h (by decide)) rfl
  | true =>
    have hflag : read inspectOptions (.atMost 1) ["--allow-expired", token] none {} =
        read inspectOptions (.atMost 1) [token] none { options := [("allow-expired", "")] } := rfl
    exact parse_command (g := ⟨[("allow-expired", "")], [token]⟩) "inspect-token" (by decide) rfl
      (hflag.trans (read_positional h (by decide))) rfl

/-- Only a command depends on the environment, the clock and chance; refusals and help do not. -/
theorem run_eq_of_no_command (h : ∀ verbose command, parse args ≠ .run verbose command)
    (env env' : Environment) (now now' : Nanos) (salt salt' : Draw) :
    run helpText env now salt args = run helpText env' now' salt' args := by
  unfold run
  cases hparse : parse args with
  | run verbose command => exact absurd hparse (h verbose command)
  | version => rfl
  | help topic => rfl
  | usage => rfl

example : parse ["-v", "inspect-token", "-h", "--unknown"] = .help ⟨some "inspect-token", false⟩ := by
  decide

structure Fails (o : Output) : Prop where
  exitCode : o.exitCode = 1
  stdout : o.stdout = ""

/-- A run that prints some claims, as a text from which just these are read back. -/
structure Prints (o : Output) (claims : AccessClaims) : Prop where
  exitCode : o.exitCode = 0
  readBack : AccessClaims.format.parse (utf8 o.stdout) = .ok claims

private theorem run_of_ok {printed : Printed} (hparse : parse args = .run verbose command)
    (h : execute env now salt command = .ok printed) :
    (run helpText env now salt args).exitCode = 0 ∧
      (run helpText env now salt args).stdout = printed.line ++ "\n" := by
  unfold run
  rw [hparse]
  simp only [h, true_and]

private theorem run_of_error {text : String} (hparse : parse args = .run verbose command)
    (h : execute env now salt command = .error text) : Fails (run helpText env now salt args) := by
  unfold run
  simp only [hparse, h]
  exact ⟨rfl, rfl⟩

theorem codec_eq_ok : codec env = .ok c ↔
    ∃ config, TokenConfig.fromLookup env.lookup "" = .ok config ∧ Codec.ofConfig config = c := by
  unfold codec
  cases TokenConfig.fromLookup env.lookup "" with
  | error e => exact iff_of_false nofun (by rintro ⟨_, h, -⟩; cases h)
  | ok config =>
    constructor
    · intro h
      exact ⟨config, rfl, Except.ok.inj h⟩
    · rintro ⟨config', hconfig, rfl⟩
      rw [Except.ok.inj hconfig]
      rfl

/-- Without a secret in the environment there is no codec. -/
theorem codec_of_lacking
    (h : Secret.Lacking env "JWT_SECRET" ∧ Secret.Lacking env "AUTH_SECRET") :
    ∃ e, codec env = .error e := by
  refine exists_error_of_ne_ok fun c hc => ?_
  obtain ⟨config, hconfig, -⟩ := codec_eq_ok.mp hc
  obtain ⟨hvalid, hsecret, -⟩ := TokenConfig.fromLookup_eq_ok.mp hconfig
  rw [Secret.lacking_both_iff.mp h] at hsecret
  exact (TokenConfig.validate_eq_ok.mp hvalid).1 hsecret

inductive Command.NeedsCodec : Command → Prop
  | issueToken (subject email : String) (roles : List String) :
    NeedsCodec (.issueToken subject email roles)
  | inspectToken (token : String) (allowExpired : Bool) :
    NeedsCodec (.inspectToken token allowExpired)

/-- The check of a token: its age matters unless expired tokens are allowed. -/
def verify (c : Codec) (now : Nanos) (token : String) (allowExpired : Bool) :
    Except AuthError AccessClaims :=
  if allowExpired then c.decodeAccessAnyAge token else c.decodeAccess now token

private theorem execute_issueToken (env : Environment) (now : Nanos) (salt : Draw)
    (subject email : String) (roles : List String) :
    execute env now salt (.issueToken subject email roles) = execute.failing (do
      let c ← codec env
      let claims := c.accessClaims now ⟨subject, email, .ofList roles⟩
      let token ← c.encodeAccess claims
      return ⟨token, some (.info, s!"issuing access token for {subject} expiring at {claims.expiry}")⟩) :=
  rfl

private theorem execute_inspectToken (env : Environment) (now : Nanos) (salt : Draw)
    (token : String) (allowExpired : Bool) :
    execute env now salt (.inspectToken token allowExpired) = execute.failing (do
      let c ← codec env
      let claims ← verify c now token allowExpired
      return ⟨(AccessClaims.format.toJson claims).toLines,
        some (.debug, "verified token for " ++ claims.subject)⟩) := by
  cases allowExpired <;> rfl

theorem fails_of_codec_error {e : AuthError} (hcommand : command.NeedsCodec)
    (hparse : parse args = .run verbose command) (h : codec env = .error e) :
    Fails (run helpText env now salt args) := by
  have hexecute : execute env now salt command = .error ("Auth: " ++ e.message) := by
    cases hcommand with
    | issueToken subject email roles =>
      rw [execute_issueToken, h]
      rfl
    | inspectToken token allowExpired =>
      rw [execute_inspectToken, h]
      rfl
  exact run_of_error hparse hexecute

section

variable {subject email : String} {roles : List String}

/-- A run that issues a token prints what the codec of the environment signs. -/
theorem issue_of_exitCode (hparse : parse args = .run verbose (.issueToken subject email roles))
    (h : (run helpText env now salt args).exitCode = 0) :
    ∃ c token, codec env = .ok c ∧
      c.encodeAccess (c.accessClaims now ⟨subject, email, .ofList roles⟩) = .ok token ∧
      (run helpText env now salt args).stdout = token ++ "\n" := by
  cases hexecute : execute env now salt (.issueToken subject email roles) with
  | error text =>
    rw [(run_of_error hparse hexecute).exitCode] at h
    cases h
  | ok printed =>
    obtain ⟨c, hc, hbody⟩ := exists_of_bind_eq_ok (of_mapError_eq_ok hexecute)
    obtain ⟨token, htoken, hbody⟩ := exists_of_bind_eq_ok hbody
    refine ⟨c, token, hc, htoken, ?_⟩
    rw [(run_of_ok hparse hexecute).2, ← Except.ok.inj hbody]

/-- Every codec of the environment issues tokens. -/
theorem exitCode_issue (hparse : parse args = .run verbose (.issueToken subject email roles))
    (hc : codec env = .ok c) : (run helpText env now salt args).exitCode = 0 := by
  obtain ⟨config, hconfig, rfl⟩ := codec_eq_ok.mp hc
  obtain ⟨hvalid, -⟩ := TokenConfig.fromLookup_eq_ok.mp hconfig
  obtain ⟨token, htoken⟩ := (TokenConfig.usable_of_validate hvalid).signs (AccessClaims.format.toJson
    ((Codec.ofConfig config).accessClaims now ⟨subject, email, .ofList roles⟩))
  obtain ⟨printed, hexecute⟩ : ∃ printed,
      execute env now salt (.issueToken subject email roles) = .ok printed := by
    rw [execute_issueToken, hc]
    change ∃ printed, execute.failing ((Codec.ofConfig config).sign _ >>= _) = .ok printed
    rw [htoken]
    exact ⟨_, rfl⟩
  exact (run_of_ok hparse hexecute).1

end

section

variable {allowExpired : Bool}

theorem prints_of_verify (hparse : parse args = .run verbose (.inspectToken token allowExpired))
    (hc : codec env = .ok c) (h : verify c now token allowExpired = .ok claims)
    (hexpiry : ValidExpiry claims.expiry) : Prints (run helpText env now salt args) claims := by
  have hexecute := execute_inspectToken env now salt token allowExpired
  simp only [hc, h, bind, Except.bind] at hexecute
  obtain ⟨hexit, hstdout⟩ := run_of_ok hparse hexecute
  refine ⟨hexit, ?_⟩
  rw [hstdout]
  exact AccessClaims.parse_toLines hexpiry

theorem fails_of_verify {e : AuthError}
    (hparse : parse args = .run verbose (.inspectToken token allowExpired))
    (hc : codec env = .ok c) (h : verify c now token allowExpired = .error e) :
    Fails (run helpText env now salt args) := by
  have hexecute := execute_inspectToken env now salt token allowExpired
  simp only [hc, h, bind, Except.bind] at hexecute
  exact run_of_error hparse hexecute

end

/-- A token that speaks for some claims in an environment. -/
structure Understood (env : Environment) (token : String) (claims : AccessClaims) : Prop where
  /-- Every program started there, whatever its secret file holds, has the secret from a variable and
  takes the token for these claims until they expire. -/
  accepted : ∀ file fresh, ∃ config, TokenConfig.fromEnvironment env file fresh = .ok config ∧
    TokenConfig.SecretFrom env.lookup fresh config.secret false ∧
    ∀ t, t < Nanos.ofSeconds claims.expiry → (Codec.ofConfig config).decodeAccess t token = .ok claims
  /-- The tool can be asked for it. -/
  asked : ∀ allowExpired,
    parse (inspecting token allowExpired) = .run false (.inspectToken token allowExpired)
  /-- However it is asked, it prints these claims until they expire, and after that if expired tokens
  are allowed; otherwise it fails. -/
  inspected : ∀ helpText args verbose allowExpired,
    parse args = .run verbose (.inspectToken token allowExpired) → ∀ t salt,
      if allowExpired = true ∨ t < Nanos.ofSeconds claims.expiry then
        Prints (run helpText env t salt args) claims
      else Fails (run helpText env t salt args)

theorem understood_of_encodeAccess (hc : codec env = .ok c) (h : c.encodeAccess claims = .ok token)
    (hexpiry : ValidExpiry claims.expiry) : Understood env token claims := by
  have haccess (t : Nanos) : c.decodeAccess t token =
      if claims.expiry ≤ t.seconds then .error .tokenExpired else .ok claims :=
    Codec.decodeAccess_encodeAccess hexpiry h t
  have hgood {t : Nanos} (ht : t < Nanos.ofSeconds claims.expiry) :
      c.decodeAccess t token = .ok claims := by
    rw [haccess, if_neg (Int.not_le.mpr (Nanos.seconds_lt_iff.mpr ht))]
  refine ⟨fun file fresh => ?_, parse_inspecting (by rw [Codec.head?_sign h]; decide),
    fun helpText args verbose allowExpired hparse t salt => ?_⟩
  · obtain ⟨config, hconfig, rfl⟩ := codec_eq_ok.mp hc
    obtain ⟨hsecret, -⟩ := TokenConfig.fromLookup_of_empty hconfig fresh
    obtain ⟨-, hsame⟩ :=
      TokenConfig.fromLookup_of_empty hconfig (Secret.resolve env file fresh).secret
    exact ⟨config, hsame, hsecret, fun t => hgood⟩
  · cases allowExpired with
    | true =>
      rw [if_pos (.inl rfl)]
      exact prints_of_verify hparse hc (Codec.decodeAccessAnyAge_encodeAccess hexpiry h) hexpiry
    | false =>
      by_cases ht : t < Nanos.ofSeconds claims.expiry
      · rw [if_pos (.inr ht)]
        exact prints_of_verify hparse hc (hgood ht) hexpiry
      · have hexpired : c.decodeAccess t token = .error .tokenExpired := by
          rw [haccess, if_pos (Int.not_lt.mp (ht ∘ Nanos.seconds_lt_iff.mp))]
        rw [if_neg (by simpa using ht)]
        exact fails_of_verify hparse hc hexpired

/-- A token can be asked for with every subject, email and list of roles. One that the tool issues, at
an instant that a clock can show, is understood by every program in the same environment, with what
was asked for. Without a secret in the environment the tool neither issues nor inspects tokens. -/
theorem tokens_understood (helpText : Help → String) (env : Environment) :
    (∀ subject email roles,
      parse (issuing subject email roles) = .run false (.issueToken subject email roles)) ∧
    (∀ args verbose subject email roles now salt,
      parse args = .run verbose (.issueToken subject email roles) →
      0 ≤ now → now ≤ lastInstant → (run helpText env now salt args).exitCode = 0 →
      ∃ token claims, (run helpText env now salt args).stdout = token ++ "\n" ∧
        claims.subject = subject ∧ claims.email = email ∧
        (∀ role, role ∈ claims.roles ↔ role ∈ roles) ∧
        (claims.superuser = true ↔ "superadmin" ∈ roles) ∧
        now < Nanos.ofSeconds claims.expiry ∧ Understood env token claims) ∧
    (Secret.Lacking env "JWT_SECRET" ∧ Secret.Lacking env "AUTH_SECRET" →
      ∀ args verbose command now salt, Command.NeedsCodec command →
        parse args = .run verbose command → Fails (run helpText env now salt args)) := by
  refine ⟨parse_issuing, fun args verbose subject email roles now salt hparse hnow hlast hexit => ?_,
    fun hlacking args verbose command now salt hcommand hparse => ?_⟩
  · obtain ⟨c, token, hc, htoken, hstdout⟩ := issue_of_exitCode hparse hexit
    have hclamped : c.Clamped := by
      obtain ⟨config, -, rfl⟩ := codec_eq_ok.mp hc
      exact Codec.ofConfig_clamped config
    have hexpiry := Codec.accessClaims_validExpiry hclamped hnow hlast ⟨subject, email, .ofList roles⟩
    refine ⟨token, c.accessClaims now ⟨subject, email, .ofList roles⟩, hstdout, rfl, rfl,
      fun role => SortedSet.mem_ofList, ?_, Codec.lt_expiry_accessClaims hclamped now _,
      understood_of_encodeAccess hc htoken hexpiry⟩
    exact decide_eq_true_iff.trans SortedSet.mem_ofList
  · obtain ⟨e, he⟩ := codec_of_lacking hlacking
    exact fails_of_codec_error hcommand hparse he

/-- A token for a superadmin under a secret from the environment, and none where the variables are
empty or not text. -/
theorem tokens_understood_superadmin :
    let env : Environment := ⟨[("JWT_SECRET", utf8 "cli-secret")]⟩
    let bare : Environment := ⟨[("JWT_SECRET", []), ("AUTH_SECRET", [0xff])]⟩
    let args := ["issue-token", "--sub", "ada", "--email=ada@example.com", "--role=superadmin"]
    let issued := run (fun _ => "") env 1700000000000000000 (.replicate 16 0) args
    parse args = .run false (.issueToken "ada" "ada@example.com" ["superadmin"]) ∧
      issued.exitCode = 0 ∧
      (∃ token claims, issued.stdout = token ++ "\n" ∧ claims.superuser = true ∧
        Understood env token claims) ∧
      Fails (run (fun _ => "") bare 1700000000000000000 (.replicate 16 0) args) := by
  intro env bare args issued
  have hparse : parse args = .run false (.issueToken "ada" "ada@example.com" ["superadmin"]) := by
    decide
  have hlookup : env.lookup "JWT_SECRET" = some "cli-secret" := by
    change ofUtf8? (utf8 "cli-secret") = _
    exact ofUtf8?_utf8 _
  have hsecret : TokenConfig.secretSetting? env.lookup = some "cli-secret" := by
    rw [TokenConfig.secretSetting?_eq, hlookup]
    rfl
  have hconfig : TokenConfig.fromLookup env.lookup "" = .ok (.withSecret "cli-secret") :=
    TokenConfig.fromLookup_eq_ok.mpr ⟨rfl, by rw [hsecret]; rfl, rfl, rfl, rfl⟩
  have hexit : issued.exitCode = 0 := exitCode_issue hparse (codec_eq_ok.mpr ⟨_, hconfig, rfl⟩)
  have hlacking : Secret.Lacking bare "JWT_SECRET" ∧ Secret.Lacking bare "AUTH_SECRET" :=
    ⟨.empty rfl, .invalid rfl (by decide)⟩
  obtain ⟨token, claims, hstdout, -, -, -, hsuperuser, -, hunderstood⟩ :=
    (tokens_understood _ env).2.1 args false "ada" "ada@example.com" ["superadmin"]
      1700000000000000000 (.replicate 16 0) hparse (by decide) (by decide) hexit
  exact ⟨hparse, hexit, ⟨token, claims, hstdout, hsuperuser.mpr (by decide), hunderstood⟩,
    (tokens_understood _ bare).2.2 hlacking args false _ 1700000000000000000 (.replicate 16 0)
      (.issueToken _ _ _) hparse⟩

end Turnstile.Tool
