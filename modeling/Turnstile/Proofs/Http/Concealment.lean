import Turnstile.Proofs.Http.Bearer
import Turnstile.Proofs.Http.Login
import Turnstile.Proofs.Postgres.Concealment

/-! Clients learn nothing about what failed inside: such failures are all answered alike, whatever they
say, and wherever they come up. -/

namespace Turnstile.Http

open Program

variable {c : Codec} {request : Request}

def internalBody : Json :=
  .record [("error", .text "internal_error"), ("message", .text "Internal server error")]

def failed (request : Request) (e : AuthError) : Response :=
  sent request (.ofError (.ofAuth e))

/-- A response that says only that something failed; to `HEAD` it has no body. -/
structure Conceals (request : Request) (response : Response) : Prop where
  status : response.status = 500
  body : response.body = if request.method = "HEAD" then .empty else .json internalBody

theorem ofError_of_concealed {e : AuthError} (h : e.Concealed) :
    Response.ofError (.ofAuth e) = .ofJson 500 internalBody := by
  cases e with
  | config | db | internal => rfl
  | _ => exact h.elim

theorem conceals_failed {e : AuthError} (h : e.Concealed) : Conceals request (failed request e) where
  status := by
    unfold failed
    rw [sent_status, ofError_of_concealed h]
    rfl
  body := by
    unfold failed
    rw [ofError_of_concealed h]
    unfold sent
    split_ifs <;> rfl

theorem failed_eq_of_alike {e e' : AuthError} (h : e.Alike e') :
    failed request e = failed request e' := by
  rcases h with rfl | ⟨h, h'⟩
  · rfl
  · unfold failed
    rw [ofError_of_concealed h, ofError_of_concealed h']

/-- A program that responds to a failed call with a report of it. -/
structure Relaying (p : Program Response) : Prop where
  relays : p.Relays fun e => .ok (.ofError (.ofAuth e))

theorem relaying_return (response : Response) : Relaying (pure response) := ⟨trivial⟩

theorem relaying_respond {α : Type} {format : Json.Format α} {p : Program α}
    (hp : p.Relays .error) : Relaying (respond format p) :=
  ⟨hp.attempt_bind (fun _ => trivial) fun _ => rfl⟩

theorem relaying_withPart {α : Type} {part : Except Rejection α} {next : α → Program Response}
    (h : ∀ a, Relaying (next a)) : Relaying (withPart part next) := by
  cases part with
  | ok a => exact h a
  | error e => exact relaying_return _

theorem relaying_withBearer {next : String → Program Response} (h : ∀ token, Relaying (next token)) :
    Relaying (withBearer request next) := by
  unfold withBearer
  cases bearerToken request.headers with
  | ok token => exact h token
  | error e => exact relaying_return _

theorem relaying_withCaller {next : AccessClaims → Program Response}
    (h : ∀ claims, Relaying (next claims)) : Relaying (withCaller c request next) :=
  relaying_withBearer fun token =>
    ⟨(Codec.relays_checkAccess token).attempt_bind (fun claims => (h claims).relays) fun _ => rfl⟩

theorem relaying_handle (route : Route) : Relaying (handle c request route) := by
  cases route with
  | login =>
    exact relaying_withPart fun body =>
      relaying_respond (Codec.relays_login body.email body.password)
  | register =>
    exact relaying_withPart fun body =>
      relaying_respond (Codec.relays_register body.email body.password body.name)
  | refresh =>
    exact relaying_withPart fun body => relaying_respond (Codec.relays_refresh body.refreshToken)
  | logout =>
    exact relaying_withPart fun body => relaying_withBearer fun access =>
      relaying_respond (Codec.relays_logout access body.refreshToken)
  | checkPermission =>
    exact relaying_withPart fun asked => relaying_withBearer fun access =>
      relaying_respond (Codec.relays_confirmPermission access asked.resource asked.method)
  | me => exact relaying_withCaller fun claims => relaying_respond (Codec.relays_describeCaller claims)

theorem relaying_routed : Relaying (routed c request) := by
  unfold routed
  split
  · unfold dispatch
    split_ifs
    · exact relaying_handle _
    · split
      · exact relaying_withCaller fun _ => relaying_return _
      · exact relaying_return _
  · exact relaying_withCaller fun _ => relaying_return _

/-- A request is answered as failed as soon as a call fails. -/
theorem relays_serve : (serve c request).Relays fun e => .ok (failed request e) := by
  unfold serve
  split_ifs
  · trivial
  · exact relaying_routed.relays.map

/-- Hosts that differ only in the details of failures get the same response. -/
theorem run_eq_of_alike {σ τ : Type} {h : Host σ} {k : Host τ} {R : σ → τ → Prop}
    (hhosts : h.Alike k R) {s : σ} {t : τ} (hs : R s t) :
    (Http.run h c request s).1 = (Http.run k c request t).1 := by
  have hrun := (@relays_serve c request).run_eq
    (fun _ _ he => congrArg Except.ok (failed_eq_of_alike he)) hhosts hs
  unfold Http.run
  generalize (serve c request).run h s = x at hrun ⊢
  generalize (serve c request).run k t = y at hrun ⊢
  obtain ⟨x, s'⟩ := x
  obtain ⟨y, t'⟩ := y
  obtain rfl : x = y := hrun
  rcases x with _ | _ | _ <;> rfl

/-- Details of failures never reach a client. Over stores that differ only in how calls fail inside, a
request gets one response: with any hosts that answer alike, with a store in memory whose calls are
disturbed, and with a database that gives replies with the same SQLSTATEs. Whenever a call fails inside,
the response has status 500 and the one body for it, or none for `HEAD`: in every run over any store,
and at every point where a request waits for an answer. -/
theorem failures_concealed (c : Codec) (request : Request) :
    (∀ (σ τ : Type) (h : Host σ) (k : Host τ) (R : σ → τ → Prop), h.Alike k R →
      ∀ s t, R s t → (Http.run h c request s).1 = (Http.run k c request t).1) ∧
    (∀ ids entropy d d', Disturbed.Alike Eq d d' →
      (Http.run (Disturbed.host (MemoryStore.model ids) entropy) c request d).1 =
        (Http.run (Disturbed.host (MemoryStore.model ids) entropy) c request d').1) ∧
    (∀ entropy d d', Disturbed.Alike Postgres.Scripted.Alike d d' →
      (Http.run (Disturbed.host (Postgres.model Postgres.Scripted.database) entropy) c request d).1 =
        (Http.run (Disturbed.host (Postgres.model Postgres.Scripted.database) entropy) c request
          d').1) ∧
    (∀ (σ : Type) (S : Setting σ) w xs r w', Traced S (serve c request) w xs r w' →
      ∀ x ∈ xs, ∀ e, x.answer = .error e → e.Concealed →
        ∃ response, r = .ok response ∧ Conceals request response) ∧
    ∀ (σ : Type) (S : Setting σ) w d next w',
      Proceeds S (serve c request) w (.call d next) w' → ∀ e, e.Concealed →
        ∃ response, next (.error e) = .done (.ok response) ∧ Conceals request response := by
  refine ⟨fun _ _ _ _ _ hhosts _ _ hs => run_eq_of_alike hhosts hs,
    fun ids entropy _ _ hd =>
      run_eq_of_alike (Disturbed.alike_host (MemoryStore.alike_model ids) entropy) hd,
    fun entropy _ _ hd => run_eq_of_alike (Disturbed.alike_host
      (Postgres.alike_model Postgres.Scripted.alike_database) entropy) hd, ?_, ?_⟩
  · intro σ S w xs r w' h x hx e he hconcealed
    exact ⟨_, relays_serve.traced h hx he, conceals_failed hconcealed⟩
  · intro σ S w d next w' h e hconcealed
    obtain ⟨-, hreport⟩ := relays_serve.proceeds h
    exact ⟨_, hreport e, conceals_failed hconcealed⟩

/-- A login over stores that fail with different texts, in memory and in a database. -/
theorem failures_concealed_login :
    ∃ request : Request, request.LogsIn "ada@example.com" "correct horse" ∧
      (Http.run (Disturbed.host (MemoryStore.model serialId) fun _ => .replicate 16 0)
          (.ofConfig (.withSecret "secret")) request
          ⟨⟨{}, 0, 0⟩, [(.findByEmail, .error (.db (.protocol "connection reset")))], [], none⟩).1 =
        (Http.run (Disturbed.host (MemoryStore.model serialId) fun _ => .replicate 16 0)
          (.ofConfig (.withSecret "secret")) request
          ⟨⟨{}, 0, 0⟩, [(.findByEmail, .error (.db (.protocol "no route to host")))], [], none⟩).1 ∧
      (Http.run (Disturbed.host (Postgres.model Postgres.Scripted.database) fun _ => .replicate 16 0)
          (.ofConfig (.withSecret "secret")) request
          ⟨⟨⟨[⟨none, .error (.refused "57P01" "shutting down")⟩], []⟩, 0, 0⟩, [], [], none⟩).1 =
        (Http.run (Disturbed.host (Postgres.model Postgres.Scripted.database) fun _ => .replicate 16 0)
          (.ofConfig (.withSecret "secret")) request
          ⟨⟨⟨[⟨none, .error (.refused "57P01" "restarting")⟩], []⟩, 0, 0⟩, [], [], none⟩).1 ∧
      ∃ xs response w', Traced (MemoryStore.faulty serialId (fun _ => .replicate 16 0) fun _ _ => True)
          (serve (.ofConfig (.withSecret "secret")) request) ⟨{}, 0, 0⟩ xs (.ok response) w' ∧
        Conceals request response ∧
      ∃ next, Proceeds (MemoryStore.setting serialId fun _ => .replicate 16 0)
          (serve (.ofConfig (.withSecret "secret")) request) ⟨{}, 0, 0⟩
          (.call (.findByEmail "ada@example.com") next) ⟨{}, 0, 0⟩ ∧
        ∃ response, next (.error (.db .noRow)) = .done (.ok response) ∧
          Conceals request response := by
  let c : Codec := .ofConfig (.withSecret "secret")
  let request : Request := jsonPost "/auth/login"
    (LoginRequest.format.toJson ⟨"ada@example.com", "correct horse"⟩)
  have hrequest : request.LogsIn "ada@example.com" "correct horse" :=
    ⟨by decide +kernel, rfl, json_loginRequest (by decide) (by decide)⟩
  obtain ⟨-, hmemory, hdatabase, htraced, hsuspended⟩ := failures_concealed c request
  have hlogin : Traced (MemoryStore.faulty serialId (fun _ => .replicate 16 0) fun _ _ => True)
      (c.login "ada@example.com" "correct horse") ⟨{}, 0, 0⟩
      [⟨.findByEmail "ada@example.com", .error (.db .noRow)⟩] (.error (.db .noRow)) ⟨{}, 0, 0⟩ :=
    .step (.lost _ _ _ trivial) (.done _ _)
  have hran := traced_serve_error (serve_login hrequest) hlogin
  obtain ⟨response, hok, hconceals⟩ := htraced _ _ _ _ _ _ hran _ List.mem_cons_self _ rfl trivial
  obtain ⟨next, hnext⟩ : ∃ next, serve c request = .call (.findByEmail "ada@example.com") next := by
    rw [serve_login hrequest]
    exact ⟨_, rfl⟩
  have hstart : Proceeds (MemoryStore.setting serialId fun _ => .replicate 16 0)
      (serve c request) ⟨{}, 0, 0⟩ (.call (.findByEmail "ada@example.com") next) ⟨{}, 0, 0⟩ := by
    rw [hnext]
    exact .start _ _
  refine ⟨request, hrequest, hmemory _ _ _ _ ⟨rfl, rfl, rfl, ?_, rfl⟩,
    hdatabase _ _ _ ⟨?_, rfl, rfl, .nil, rfl⟩, _, response, _, hok ▸ hran, hconceals, next, hstart,
    hsuspended _ _ _ _ _ _ hstart _ trivial⟩
  · exact .cons ⟨rfl, .error (.inr ⟨trivial, trivial⟩)⟩ .nil
  · exact .cons ⟨rfl, .error rfl⟩ .nil

/-- The claim that a failure inside is always told by the one body fails: `HEAD` is answered without
it. -/
theorem head_without_body :
    ∃ token xs response w', Traced (MemoryStore.faulty serialId (fun _ => .replicate 16 0) fun _ _ => True)
        (serve (.ofConfig (.withSecret "secret"))
          ⟨"HEAD", "/auth/me", [("authorization", utf8 ("Bearer " ++ token))], []⟩)
        ⟨{}, 0, 0⟩ xs (.ok response) w' ∧
      (∃ x ∈ xs, x.answer = .error (.db .noRow)) ∧ response.status = 500 ∧
      response.body = .empty := by
  let c : Codec := .ofConfig (.withSecret "secret")
  let S : Setting MemoryStore := MemoryStore.faulty serialId (fun _ => .replicate 16 0) fun _ _ => True
  let w : World MemoryStore := ⟨{}, 0, 0⟩
  let claims := c.accessClaims 0 ⟨"ada", "ada@example.com", .empty⟩
  have hvalid : ValidExpiry claims.expiry :=
    Codec.accessClaims_validExpiry (Codec.ofConfig_clamped _) (by decide) (by decide) _
  obtain ⟨token, htoken⟩ : ∃ token, c.encodeAccess claims = .ok token := Codec.exists_sign rfl _
  have hdecode : c.decodeAccess 0 token = .ok claims := by
    rw [Codec.decodeAccess_encodeAccess hvalid htoken]
    rfl
  let request : Request :=
    ⟨"HEAD", "/auth/me", [("authorization", utf8 ("Bearer " ++ token))], []⟩
  have hbearer : bearerToken request.headers = .ok token := by
    have hknown : c.Recognises token := .access 0 (.inr ⟨_, hdecode⟩)
    refine hknown.bearerToken ⟨[], [], by simp, ?_⟩
    have hname : lowerName "authorization" = "authorization" := by decide +kernel
    simp [request, Headers.first?, hname]
  have hpath : request.path = "/auth/me" := by
    change String.ofList (List.takeWhile _ (List.takeWhile _ "/auth/me".toList)) = _
    decide
  have hroute : Route.ofPath? request.path = some .me := by
    rw [hpath]
    decide
  have hverified : Traced S (c.tokenData token) w [] (.ok claims) w := by
    refine .step (.clock _ w) ?_
    change Traced S (.done (c.decodeAccess 0 token)) w [] (.ok claims) w
    rw [hdecode]
    exact .done _ w
  have hcheck : Traced S (c.checkAccess token) w
      [⟨.isRevoked (blacklistKey token), .error (.db .noRow)⟩] (.error (.db .noRow)) w :=
    hverified.bind (.step (.lost _ _ w trivial) (.done _ w))
  have hresponds : Traced S (handle c request .me) w
      [⟨.isRevoked (blacklistKey token), .error (.db .noRow)⟩]
      (.ok (.ofError (.ofAuth (.db .noRow)))) w := by
    unfold handle withCaller withBearer
    rw [hbearer]
    exact hcheck.attempt.bind (.done _ w)
  have hran : Traced S (serve c request) w
      [⟨.isRevoked (blacklistKey token), .error (.db .noRow)⟩]
      (.ok (failed request (.db .noRow))) w := by
    rw [serve_eq_handle hroute (show "HEAD" ∈ Route.me.methods by decide)]
    exact hresponds.bind (.done _ w)
  have hconceals : Conceals request (failed request (.db .noRow)) := conceals_failed trivial
  exact ⟨token, _, _, w, hran, ⟨_, List.mem_cons_self, rfl⟩, hconceals.status, hconceals.body⟩

end Turnstile.Http
