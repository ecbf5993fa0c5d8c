import Turnstile.Http.Router
import Turnstile.Proofs.Service.Refusal

/-! Requests that are refused with status 401 or 403 have changed nothing, and neither has any request
that only asks about permissions. -/

namespace Turnstile

open Program

namespace Http

variable {c : Codec} {ids : Nat → String} {entropy : Nat → Draw}
  {mayFail : Call → AuthError → Prop} {request : Request}
  {w w' : World MemoryStore} {xs : List Exchange}

theorem sent_status (request : Request) (response : Response) :
    (sent request response).status = response.status := by
  unfold sent
  dsimp only
  split_ifs <;> rfl

/-- A program that always responds, and has changed nothing if it responds with status 401 or 403,
unless a call was refused after one that wrote. -/
def RefusesUnchanged (ids : Nat → String) (entropy : Nat → Draw) (mayFail : Call → AuthError → Prop)
    (p : Program Response) : Prop :=
  ∀ w xs r w', Traced (MemoryStore.faulty ids entropy mayFail) p w xs r w' →
    ∃ response, r = .ok response ∧ (response.status = 401 ∨ response.status = 403 →
      Kept w w' ∨ RefusedAfterWrite xs)

namespace RefusesUnchanged

theorem done (response : Response) :
    RefusesUnchanged ids entropy mayFail (.done (.ok response)) := by
  intro w xs r w' h
  obtain ⟨-, rfl, hw⟩ := traced_done h
  exact ⟨response, rfl, fun _ => .inl (.of_eq (by rw [hw]; rfl))⟩

/-- A failure of a service is caught, and reported as a response. -/
theorem respond {α : Type} {format : Json.Format α} {p : Program α}
    (hp : ∀ w xs r w', Traced (MemoryStore.faulty ids entropy mayFail) p w xs r w' → Refused r →
      Kept w w' ∨ RefusedAfterWrite xs) :
    RefusesUnchanged ids entropy mayFail (respond format p) := by
  intro w xs r w' h
  obtain ⟨r₀, w₁, ys, zs, rfl, hran, h⟩ := traced_attempt_bind h
  cases r₀ with
  | ok a =>
    obtain ⟨-, rfl, -⟩ := traced_done h
    refine ⟨_, rfl, ?_⟩
    rintro (hstatus | hstatus) <;> cases hstatus
  | error e =>
    have hclock := h.runs.clock_le
    obtain ⟨rfl, rfl, hw⟩ := traced_done h
    have hend : Kept w₁ w' := .of_eq (by rw [hw]; rfl)
    refine ⟨_, rfl, fun hrefused => ?_⟩
    rw [List.append_nil]
    exact (hp _ _ _ _ hran hrefused).imp_left fun hkept => hkept.trans hend hclock

theorem withPart {α : Type} {part : Except Rejection α} {next : α → Program Response}
    (h : ∀ a, RefusesUnchanged ids entropy mayFail (next a)) :
    RefusesUnchanged ids entropy mayFail (withPart part next) := by
  cases part with
  | ok a => exact h a
  | error e => exact done _

theorem withBearer {next : String → Program Response}
    (h : ∀ token, RefusesUnchanged ids entropy mayFail (next token)) :
    RefusesUnchanged ids entropy mayFail (withBearer request next) := by
  unfold Http.withBearer
  cases bearerToken request.headers with
  | ok token => exact h token
  | error e => exact done _

theorem withCaller {next : AccessClaims → Program Response}
    (h : ∀ claims, RefusesUnchanged ids entropy mayFail (next claims)) :
    RefusesUnchanged ids entropy mayFail (withCaller c request next) := by
  refine withBearer fun token w xs r w' h' => ?_
  obtain ⟨r₀, w₁, ys, zs, rfl, hran, h'⟩ := traced_attempt_bind h'
  have hkept : Kept w w₁ := (Codec.looks_checkAccess token).kept hran.runs.proceeds
  have hnext : ∃ response, r = .ok response ∧ (response.status = 401 ∨ response.status = 403 →
      Kept w₁ w' ∨ RefusedAfterWrite zs) := by
    cases r₀ with
    | ok claims => exact h claims _ _ _ _ h'
    | error e => exact done _ _ _ _ _ h'
  obtain ⟨response, hr, hrefused⟩ := hnext
  refine ⟨response, hr, fun hstatus => ?_⟩
  exact (hrefused hstatus).imp (fun h => hkept.trans h h'.runs.clock_le) fun h => h.append ys

theorem handle (route : Route) : RefusesUnchanged ids entropy mayFail (handle c request route) := by
  cases route with
  | login =>
    exact withPart fun body => respond fun _ _ _ _ h hr =>
      (Codec.cautious_login body.email body.password).traced h hr
  | register =>
    exact withPart fun body => respond fun _ _ _ _ h hr =>
      (Codec.cautious_register body.email body.password body.name).traced h hr
  | refresh =>
    exact withPart fun body => respond fun _ _ _ _ h hr =>
      (Codec.cautious_refresh body.refreshToken).traced h hr
  | logout =>
    exact withPart fun body => withBearer fun access => respond fun _ _ _ _ h hr =>
      (Codec.cautious_logout access body.refreshToken).traced h hr
  | checkPermission =>
    exact withPart fun asked => withBearer fun access => respond fun _ _ _ _ h _ =>
      .inl ((Codec.looks_confirmPermission access asked.resource asked.method).kept h.runs.proceeds)
  | me =>
    exact withCaller fun claims => respond fun _ _ _ _ h _ =>
      .inl ((Codec.looks_describeCaller claims).kept h.runs.proceeds)

theorem routed : RefusesUnchanged ids entropy mayFail (routed c request) := by
  unfold Http.routed
  split
  · unfold dispatch
    split_ifs
    · exact handle _
    · split
      · exact withCaller fun _ => done _
      · exact done _
  · exact withCaller fun _ => done _

theorem serve : RefusesUnchanged ids entropy mayFail (serve c request) := by
  unfold Http.serve
  split_ifs
  · exact done _
  · intro w xs r w' h
    rcases traced_bind h with ⟨response, w₁, ys, zs, rfl, hran, h⟩ | ⟨e, rfl, hran⟩
    · obtain ⟨response', hr', hrefused⟩ := routed _ _ _ _ hran
      obtain rfl := Except.ok.inj hr'
      have hclock := h.runs.clock_le
      obtain ⟨rfl, rfl, hw⟩ := traced_done h
      have hend : Kept w₁ w' := .of_eq (by rw [hw]; rfl)
      refine ⟨_, rfl, fun hstatus => ?_⟩
      rw [sent_status] at hstatus
      rw [List.append_nil]
      exact (hrefused hstatus).imp_left fun hkept => hkept.trans hend hclock
    · obtain ⟨response, hr, -⟩ := routed _ _ _ _ hran
      cases hr

end RefusesUnchanged

private theorem looks_respond {α : Type} {format : Json.Format α} {p : Program α}
    (hp : p.CallsOnly Call.Looks) : (respond format p).CallsOnly Call.Looks :=
  hp.attempt.bind fun r => by cases r <;> trivial

private theorem looks_withCaller {next : AccessClaims → Program Response}
    (h : ∀ claims, (next claims).CallsOnly Call.Looks) :
    (withCaller c request next).CallsOnly Call.Looks := by
  unfold withCaller withBearer
  cases bearerToken request.headers with
  | error e => trivial
  | ok token =>
    refine (Codec.looks_checkAccess token).attempt.bind fun r => ?_
    cases r with
    | ok claims => exact h claims
    | error e => trivial

private theorem looks_serve
    (h : request.path = "/auth/me" ∨ request.path = "/auth/check-permission") :
    (serve c request).CallsOnly Call.Looks := by
  have hrouted : (routed c request).CallsOnly Call.Looks := by
    unfold routed dispatch
    rcases h with h | h
    · have hroute : Route.ofPath? "/auth/me" = some .me := by decide
      rw [h, hroute]
      dsimp only
      split_ifs
      · exact looks_withCaller fun claims => looks_respond (Codec.looks_describeCaller claims)
      · exact looks_withCaller fun _ => trivial
    · have hroute : Route.ofPath? "/auth/check-permission" = some .checkPermission := by decide
      rw [h, hroute]
      dsimp only
      split_ifs
      · unfold handle withPart
        cases request.permission with
        | error e => trivial
        | ok asked =>
          unfold withBearer
          cases bearerToken request.headers with
          | error e => trivial
          | ok access =>
            exact looks_respond
              (Codec.looks_confirmPermission access asked.resource asked.method)
      · trivial
  unfold serve
  split_ifs
  · trivial
  · exact hrouted.bind fun _ => trivial

/-- A request that is answered with status 401 or 403 has changed nothing but entries of the deny-list
past their deadline, unless a call to the store was refused after one that wrote. Asking about a
permission or about oneself changes nothing else either, whatever comes of it. -/
theorem refused_keeps (c : Codec) (ids : Nat → String) (entropy : Nat → Draw)
    (mayFail : Call → AuthError → Prop) (request : Request) (w w' : World MemoryStore) :
    (∀ xs r, Traced (MemoryStore.faulty ids entropy mayFail) (serve c request) w xs r w' →
      ∃ response, r = .ok response ∧ (response.status = 401 ∨ response.status = 403 →
        Kept w w' ∨ RefusedAfterWrite xs)) ∧
    (request.path = "/auth/me" ∨ request.path = "/auth/check-permission" →
      ∀ p, Proceeds (MemoryStore.faulty ids entropy mayFail) (serve c request) w p w' → Kept w w') :=
  ⟨fun _ _ h => RefusesUnchanged.serve _ _ _ _ h, fun hpath _ h => (looks_serve hpath).kept h⟩

theorem serve_eq_handle {route : Route} (hpath : Route.ofPath? request.path = some route)
    (hmethod : request.method ∈ route.methods) :
    serve c request = handle c request route >>= fun response => pure (sent request response) := by
  have hoptions : request.method ≠ "OPTIONS" := by
    rintro heq
    rw [heq] at hmethod
    cases route <;> exact absurd hmethod (by decide)
  unfold serve routed
  rw [if_neg hoptions, hpath]
  dsimp only [dispatch]
  rw [if_pos hmethod]

/-- A response of a handler is sent as it is, for any page to read. -/
theorem sent_of_mem {route : Route} (hpath : Route.ofPath? request.path = some route)
    (hmethod : request.method ∈ route.methods) (hhead : request.method ≠ "HEAD")
    (response : Response) : sent request response = response.withHeaders sharingHeaders := by
  have hheaders : allowHeaders request = [] := by
    unfold allowHeaders
    rw [hpath]
    exact if_pos hmethod
  unfold sent
  rw [hheaders, if_neg hhead]
  rfl

/-- A failed service is reported. -/
theorem traced_serve_error {σ α : Type} {S : Setting σ} {w w' : World σ} {format : Json.Format α}
    {p : Program α} {e : AuthError}
    (hserve : serve c request = respond format p >>= fun response => pure (sent request response))
    (h : Traced S p w xs (.error e) w') :
    Traced S (serve c request) w xs (.ok (sent request (.ofError (.ofAuth e)))) w' := by
  have hrespond : Traced S (respond format p) w (xs ++ []) (.ok (.ofError (.ofAuth e))) w' :=
    h.attempt.bind (.done _ _)
  have hsent := hrespond.bind (f := fun response => pure (sent request response)) (.done _ _)
  simp only [List.append_nil] at hsent
  rw [hserve]
  exact hsent

def jsonPost (path : String) (body : Json) : Request :=
  ⟨"POST", path, [("content-type", utf8 "application/json")], utf8 body.toText⟩

/-- A login with an unknown email. -/
theorem refused_keeps_unknown_email : ∃ xs response w', Traced
    (MemoryStore.faulty serialId (fun n => .replicate 16 n.toUInt8) fun _ _ => False)
    (serve (.ofConfig (.withSecret "secret")) (jsonPost "/auth/login"
      (LoginRequest.format.toJson ⟨"ada@example.com", "correct horse"⟩)))
    ⟨{}, 0, 0⟩ xs (.ok response) w' ∧ response.status = 401 ∧ Kept ⟨{}, 0, 0⟩ w' := by
  let c : Codec := .ofConfig (.withSecret "secret")
  let request : Request := jsonPost "/auth/login"
    (LoginRequest.format.toJson ⟨"ada@example.com", "correct horse"⟩)
  have hbody : request.json LoginRequest.format = .ok ⟨"ada@example.com", "correct horse"⟩ := by
    change (jsonPost _ _).json _ = _
    unfold Request.json jsonPost Json.toText
    simp only [utf8_ofList, utf8_eq_charBytes "application/json"]
    decide +kernel
  have hserve := serve_eq_handle (c := c) (show Route.ofPath? request.path = some .login by
    decide +kernel) (show request.method ∈ Route.login.methods by decide)
  rw [handle, hbody] at hserve
  have hlogin : Traced (MemoryStore.faulty serialId (fun n => .replicate 16 n.toUInt8) fun _ _ => False)
      (c.login "ada@example.com" "correct horse") ⟨{}, 0, 0⟩
      [⟨.findByEmail "ada@example.com", .ok none⟩] (.error .invalidCredentials) ⟨{}, 0, 0⟩ :=
    .step (.call _ _ _) (.done _ _)
  have hran := traced_serve_error hserve hlogin
  obtain ⟨response, hresponse, hkept⟩ := (refused_keeps c _ _ _ request _ _).1 _ _ hran
  have hstatus : response.status = 401 := by
    rw [← Except.ok.inj hresponse, sent_status]
    rfl
  refine ⟨_, _, _, hresponse ▸ hran, hstatus, (hkept (.inl hstatus)).resolve_right ?_⟩
  rintro ⟨ys, x, zs, hxs, -, y, hy, -⟩
  have hlength := congrArg List.length hxs
  have hpos := List.length_pos_of_mem hy
  simp at hlength
  omega

/-- A registration that is refused when the user is there already, for a store that reports a lost
grant as a bad token. -/
theorem refused_after_creation : ∃ xs response w', Traced
    (MemoryStore.faulty serialId (fun n => .replicate 16 n.toUInt8)
      fun d e => d.method = .grantRole ∧ e = .invalidToken)
    (serve (.ofConfig (.withSecret "secret")) (jsonPost "/auth/register"
      (RegisterRequest.format.toJson ⟨"ada@example.com", "correct horse", none⟩)))
    ⟨MemoryStore.insertRole ⟨superadminRole, []⟩ {}, 0, 0⟩ xs (.ok response) w' ∧
    response.status = 401 ∧ w'.store.users.size = 1 := by
  let c : Codec := .ofConfig (.withSecret "secret")
  let request : Request := jsonPost "/auth/register"
    (RegisterRequest.format.toJson ⟨"ada@example.com", "correct horse", none⟩)
  let w : World MemoryStore := ⟨MemoryStore.insertRole ⟨superadminRole, []⟩ {}, 0, 0⟩
  have hbody : request.json RegisterRequest.format =
      .ok ⟨"ada@example.com", "correct horse", none⟩ := by
    change (jsonPost _ _).json _ = _
    unfold Request.json jsonPost Json.toText
    simp only [utf8_ofList, utf8_eq_charBytes "application/json"]
    decide +kernel
  have hserve := serve_eq_handle (c := c) (show Route.ofPath? request.path = some .register by
    decide +kernel) (show request.method ∈ Route.register.methods by decide)
  rw [handle, hbody] at hserve
  have hregister : ∃ xs w', Traced (MemoryStore.faulty serialId (fun n => .replicate 16 n.toUInt8)
      fun d e => d.method = .grantRole ∧ e = .invalidToken)
      (c.register "ada@example.com" "correct horse" none) w xs (.error .invalidToken) w' ∧
        w'.store.users.size = 1 := by
    have htrim : trim "ada@example.com" = "ada@example.com" := by decide
    have hemail : ¬ ("ada@example.com" = "" ∨ '@' ∉ "ada@example.com".toList) := by decide
    unfold Codec.register
    simp only [htrim, hemail, if_false]
    -- The email is looked up, a salt is drawn, the user is created, and the grant is lost.
    exact ⟨_, _, .step (.call _ _ _) (.step (.draw _ _) (.step (.call _ _ _)
      (.step (.lost _ _ _ ⟨rfl, rfl⟩) (.done _ _)))), rfl⟩
  obtain ⟨xs, w', hran, hsize⟩ := hregister
  refine ⟨xs, _, w', traced_serve_error hserve hran, ?_, hsize⟩
  rw [sent_status]
  rfl

end Http

end Turnstile
