import Turnstile.Proofs.Bcrypt
import Turnstile.Proofs.Http.Precedence
import Turnstile.Proofs.Service.Login

/-! Logins over HTTP: whoever is refused is told one and the same thing. -/

namespace Turnstile.Http

open Program

variable {c : Codec} {ids : Nat → String} {entropy : Nat → Draw} {request : Request}
  {w w' : World MemoryStore}

structure Request.LogsIn (request : Request) (email password : String) : Prop where
  path : request.path = "/auth/login"
  method : request.method = "POST"
  body : request.json LoginRequest.format = .ok ⟨email, password⟩

def loginRefused : Response :=
  (Response.ofJson 401 (.record [("error", .text "unauthorized"),
    ("message", .text "Invalid credentials")])).withHeaders sharingHeaders

theorem Request.LogsIn.ofPath? {email password : String} (h : request.LogsIn email password) :
    Route.ofPath? request.path = some .login := by
  rw [h.path]
  decide

theorem serve_login {email password : String} (h : request.LogsIn email password) :
    serve c request = respond TokenResponse.format (c.login email password) >>=
      fun response => pure (sent request response) := by
  rw [serve_eq_handle h.ofPath? (by rw [h.method]; decide), handle, h.body]
  rfl

theorem sent_loginRefused {email password : String} (h : request.LogsIn email password) :
    sent request (.ofError (.ofAuth .invalidCredentials)) = loginRefused :=
  sent_of_mem h.ofPath? (by rw [h.method]; decide) (by rw [h.method]; decide) _

def responseOf {α : Type} (format : Json.Format α) : Except AuthError α → Response
  | .ok a => .ofJson 200 (format.toJson a)
  | .error e => .ofError (.ofAuth e)

/-- A request is answered with what its service comes to. -/
theorem runs_serve_respond {σ α : Type} {S : Setting σ} {w w' : World σ} {format : Json.Format α}
    {p : Program α} {r : Except AuthError Response}
    (hserve : serve c request = respond format p >>= fun response => pure (sent request response))
    (h : Runs S (serve c request) w r w') :
    ∃ r₀ w₁, Runs S p w r₀ w₁ ∧ w'.store = w₁.store ∧
      r = .ok (sent request (responseOf format r₀)) := by
  rw [hserve] at h
  obtain ⟨xs, h⟩ := h.exists_traced
  have hresponds {xs : List Exchange} {r : Except AuthError Response} {w' : World σ}
      (h : Traced S (respond format p) w xs r w') :
      ∃ r₀ w₁, Runs S p w r₀ w₁ ∧ w'.store = w₁.store ∧ r = .ok (responseOf format r₀) := by
    obtain ⟨r₀, w₁, ys, zs, -, hp, h⟩ := traced_attempt_bind h
    refine ⟨r₀, w₁, hp.runs, ?_⟩
    cases r₀ <;>
    · obtain ⟨-, hr, hw⟩ := traced_done h
      exact ⟨by rw [hw]; rfl, hr⟩
  rcases traced_bind h with ⟨response, w₂, ys, zs, -, hrespond, h⟩ | ⟨e, -, hrespond⟩
  · obtain ⟨r₀, w₁, hp, hs, hok⟩ := hresponds hrespond
    obtain rfl := Except.ok.inj hok
    obtain ⟨-, hr, hw⟩ := traced_done h
    exact ⟨r₀, w₁, hp, by rw [hw, World.atTime_store, hs], hr⟩
  · obtain ⟨_, _, _, _, hok⟩ := hresponds hrespond
    cases hok

/-- A body with an email and a password is understood, unless it is very long. -/
theorem json_loginRequest {path email password : String} (hemail : email.toList.length ≤ 40000)
    (hpassword : password.toList.length ≤ 40000) :
    (jsonPost path (LoginRequest.format.toJson ⟨email, password⟩)).json LoginRequest.format =
      .ok ⟨email, password⟩ := by
  apply json_jsonPost
  · have hquote := Json.length_quote_le email
    have hquote' := Json.length_quote_le password
    have hname : (Json.quote "email").length = 7 := by decide
    have hname' : (Json.quote "password").length = 10 := by decide
    have hbody : (LoginRequest.format.toJson ⟨email, password⟩).compact =
        '\x7b' :: (Json.quote "email" ++ ':' :: Json.quote email ++
          ',' :: (Json.quote "password" ++ ':' :: Json.quote password)) ++ ['\x7d'] := rfl
    rw [hbody]
    simp only [List.length_append, List.length_cons, List.length_nil, maxBodyBytes]
    omega
  · refine Json.Format.parse_write (l := [.text email, .text password]) _
      [some (.text email), some (.text password)] ?_ rfl rfl
    exact .known 0 _ rfl rfl rfl (Json.reads_text _)
      (.known 1 _ rfl rfl rfl (Json.reads_text _) (.nil _))

theorem runs_serve_refused {email password : String} {r : Except AuthError Response}
    (hrequest : request.LogsIn email password) (hnot : ¬ w.store.Accepts email password)
    (h : Runs (MemoryStore.setting ids entropy) (serve c request) w r w') :
    r = .ok loginRefused ∧ w'.store = w.store := by
  obtain ⟨r₀, w₁, hlogin, hstore, rfl⟩ := runs_serve_respond (serve_login hrequest) h
  obtain ⟨rfl, hkept⟩ := Codec.login_refused hlogin hnot
  exact ⟨congrArg Except.ok (sent_loginRefused hrequest), hstore.trans hkept⟩

/-- A login decides on the email and the password alone, and fails in one way only. Any run of it comes
to a result: with tokens, exactly if a user is stored under exactly that email with a hash that the
password fits. Otherwise it is refused as a bad pair, and leaves the store as it is. Over HTTP the same
response is then sent, word for word, so that any two logins that fail are answered alike, whatever the
stores and whatever was tried. -/
theorem login_decides (c : Codec) (ids : Nat → String) (entropy : Nat → Draw) (w : World MemoryStore)
    (email password : String) :
    (∃ r w', Runs (MemoryStore.setting ids entropy) (c.login email password) w r w') ∧
    (c.algorithm.isSymmetric = true →
      ∀ r w', Runs (MemoryStore.setting ids entropy) (c.login email password) w r w' →
        ((∃ res, r = .ok res) ↔ w.store.Accepts email password)) ∧
    (¬ w.store.Accepts email password →
      ∀ r w', Runs (MemoryStore.setting ids entropy) (c.login email password) w r w' →
        r = .error .invalidCredentials ∧ w'.store = w.store) ∧
    ∀ request : Request, request.LogsIn email password →
      (∃ r w', Runs (MemoryStore.setting ids entropy) (serve c request) w r w') ∧
      ∀ r w', Runs (MemoryStore.setting ids entropy) (serve c request) w r w' →
        (c.algorithm.isSymmetric = true → w.store.Accepts email password →
          ∃ response, r = .ok response ∧ response.status = 200) ∧
        (¬ w.store.Accepts email password → r = .ok loginRefused ∧ w'.store = w.store) ∧
        ∀ w₂ w₂' email₂ password₂ request₂ r₂, ¬ w.store.Accepts email password →
          ¬ w₂.store.Accepts email₂ password₂ → request₂.LogsIn email₂ password₂ →
          Runs (MemoryStore.setting ids entropy) (serve c request₂) w₂ r₂ w₂' → r = r₂ := by
  have hruns {α : Type} (p : Program α) : ∃ r w', Runs (MemoryStore.setting ids entropy) p w r w' := by
    obtain ⟨r, w', h⟩ := exists_run (MemoryStore.model ids) entropy p w
    exact ⟨r, w', runs_of_run h⟩
  refine ⟨hruns _, fun hc r w' h => Codec.login_succeeds_iff hc h,
    fun hnot r w' h => Codec.login_refused h hnot, fun request hrequest => ⟨hruns _, ?_⟩⟩
  refine fun r w' h => ⟨fun hc haccepts => ?_, fun hnot => runs_serve_refused hrequest hnot h, ?_⟩
  · obtain ⟨r₀, w₁, hlogin, -, rfl⟩ := runs_serve_respond (serve_login hrequest) h
    obtain ⟨res, rfl⟩ := (Codec.login_succeeds_iff hc hlogin).mpr haccepts
    exact ⟨_, rfl, sent_status _ _⟩
  · intro w₂ w₂' email₂ password₂ request₂ r₂ hnot hnot₂ hrequest₂ h₂
    exact (runs_serve_refused hrequest hnot h).1.trans
      (runs_serve_refused hrequest₂ hnot₂ h₂).1.symm

/-- A login whose hash is unusable is answered like one with an unknown email. With a good hash it
succeeds. -/
theorem login_decides_unusable_hash :
    ∃ known unknown : Request, known.LogsIn "ada@example.com" "correct horse" ∧
      unknown.LogsIn "grace@example.com" "correct horse" ∧
      (∃ r w' w₂', Runs (MemoryStore.setting serialId fun _ => .replicate 16 0)
          (serve (.ofConfig (.withSecret "secret")) known)
          ⟨MemoryStore.withUser serialId "ada@example.com" none "no hash" {}, 0, 0⟩ r w' ∧
        Runs (MemoryStore.setting serialId fun _ => .replicate 16 0)
          (serve (.ofConfig (.withSecret "secret")) unknown) ⟨{}, 0, 0⟩ r w₂' ∧
        r = .ok loginRefused) ∧
      ∃ response w', Runs (MemoryStore.setting serialId fun _ => .replicate 16 0)
          (serve (.ofConfig (.withSecret "secret")) known)
          ⟨MemoryStore.withUser serialId "ada@example.com" none
            (Password.hash (.replicate 16 0) "correct horse") {}, 0, 0⟩ (.ok response) w' ∧
        response.status = 200 := by
  let c : Codec := .ofConfig (.withSecret "secret")
  let entropy : Nat → Draw := fun _ => .replicate 16 0
  let ids : Nat → String := serialId
  let known : Request := jsonPost "/auth/login"
    (LoginRequest.format.toJson ⟨"ada@example.com", "correct horse"⟩)
  let unknown : Request := jsonPost "/auth/login"
    (LoginRequest.format.toJson ⟨"grace@example.com", "correct horse"⟩)
  have hknown : known.LogsIn "ada@example.com" "correct horse" :=
    ⟨by decide +kernel, rfl, json_loginRequest (by decide) (by decide)⟩
  have hunknown : unknown.LogsIn "grace@example.com" "correct horse" :=
    ⟨by decide +kernel, rfl, json_loginRequest (by decide) (by decide)⟩
  let unusable : World MemoryStore :=
    ⟨MemoryStore.withUser serialId "ada@example.com" none "no hash" {}, 0, 0⟩
  let usable : World MemoryStore := ⟨MemoryStore.withUser serialId "ada@example.com" none
    (Password.hash (.replicate 16 0) "correct horse") {}, 0, 0⟩
  have hunusable : ¬ unusable.store.Accepts "ada@example.com" "correct horse" := by
    rintro ⟨found, stored, hfound, hstored, hverify⟩
    obtain rfl := Option.some.inj hfound
    obtain rfl := Option.some.inj hstored
    cases hverify
  have hnobody : ¬ MemoryStore.Accepts {} "grace@example.com" "correct horse" := by
    rintro ⟨found, stored, hfound, -⟩
    cases hfound
  have husable : usable.store.Accepts "ada@example.com" "correct horse" :=
    ⟨_, _, rfl, rfl, Password.verify_hash _ _⟩
  obtain ⟨-, -, -, hhttp⟩ := login_decides c ids entropy unusable "ada@example.com" "correct horse"
  obtain ⟨⟨r, w', h⟩, hanswer⟩ := hhttp known hknown
  obtain ⟨-, -, -, hhttp₂⟩ := login_decides c ids entropy ⟨{}, 0, 0⟩ "grace@example.com" "correct horse"
  obtain ⟨⟨r₂, w₂', h₂⟩, -⟩ := hhttp₂ unknown hunknown
  obtain ⟨-, hrefused, hsame⟩ := hanswer r w' h
  obtain ⟨-, -, -, hhttp₃⟩ := login_decides c ids entropy usable "ada@example.com" "correct horse"
  obtain ⟨⟨r₃, w₃', h₃⟩, hanswer₃⟩ := hhttp₃ known hknown
  obtain ⟨response, rfl, hstatus⟩ := (hanswer₃ r₃ w₃' h₃).1 rfl husable
  obtain rfl := hsame ⟨{}, 0, 0⟩ w₂' _ _ unknown r₂ hunusable hnobody hunknown h₂
  exact ⟨known, unknown, hknown, hunknown, ⟨r, w', w₂', h, h₂, (hrefused hunusable).1⟩,
    response, w₃', h₃, hstatus⟩

end Turnstile.Http
