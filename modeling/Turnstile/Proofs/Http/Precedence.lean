import Turnstile.Postgres.Scripted
import Turnstile.Proofs.Http.Refusal
import Turnstile.Proofs.Postgres.Ending
import Turnstile.Proofs.Postgres.Precedence
import Turnstile.Proofs.Token.Length

/-! Requests that refresh or end a session over a database: nothing is written that has not been
verified, whatever the database replies. -/

namespace Turnstile

open Program Postgres

theorem ApiError.status_ne_ok (e : ApiError) : e.status ≠ 200 := by
  cases e <;> simp [status]

namespace Http

variable {σ α : Type} {database : Statement → σ → Except DbError Reply × σ} {entropy : Nat → Draw}
  {c : Codec} {request : Request} {w w' : World (Recorded σ)} {xs : List Sent}

/-- The response to a failure, or to none. -/
def Tells (response : Response) : Option AuthError → Prop
  | none => response.status = 200
  | some e => response.status = (ApiError.ofAuth e).status ∧
    response.body = .json (ApiError.ofAuth e).body

theorem Tells.status_eq {response : Response} {failure : Option AuthError}
    (h : Tells response failure) : response.status = 200 ↔ failure = none := by
  cases failure with
  | none => exact iff_of_true h rfl
  | some e => exact iff_of_false (h.1 ▸ ApiError.status_ne_ok _) (by simp)

theorem tells_sent {response : Response} {failure : Option AuthError}
    (hmethod : request.method = "POST") (h : Tells response failure) :
    Tells (sent request response) failure := by
  have hstatus : (sent request response).status = response.status := sent_status _ _
  have hbody : (sent request response).body = response.body := by
    unfold sent
    rw [if_neg (by rw [hmethod]; decide)]
    rfl
  cases failure with
  | none => exact hstatus.trans h
  | some e => exact ⟨hstatus.trans h.1, hbody.trans h.2⟩

/-- A request that is refused at once sends nothing. -/
theorem talks_serve_refused {response : Response} {r : Except AuthError Response}
    (hserve : serve c request = pure response >>= fun response => pure (sent request response))
    (hstatus : response.status ≠ 200) (h : Talks database entropy (serve c request) w xs r w') :
    xs = [] ∧ ∃ response, r = .ok response ∧ response.status ≠ 200 := by
  rw [hserve] at h
  obtain ⟨hnone, hr⟩ := h.of_done
  exact ⟨hnone, _, hr, fun hsent => hstatus ((sent_status _ _).symm.trans hsent)⟩

theorem talks_respond {format : Json.Format α} {p : Program α} {r : Except AuthError Response}
    (h : Talks database entropy (respond format p) w xs r w') :
    ∃ r₀ w₁ response, r = .ok response ∧ Tells response (failure? r₀) ∧
      Talks database entropy p w xs r₀ w₁ ∧ w₁.clock ≤ w'.clock := by
  obtain ⟨r₀, w₁, ys, zs, rfl, hran, hrest⟩ := h.of_attempt_bind
  have hclock := hrest.clock_le
  cases r₀ with
  | ok a =>
    obtain ⟨rfl, rfl⟩ := hrest.of_done
    exact ⟨.ok a, w₁, _, rfl, rfl, by rwa [List.append_nil], hclock⟩
  | error e =>
    obtain ⟨rfl, rfl⟩ := hrest.of_done
    exact ⟨.error e, w₁, _, rfl, ⟨rfl, rfl⟩, by rwa [List.append_nil], hclock⟩

/-- A request that is left to a service sends what the service sends, and its response tells of the
failure if there is one. -/
theorem talks_serve_respond {format : Json.Format α} {p : Program α} {r : Except AuthError Response}
    (hmethod : request.method = "POST")
    (hserve : serve c request = respond format p >>= fun response => pure (sent request response))
    (h : Talks database entropy (serve c request) w xs r w') :
    ∃ r₀ w₁ response, r = .ok response ∧ Tells response (failure? r₀) ∧
      Talks database entropy p w xs r₀ w₁ ∧ w₁.clock ≤ w'.clock := by
  rw [hserve] at h
  rcases h.of_bind with ⟨response, w₁, ys, zs, rfl, hran, hsent⟩ | ⟨e, rfl, hran⟩
  · have hclock := hsent.clock_le
    obtain ⟨rfl, rfl⟩ := hsent.of_done
    obtain ⟨r₀, w₂, response', hresponse, htells, hran, hclock'⟩ := talks_respond hran
    obtain rfl := Except.ok.inj hresponse
    exact ⟨r₀, w₂, _, rfl, tells_sent hmethod htells, by rwa [List.append_nil],
      Int.le_trans hclock' hclock⟩
  · obtain ⟨r₀, w₂, response, hresponse, -⟩ := talks_respond hran
    cases hresponse

/-- What is sent to a database keeps to the order. Nothing follows a deletion that found no record: it
is answered as a refresh token that is not in force. Any result is a response, and tells of success as
it should; there is none only if the record was there, and an instant beyond the last one would have
been stored after it. -/
structure Precedes (Checked : List Sent → Statement → Prop) (Success : List Sent → Prop) (stop : Nanos)
    (xs : List Sent) (o : Ending Response) : Prop where
  guarded : Guarded Checked xs
  lost : ∀ before x after found, xs = before ++ x :: after →
    x.statement.Begins "DELETE FROM refresh_tokens " → x.reply = .ok found → found.affected = 0 →
    after = [] ∧ ∃ response, o = .result (.ok response) ∧ response.status = 401 ∧
      response.body = .json (ApiError.unauthorized "Invalid refresh token").body
  answered : ∀ r, o = .result r → ∃ response, r = .ok response ∧ (response.status = 200 ↔ Success xs)
  unanswered : ∀ call, o = .unanswered call →
    (∃ x ∈ xs, x.Spends) ∧ ∃ t ∈ instants stop call, lastInstant < t

variable {Checked : List Sent → Statement → Prop} {Success : List Sent → Prop} {stop : Nanos}

theorem precedes_nil {response : Response} (hstatus : response.status ≠ 200)
    (hfailed : ¬ Success []) : Precedes Checked Success stop [] (.result (.ok response)) where
  guarded := guarded_of_looks (by simp)
  lost := by simp
  answered r hr := by
    cases hr
    exact ⟨response, rfl, iff_of_false hstatus hfailed⟩
  unanswered call hcall := by cases hcall

theorem Precedes.of_course {Writes : List Sent → Option AuthError → Prop}
    {failure : Option AuthError} {response : Response}
    (horderly : ∀ rest failure, Writes rest failure → Orderly rest)
    (hsuccess : failure = none ↔ Success xs) (h : Course Checked Writes xs failure)
    (htells : Tells response failure) :
    Precedes Checked Success stop xs (.result (.ok response)) where
  guarded := h.guarded horderly
  lost before x after found hsent hx hreply hnone := by
    obtain ⟨hafter, rfl⟩ := h.of_lost horderly hsent hx hreply hnone
    exact ⟨hafter, response, rfl, htells⟩
  answered r hr := by
    cases hr
    exact ⟨response, rfl, htells.status_eq.trans hsuccess⟩
  unanswered call hcall := by cases hcall

/-- Where a request ends without a response, it would have gone on to insert something; so the record
was there. -/
theorem Precedes.of_append {x : Sent} {rest : List Sent} {r : Except AuthError Response} {call : Call}
    (h : Precedes Checked Success stop (xs ++ x :: rest) (.result r))
    (hx : x.statement.Begins "INSERT ") (hbeyond : ∃ t ∈ instants stop call, lastInstant < t) :
    Precedes Checked Success stop xs (.unanswered call) where
  guarded := h.guarded.of_append
  lost before y after found hsent hy hreply hnone := by
    obtain ⟨hafter, -⟩ :=
      h.lost before y (after ++ x :: rest) found (by simp [hsent]) hy hreply hnone
    simp at hafter
  answered r hr := by cases hr
  unanswered call' hcall := by
    cases hcall
    exact ⟨h.guarded.spent xs x rest rfl hx, hbeyond⟩

def RefreshChecked (c : Codec) (request : Request) (start stop : Nanos) (looks : List Sent)
    (statement : Statement) : Prop :=
  ∃ body, request.json RefreshRequest.format = .ok body ∧
    Postgres.RefreshChecked c body.refreshToken start stop looks statement

/-- What is shown before a record is deleted for a request to log out. -/
def LogoutChecked (c : Codec) (request : Request) (start stop : Nanos) (looks : List Sent)
    (statement : Statement) : Prop :=
  ∃ body access, request.json RefreshRequest.format = .ok body ∧
    bearerToken request.headers = .ok access ∧
    Postgres.LogoutChecked c access body.refreshToken start stop looks statement

def Renewed (xs : List Sent) : Prop :=
  ∃ x ∈ xs, x.statement.Begins "INSERT INTO refresh_tokens " ∧ x.Succeeds

/-- A refresh record was there and has been deleted, nothing failed, and the access token has been put
on the deny-list, unless it had expired. -/
def LoggedOut (c : Codec) (request : Request) (start stop : Nanos) (xs : List Sent) : Prop :=
  (∃ x ∈ xs, x.Spends) ∧ (∀ x ∈ xs, x.Succeeds) ∧
    ((∃ x ∈ xs, x.statement.Begins "INSERT INTO revoked_tokens ") ∨
      ∃ access, bearerToken request.headers = .ok access ∧ AccessExpired c access start stop)

theorem Rejection.status_ne_ok (e : Rejection) : e.status ≠ 200 := by
  cases e <;> decide

theorem talks_refresh {r : Except AuthError Response} (hpath : request.path = "/auth/refresh")
    (hmethod : request.method = "POST") (h : Talks database entropy (serve c request) w xs r w') :
    Precedes (RefreshChecked c request w.clock w'.clock) Renewed w'.clock xs (.result r) := by
  have hserve : serve c request = handle c request .refresh >>= _ :=
    serve_eq_handle (by rw [hpath]; decide) (by rw [hmethod]; decide)
  unfold handle at hserve
  cases hbody : request.json RefreshRequest.format with
  | error e =>
    rw [hbody] at hserve
    obtain ⟨rfl, response, rfl, hstatus⟩ := talks_serve_refused hserve e.status_ne_ok h
    exact precedes_nil hstatus (by simp [Renewed])
  | ok body =>
    rw [hbody] at hserve
    obtain ⟨r₀, w₁, response, rfl, htells, hran, hclock⟩ := talks_serve_respond hmethod hserve h
    have hcourse := course_refresh hran
    refine .of_course (fun _ _ => Renews.orderly) hcourse.renewed_iff
      (hcourse.mono ?_ fun _ _ h => h) htells
    rintro looks statement ⟨hsucceed, claims, hverified, hchecked⟩
    exact ⟨body, hbody, hsucceed, claims, hverified.mono (fun _ h => h) hclock, hchecked⟩

theorem talks_logout {r : Except AuthError Response} (hpath : request.path = "/auth/logout")
    (hmethod : request.method = "POST") (hlast : w'.clock ≤ lastInstant)
    (h : Talks database entropy (serve c request) w xs r w') :
    Precedes (LogoutChecked c request w.clock w'.clock) (LoggedOut c request w.clock w'.clock)
      w'.clock xs (.result r) := by
  have hserve : serve c request = handle c request .logout >>= _ :=
    serve_eq_handle (by rw [hpath]; decide) (by rw [hmethod]; decide)
  unfold handle at hserve
  cases hbody : request.json RefreshRequest.format with
  | error e =>
    rw [hbody] at hserve
    obtain ⟨rfl, response, rfl, hstatus⟩ := talks_serve_refused hserve e.status_ne_ok h
    exact precedes_nil hstatus (by simp [LoggedOut])
  | ok body =>
    rw [hbody] at hserve
    unfold withPart withBearer at hserve
    cases hbearer : bearerToken request.headers with
    | error e =>
      simp only [hbearer] at hserve
      obtain ⟨rfl, response, rfl, hstatus⟩ := talks_serve_refused hserve e.status_ne_ok h
      exact precedes_nil hstatus (by simp [LoggedOut])
    | ok access =>
      simp only [hbearer] at hserve
      obtain ⟨r₀, w₁, response, rfl, htells, hran, hclock⟩ := talks_serve_respond hmethod hserve h
      have hcourse := (course_logout (Int.le_trans hclock hlast) hran).mono (fun _ _ h => h)
        fun _ _ hdenies => hdenies.mono fun hexpired : AccessExpired c access _ _ =>
          (⟨access, hbearer, hexpired.mono (Int.le_refl _) hclock⟩ :
            ∃ access, bearerToken request.headers = .ok access ∧
              AccessExpired c access w.clock w'.clock)
      refine .of_course (fun _ _ => Denies.orderly) (hcourse.ended_iff fun _ _ h => h.1)
        (hcourse.mono ?_ fun _ _ h => h) htells
      rintro looks statement ⟨hsucceed, claims, accessClaims, hverified, hchecked⟩
      exact ⟨body, access, hbody, hbearer, hsucceed, claims, accessClaims,
        hverified.mono (fun _ h => h) hclock, hchecked⟩

/-- What holds of every result of a request, and of what was sent for it, shows how a request ends that
may be cut off. -/
theorem precedes_of_ends {o : Ending Response} {p : Program Response} (hnil : w.store.sent = [])
    (h : Ends (recorded database) entropy p w o w')
    (htalks : ∀ xs r w'', w''.clock = w'.clock → Talks database entropy p w xs r w'' →
      Precedes Checked Success w''.clock xs (.result r)) :
    Precedes Checked Success w'.clock w'.store.sent o := by
  cases o with
  | result r =>
    obtain ⟨xs, hran⟩ := exists_talks h.runs
    have hsent : w'.store.sent = xs := by rw [hran.appended, hnil, List.nil_append]
    rw [hsent]
    exact htalks xs r w' rfl hran
  | unanswered call =>
    obtain ⟨hbeyond, r, w'', x, rest, hruns, hclock, hsent, hx⟩ := h.exists_runs
    obtain ⟨xs, hran⟩ := exists_talks hruns
    obtain rfl : w'.store.sent ++ x :: rest = xs := by
      rw [← hsent, hran.appended, hnil, List.nil_append]
    have hprecedes := htalks _ r w'' hclock hran
    rw [hclock] at hprecedes
    exact hprecedes.of_append hx hbeyond

/-- Verification precedes every write. Whatever a database replies, a request to refresh or to end a
session comes to an end. Before its first deletion it only looks; it deletes one refresh record at
most, of the subject and with the hash of the token it presents, when that token has been decoded and
the record that was selected is this one and not expired, and further when the user was found, or the
access token verified for the same subject. It inserts something only if the record was there, and
clears entries from the deny-list only after one has been stored; if the record was not there, nothing
follows, and the response says so. There is a response unless an instant was to be inserted beyond the
last one. A refresh succeeds exactly if a new record has been stored, a logout exactly if the record was
there, nothing failed, and the access token is on the deny-list, unless it had expired. -/
theorem verification_precedes_writes (database : Statement → σ → Except DbError Reply × σ)
    (entropy : Nat → Draw) (c : Codec) (request : Request) (w : World (Recorded σ))
    (hstart : w.store.sent = []) (hmethod : request.method = "POST") :
    (∃ o w', Ends (recorded database) entropy (serve c request) w o w') ∧
    ∀ o w', Ends (recorded database) entropy (serve c request) w o w' → w'.clock ≤ lastInstant →
      (request.path = "/auth/refresh" → Precedes (RefreshChecked c request w.clock w'.clock) Renewed
        w'.clock w'.store.sent o) ∧
      (request.path = "/auth/logout" → Precedes (LogoutChecked c request w.clock w'.clock)
        (LoggedOut c request w.clock w'.clock) w'.clock w'.store.sent o) := by
  refine ⟨exists_ends _ _ _ _, fun o w' h hlast => ⟨fun hpath => ?_, fun hpath => ?_⟩⟩
  · refine precedes_of_ends hstart h fun xs r w'' hclock htalks => ?_
    exact hclock ▸ talks_refresh hpath hmethod htalks
  · refine precedes_of_ends hstart h fun xs r w'' hclock htalks => ?_
    exact hclock ▸ talks_logout hpath hmethod (hclock ▸ hlast) htalks

theorem json_of_parse {format : Json.Format α} {a : α} (hjson : request.saysJson = true)
    (hshort : request.body.length ≤ maxBodyBytes) (hparse : format.parse request.body = .ok a) :
    request.json format = .ok a := by
  unfold Request.json
  rw [if_neg (by simp [hjson]), if_neg (Nat.not_lt.mpr hshort), hparse]

/-- A JSON body that is read back is understood, unless it is very long. -/
theorem json_jsonPost {path : String} {format : Json.Format α} {v : Json} {a : α}
    (hshort : 4 * v.compact.length ≤ maxBodyBytes) (hparse : format.parse (utf8 v.toText) = .ok a) :
    (jsonPost path v).json format = .ok a := by
  apply json_of_parse
  · change ((Headers.first? [("content-type", utf8 "application/json")] "content-type").bind
      headerText?).any isJsonType = true
    rw [utf8_eq_charBytes]
    decide +kernel
  · change (utf8 v.toText).length ≤ maxBodyBytes
    rw [Json.toText, utf8_ofList]
    exact Nat.le_trans (length_charBytes_le _) hshort
  · exact hparse

/-- A body that presents a refresh token is understood, unless it is very long. -/
theorem json_refreshRequest {path token : String} (hshort : token.toList.length ≤ 80000) :
    (jsonPost path (RefreshRequest.format.toJson ⟨token⟩)).json RefreshRequest.format =
      .ok ⟨token⟩ := by
  apply json_jsonPost
  · have hquote := Json.length_quote_le token
    have hname : (Json.quote "refresh_token").length = 15 := by decide
    have hbody : (RefreshRequest.format.toJson ⟨token⟩).compact =
        '\x7b' :: (Json.quote "refresh_token" ++ ':' :: Json.quote token) ++ ['\x7d'] := rfl
    rw [hbody]
    simp only [List.length_append, List.length_cons, List.length_nil, maxBodyBytes]
    omega
  · refine Json.Format.parse_write (l := [.text token]) _ [some (.text token)] ?_ rfl rfl
    exact .known 0 _ rfl rfl rfl (Json.reads_text _) (.nil _)

/-- A refresh that comes second: the record is there when it is looked for, and gone when it is to be
deleted. -/
theorem verification_precedes_writes_lost_race :
    ∃ token response w', Ends (recorded Scripted.database) (fun _ => .replicate 16 0)
        (serve (.ofConfig (.withSecret "secret"))
          (jsonPost "/auth/refresh" (RefreshRequest.format.toJson ⟨token⟩)))
        ⟨⟨⟨[⟨none, .ok ⟨[[.text (hashToken token), .time 2592000000000000, .time 0]], 0⟩⟩,
          ⟨none, .ok ⟨[[.text "ada@example.com", .null]], 0⟩⟩], []⟩, []⟩, 0, 0⟩
        (.result (.ok response)) w' ∧
      (∃ looks, w'.store.sent = looks ++ [⟨deleteRecord "ada" (hashToken token), .ok {}⟩]) ∧
      response.status = 401 := by
  let c : Codec := .ofConfig (.withSecret "secret")
  let claims : RefreshClaims := c.refreshClaims 0 (.replicate 16 0) ⟨"ada", "ada@example.com", .empty⟩
  obtain ⟨token, htoken⟩ : ∃ token, c.encodeRefresh claims = .ok token := Codec.exists_sign rfl _
  have hrefresh : c.decodeRefresh 0 token = .ok claims := by
    rw [Codec.decodeRefresh_encodeRefresh (Codec.refreshClaims_validExpiry
      (Codec.ofConfig_clamped _) (by decide) (by decide) _ _) htoken]
    rfl
  have hshort : token.toList.length ≤ 80000 := by
    have hheader : (utf8 (Header.toJson c.algorithm).toText).length ≤ 100 := by
      change (utf8 (Header.toJson .hs256).toText).length ≤ 100
      rw [Json.toText, utf8_ofList]
      decide +kernel
    have hclaims : (utf8 (RefreshClaims.format.toJson claims).toText).length ≤ 200 := by
      rw [Json.toText, utf8_ofList]
      decide +kernel
    have hlong := Codec.length_sign_le htoken
    omega
  let found : Reply := ⟨[[.text (hashToken token), .time 2592000000000000, .time 0]], 0⟩
  let user : Reply := ⟨[[.text "ada@example.com", .null]], 0⟩
  let w : World (Recorded Scripted) := ⟨⟨⟨[⟨none, .ok found⟩, ⟨none, .ok user⟩], []⟩, []⟩, 0, 0⟩
  let w₁ : World (Recorded Scripted) := ⟨⟨⟨[⟨none, .ok user⟩], [selectRecord "ada"]⟩,
    [⟨selectRecord "ada", .ok found⟩]⟩, 0, 0⟩
  let h := host (recorded Scripted.database) fun _ => .replicate 16 0
  let record : RefreshRecord := ⟨"ada", hashToken token, 2592000000000000, 0⟩
  have hcheck : (c.checkRefresh token).run h w = (some (.ok (claims, record)), w₁) := by
    have hclock : h.clock w = 0 := rfl
    have hfound : h.answer (.findByUser claims.subject) w = (some (.ok (some record)), w₁) := rfl
    have hlive : ¬ record.expiresAt ≤ h.clock w₁ :=
      show ¬ (2592000000000000 : Int) ≤ 0 by decide
    unfold Codec.checkRefresh
    simp only [bind_eq, now_bind, Program.run, hclock, hrefresh]
    rw [run_ask_answer hfound]
    dsimp only
    rw [if_neg (not_not.mpr rfl), Program.run, if_neg hlive]
    rfl
  have hrun : ∃ w', (c.refresh token).run h w = (some (.error .invalidRefreshToken), w') ∧
      w'.clock = 0 ∧
      ∃ looks, w'.store.sent = looks ++ [⟨deleteRecord "ada" (hashToken token), .ok {}⟩] := by
    unfold Codec.refresh
    rw [bind_eq, run_bind hcheck]
    exact ⟨_, rfl, rfl, [⟨selectRecord "ada", .ok found⟩, ⟨selectUser "ada", .ok user⟩, _], rfl⟩
  obtain ⟨w', hrun, hclock, looks, hsent⟩ := hrun
  have hpath : (jsonPost "/auth/refresh" (RefreshRequest.format.toJson ⟨token⟩)).path =
      "/auth/refresh" := by
    change String.ofList (("/auth/refresh".toList.takeWhile (· ≠ '#')).takeWhile (· ≠ '?')) = _
    decide +kernel
  have hserve := serve_eq_handle (c := c)
    (show Route.ofPath? (jsonPost "/auth/refresh" (RefreshRequest.format.toJson ⟨token⟩)).path =
      some .refresh by rw [hpath]; decide)
    (show "POST" ∈ Route.refresh.methods by decide)
  rw [handle, json_refreshRequest hshort] at hserve
  let response := sent (jsonPost "/auth/refresh" (RefreshRequest.format.toJson ⟨token⟩))
    (.ofError (.ofAuth .invalidRefreshToken))
  have hserved : (serve c (jsonPost "/auth/refresh" (RefreshRequest.format.toJson ⟨token⟩))).run h w =
      (some (.ok response), w') := by
    rw [hserve]
    refine run_bind ?_
    exact run_attempt_bind hrun
  have hends := ends_of_run hserved
  obtain ⟨-, hall⟩ := verification_precedes_writes Scripted.database (fun _ => .replicate 16 0) c
    (jsonPost "/auth/refresh" (RefreshRequest.format.toJson ⟨token⟩)) w rfl rfl
  have hprecedes := (hall _ _ hends (by rw [hclock]; decide)).1 hpath
  obtain ⟨-, response', hresponse, hstatus, -⟩ :=
    hprecedes.lost looks _ [] {} hsent (deleteRecord_begins _ _) rfl rfl
  cases hresponse
  exact ⟨token, response, w', hends, ⟨looks, hsent⟩, hstatus⟩

end Http

end Turnstile
