import Turnstile.Proofs.Http.Bearer
import Turnstile.Proofs.Http.Login
import Turnstile.Proofs.Service.Permissions

/-! Who sends a request is checked in two ways: before the handler, where a caller asks about itself, and
inside it, where a permission is asked for. Both come to the same for every list of headers. -/

namespace Turnstile

open Program

namespace Http

variable {c : Codec} {ids : Nat → String} {entropy : Nat → Draw} {request : Request}
  {w : World MemoryStore}

/-- The claims of whoever sends some headers at an instant, or why it cannot be told who that is. -/
def authenticate (c : Codec) (w : World MemoryStore) (h : Headers) : Except ApiError AccessClaims :=
  match bearerToken h with
  | .error e => .error e
  | .ok token =>
    match c.decodeAccess w.clock token with
    | .error e => .error (.ofAuth e)
    | .ok claims =>
      if (w.store.isRevoked w.clock (blacklistKey token)).1 then .error (.ofAuth .tokenRevoked)
      else .ok claims

/-- Whether claims carry a permission, by the roles now defined. -/
def Permitted (s : MemoryStore) (claims : AccessClaims) (asked : PermissionKey) : Prop :=
  claims.superuser = true ∨ ∃ name ∈ claims.roles, s.Stands name asked

/-- What the bearer of claims is told about itself, by the roles now defined. -/
def description (s : MemoryStore) (claims : AccessClaims) : MeResponse :=
  ⟨claims.subject, claims.email, claims.roles.elems,
    (permissionsFor (claims.roles.elems.filterMap s.roles.get?)).elems, claims.superuser,
    claims.expiry⟩

theorem status_of_bearerToken_error {h : Headers} {e : ApiError} (he : bearerToken h = .error e) :
    e.status = 401 := by
  unfold bearerToken at he
  split at he
  · obtain rfl := Except.error.inj he
    rfl
  · dsimp only at he
    split_ifs at he
    obtain rfl := Except.error.inj he
    rfl

/-- Nobody is refused for another reason than a missing, bad, expired or revoked token. -/
theorem status_of_authenticate_error {h : Headers} {e : ApiError}
    (he : authenticate c w h = .error e) : e.status = 401 := by
  unfold authenticate at he
  cases hbearer : bearerToken h with
  | error e' =>
    rw [hbearer] at he
    obtain rfl := Except.error.inj he
    exact status_of_bearerToken_error hbearer
  | ok token =>
    rw [hbearer] at he
    dsimp only at he
    cases hdecode : c.decodeAccess w.clock token with
    | error e' =>
      rw [hdecode] at he
      obtain rfl := Except.error.inj he
      rcases Codec.decodeAccess_error hdecode with rfl | rfl <;> rfl
    | ok claims =>
      rw [hdecode] at he
      dsimp only at he
      split_ifs at he
      obtain rfl := Except.error.inj he
      rfl

/-- A check of a token that headers carry comes to what the headers come to, and leaves the roles as they
are. -/
private theorem run_checkAccess_bearer (ids : Nat → String) (entropy : Nat → Draw) {h : Headers}
    {token : String}
    (hbearer : bearerToken h = .ok token) :
    (∃ e w', authenticate c w h = .error (.ofAuth e) ∧
      (c.checkAccess token).run ((MemoryStore.model ids).host entropy) w = (some (.error e), w')) ∨
    ∃ claims w', authenticate c w h = .ok claims ∧ w'.store.roles = w.store.roles ∧
      (c.checkAccess token).run ((MemoryStore.model ids).host entropy) w = (some (.ok claims), w') := by
  have hcheck := Codec.run_checkAccess (c := c) ids entropy w token
  unfold authenticate
  rw [hbearer]
  dsimp only
  cases hdecode : c.decodeAccess w.clock token with
  | error e =>
    rw [hdecode] at hcheck
    exact .inl ⟨e, _, rfl, hcheck⟩
  | ok claims =>
    rw [hdecode] at hcheck
    cases hlisted : (w.store.isRevoked w.clock (blacklistKey token)).1 with
    | true =>
      rw [hlisted] at hcheck
      exact .inl ⟨.tokenRevoked, _, rfl, hcheck⟩
    | false =>
      rw [hlisted] at hcheck
      have hframe := MemoryStore.frame_model ids w.clock (.isRevoked (blacklistKey token)) w.store
      exact .inr ⟨claims, _, rfl, hframe.roles, hcheck⟩

/-- Headers that come to nobody are refused, by whatever refuses a token that fails a check. -/
theorem run_withBearer_of_error {next : String → Program Response} {e : ApiError}
    (he : authenticate c w request.headers = .error e)
    (hnext : ∀ token e' w',
      (c.checkAccess token).run ((MemoryStore.model ids).host entropy) w = (some (.error e'), w') →
        (next token).run ((MemoryStore.model ids).host entropy) w =
          (some (.ok (.ofError (.ofAuth e'))), w')) :
    ∃ w', (withBearer request next).run ((MemoryStore.model ids).host entropy) w =
      (some (.ok (.ofError e)), w') := by
  unfold withBearer
  cases hbearer : bearerToken request.headers with
  | error e' =>
    unfold authenticate at he
    rw [hbearer] at he
    obtain rfl := Except.error.inj he
    exact ⟨w, rfl⟩
  | ok token =>
    rcases run_checkAccess_bearer ids entropy hbearer with ⟨e', w', hcaller, hcheck⟩ |
      ⟨claims, w', hcaller, -⟩
    · obtain rfl := Except.error.inj (he.symm.trans hcaller)
      exact ⟨w', hnext token e' w' hcheck⟩
    · cases he.symm.trans hcaller

/-- Headers that come to a caller carry a token that passes a check. -/
theorem withBearer_of_ok (ids : Nat → String) (entropy : Nat → Draw) (next : String → Program Response)
    {claims : AccessClaims} (hok : authenticate c w request.headers = .ok claims) :
    ∃ token w', withBearer request next = next token ∧ w'.store.roles = w.store.roles ∧
      (c.checkAccess token).run ((MemoryStore.model ids).host entropy) w = (some (.ok claims), w') := by
  unfold withBearer
  cases hbearer : bearerToken request.headers with
  | error e =>
    unfold authenticate at hok
    rw [hbearer] at hok
    cases hok
  | ok token =>
    rcases run_checkAccess_bearer ids entropy hbearer with ⟨e, w', hcaller, -⟩ |
      ⟨claims', w', hcaller, hroles, hcheck⟩
    · cases hok.symm.trans hcaller
    · obtain rfl := Except.ok.inj (hok.symm.trans hcaller)
      exact ⟨token, w', rfl, hroles, hcheck⟩

structure Request.Gets (request : Request) (path : String) : Prop where
  path_eq : request.path = path
  method_eq : request.method = "GET"

theorem run_respond {σ α : Type} {h : Host σ} {format : Json.Format α} {p : Program α}
    {r : Except AuthError α} {s s' : σ} (hp : p.run h s = (some r, s')) :
    (respond format p).run h s = (some (.ok (responseOf format r)), s') := by
  unfold respond
  rw [bind_eq, run_attempt_bind hp]
  cases r <;> rfl

theorem Route.ofPath?_path (route : Route) : ofPath? route.path = some route := by
  cases route <;> decide

/-- What a handler responds is sent as it is, to be read by any page. -/
theorem run_of_handle {σ : Type} {h : Host σ} (route : Route) {response : Response} {s s' : σ}
    (hgets : request.Gets route.path) (hallowed : "GET" ∈ route.methods)
    (hr : (handle c request route).run h s = (some (.ok response), s')) :
    run h c request s = (response.withHeaders sharingHeaders, s') := by
  have hroute : Route.ofPath? request.path = some route := by
    rw [hgets.path_eq]
    exact route.ofPath?_path
  have hmethod : request.method ∈ route.methods := hgets.method_eq ▸ hallowed
  have hsent : sent request response = response.withHeaders sharingHeaders :=
    sent_of_mem hroute hmethod (by rw [hgets.method_eq]; decide) response
  unfold run
  rw [serve_eq_handle hroute hmethod, bind_eq, run_bind hr, ← hsent]
  rfl

/-- Nobody learns anything about itself without a token in force. -/
theorem run_me_of_error (ids : Nat → String) (entropy : Nat → Draw) (h : request.Gets "/auth/me")
    {e : ApiError}
    (he : authenticate c w request.headers = .error e) :
    ∃ w', run ((MemoryStore.model ids).host entropy) c request w =
      ((Response.ofError e).withHeaders sharingHeaders, w') := by
  have hhandle : ∃ w', (handle c request .me).run ((MemoryStore.model ids).host entropy) w =
      (some (.ok (.ofError e)), w') := by
    refine run_withBearer_of_error he fun token e' w' hcheck => ?_
    rw [bind_eq, run_attempt_bind hcheck]
    rfl
  obtain ⟨w', hr⟩ := hhandle
  exact ⟨w', run_of_handle .me h (by decide) hr⟩

/-- The bearer of a token in force is told what its claims say. -/
theorem run_me_of_ok (ids : Nat → String) (entropy : Nat → Draw) (h : request.Gets "/auth/me")
    {claims : AccessClaims}
    (hok : authenticate c w request.headers = .ok claims) :
    ∃ w', run ((MemoryStore.model ids).host entropy) c request w =
      ((Response.ofJson 200 (MeResponse.format.toJson (description w.store claims))).withHeaders
        sharingHeaders, w') := by
  obtain ⟨token, w', hbearer, hroles, hcheck⟩ := withBearer_of_ok ids entropy _ hok
  have hdescribe : (describeCaller claims).run ((MemoryStore.model ids).host entropy) w' =
      (some (.ok (description w.store claims)), w') := by
    unfold description
    rw [← hroles]
    rfl
  refine ⟨w', run_of_handle .me h (by decide) ?_⟩
  unfold handle withCaller
  rw [hbearer, bind_eq, run_attempt_bind hcheck]
  exact run_respond hdescribe

/-- A permission is asked for by the bearer of a token. -/
theorem handle_check {asked : PermissionKey} (hasked : request.permission = .ok asked) :
    handle c request .checkPermission = withBearer request fun access =>
      respond MessageResponse.format (c.confirmPermission access asked.resource asked.method) := by
  unfold handle withPart
  rw [hasked]

/-- No permission is confirmed or denied without a token in force. -/
theorem run_check_of_error (ids : Nat → String) (entropy : Nat → Draw)
    (h : request.Gets "/auth/check-permission")
    {asked : PermissionKey} (hasked : request.permission = .ok asked) {e : ApiError}
    (he : authenticate c w request.headers = .error e) :
    ∃ w', run ((MemoryStore.model ids).host entropy) c request w =
      ((Response.ofError e).withHeaders sharingHeaders, w') := by
  have hhandle : ∃ w', (handle c request .checkPermission).run ((MemoryStore.model ids).host entropy) w =
      (some (.ok (.ofError e)), w') := by
    rw [handle_check hasked]
    refine run_withBearer_of_error he fun token e' w' hcheck => ?_
    exact run_respond (run_bind_error (run_bind_error hcheck))
  obtain ⟨w', hr⟩ := hhandle
  exact ⟨w', run_of_handle .checkPermission h (by decide) hr⟩

/-- A permission is confirmed to the bearer of a token in force, or denied. -/
theorem run_check_of_ok (ids : Nat → String) (entropy : Nat → Draw)
    (h : request.Gets "/auth/check-permission")
    {asked : PermissionKey} (hasked : request.permission = .ok asked) {claims : AccessClaims}
    (hok : authenticate c w request.headers = .ok claims) :
    ∃ response w', run ((MemoryStore.model ids).host entropy) c request w = (response, w') ∧
      (response.status = 200 ∨ response.status = 403) ∧
      (response.status = 200 ↔ Permitted w.store claims asked) := by
  obtain ⟨token, w', hbearer, hroles, hcheck⟩ := withBearer_of_ok ids entropy _ hok
  obtain ⟨b, w'', hpermit, hsame, hb⟩ := (MemoryStore.findsRoles ids entropy w').run_claimsPermit_iff
    claims asked.resource asked.method rfl
  rw [hsame] at hpermit
  have hpermitted : b = true ↔ Permitted w.store claims asked := by
    rw [hb]
    unfold Permitted MemoryStore.Stands
    rw [hroles]
  have hrequired : (c.requirePermission token asked.resource asked.method).run
      ((MemoryStore.model ids).host entropy) w =
        (some (if b then .ok claims else .error .permissionDenied), w') := by
    unfold Codec.requirePermission
    rw [bind_eq, run_bind hcheck, bind_eq, run_bind hpermit]
    cases b <;> rfl
  have hsend {r : Except AuthError MessageResponse} {w'' : World MemoryStore}
      (hr : (c.confirmPermission token asked.resource asked.method).run
        ((MemoryStore.model ids).host entropy) w = (some r, w'')) :
      run ((MemoryStore.model ids).host entropy) c request w =
        ((responseOf MessageResponse.format r).withHeaders sharingHeaders, w'') := by
    refine run_of_handle .checkPermission h (by decide) ?_
    rw [handle_check hasked, hbearer]
    exact run_respond hr
  cases b with
  | true =>
    let granted : MessageResponse := ⟨"permission granted"⟩
    have hconfirmed := hsend (run_bind (f := fun _ => pure granted) hrequired)
    exact ⟨_, _, hconfirmed, .inl rfl, iff_of_true rfl (hpermitted.mp rfl)⟩
  | false =>
    have hdenied := hsend (run_bind_error hrequired)
    refine ⟨_, _, hdenied, .inr rfl, iff_of_false (by decide) fun hmay => ?_⟩
    cases hpermitted.mpr hmay

/-- What the two routes respond to headers that come to some caller, or to none. -/
structure GatesAgree (caller : Except ApiError AccessClaims) (s : MemoryStore)
    (asked : PermissionKey) (mine theirs : Response) : Prop where
  refused : mine.status = 401 ↔ theirs.status = 401
  alike : mine.status = 401 → theirs = mine
  known : mine.status ≠ 401 ↔ ∃ claims, caller = .ok claims
  described : ∀ claims, caller = .ok claims →
    mine.status = 200 ∧ mine.body = .json (MeResponse.format.toJson (description s claims))
  decided : ∀ claims, caller = .ok claims →
    (theirs.status = 200 ∨ theirs.status = 403) ∧
      (theirs.status = 200 ↔ Permitted s claims asked)

/-- Whatever headers are sent, a caller who asks about itself and one who asks about any permission are
refused in the same situations, with the same response. In all others the one is told what its claims
say, and the other whether it has the permission. -/
theorem gates_agree (c : Codec) (ids : Nat → String) (entropy : Nat → Draw) (w : World MemoryStore)
    {me check : Request}
    (hme : me.Gets "/auth/me") (hcheck : check.Gets "/auth/check-permission")
    {asked : PermissionKey} (hasked : check.permission = .ok asked)
    (hheaders : check.headers = me.headers) :
    GatesAgree (authenticate c w me.headers) w.store asked
      (run ((MemoryStore.model ids).host entropy) c me w).1
      (run ((MemoryStore.model ids).host entropy) c check w).1 := by
  cases hcaller : authenticate c w me.headers with
  | error e =>
    obtain ⟨w', hmine⟩ := run_me_of_error ids entropy hme hcaller
    obtain ⟨w'', htheirs⟩ := run_check_of_error ids entropy hcheck hasked (hheaders ▸ hcaller)
    have hstatus : e.status = 401 := status_of_authenticate_error hcaller
    rw [hmine, htheirs]
    constructor
    case refused => exact Iff.rfl
    case alike => exact fun _ => rfl
    case known => exact iff_of_false (fun hnot => hnot hstatus) (by rintro ⟨claims, hok⟩; cases hok)
    case described => exact fun claims hok => by cases hok
    case decided => exact fun claims hok => by cases hok
  | ok claims =>
    obtain ⟨w', hmine⟩ := run_me_of_ok ids entropy hme hcaller
    obtain ⟨theirs, w'', htheirs, hstatus, hdecided⟩ :=
      run_check_of_ok ids entropy hcheck hasked (hheaders ▸ hcaller)
    have hnot : theirs.status ≠ 401 := by
      rcases hstatus with h | h <;> rw [h] <;> decide
    have hanswered : (200 : Nat) ≠ 401 := by decide
    rw [hmine, htheirs]
    constructor
    case refused => exact iff_of_false hanswered hnot
    case alike => exact fun hrefused => absurd hrefused hanswered
    case known => exact iff_of_true hanswered ⟨claims, rfl⟩
    case described =>
      intro claims' hok
      obtain rfl := Except.ok.inj hok
      exact ⟨rfl, rfl⟩
    case decided =>
      intro claims' hok
      obtain rfl := Except.ok.inj hok
      exact ⟨hstatus, hdecided⟩

/-- A request for a target, with some headers. -/
def getRequest (target : String) (h : Headers) : Request :=
  ⟨"GET", target, h, []⟩

/-- The permission asked for is told by the target alone. -/
theorem Request.permission_congr {request' : Request} (h : request.target = request'.target) :
    request.permission = request'.permission := by
  unfold Request.permission Request.query Request.resource
  rw [h]

theorem Request.path_congr {request' : Request} (h : request.target = request'.target) :
    request.path = request'.path := by
  unfold Request.path Request.resource
  rw [h]

private theorem authenticate_bearer {claims : AccessClaims} {access : String}
    (hdecode : c.decodeAccess w.clock access = .ok claims)
    (hfree : w.store.isRevoked w.clock (blacklistKey access) = (false, w.store)) :
    authenticate c w [("authorization", utf8 ("Bearer " ++ access))] = .ok claims := by
  have hname : lowerName "authorization" = "authorization" := by decide +kernel
  have hbears : Headers.Bears [("authorization", utf8 ("Bearer " ++ access))] access :=
    ⟨[], [], nofun, by simp [Headers.first?, hname]⟩
  have hbearer := Codec.Recognises.bearerToken (c := c) (.access w.clock (.inr ⟨_, hdecode⟩)) hbears
  unfold authenticate
  rw [hbearer]
  dsimp only
  rw [hdecode, hfree]
  rfl

/-- A caller without roles is told who it is, and is denied a permission. -/
theorem gates_agree_without_roles :
    ∃ h, (run ((MemoryStore.model serialId).host fun _ => .replicate 16 0)
        (.ofConfig (.withSecret "secret")) (getRequest "/auth/me" h) ⟨{}, 0, 0⟩).1.status = 200 ∧
      (run ((MemoryStore.model serialId).host fun _ => .replicate 16 0)
        (.ofConfig (.withSecret "secret"))
        (getRequest "/auth/check-permission?resource=users&http_method=GET" h)
        ⟨{}, 0, 0⟩).1.status = 403 := by
  let c : Codec := .ofConfig (.withSecret "secret")
  obtain ⟨claims, hclaims⟩ : ∃ claims, claims =
    c.accessClaims 0 ⟨"ada", "ada@example.com", .empty⟩ := ⟨_, rfl⟩
  have hvalid : ValidExpiry claims.expiry := hclaims ▸
    Codec.accessClaims_validExpiry (Codec.ofConfig_clamped _) (by decide) (by decide) _
  obtain ⟨access, haccess⟩ : ∃ access, c.encodeAccess claims = .ok access := Codec.exists_sign rfl _
  have hfresh : ¬ claims.expiry ≤ Nanos.seconds 0 := by
    rw [hclaims]
    decide
  have hdecode : c.decodeAccess 0 access = .ok claims :=
    (Codec.decodeAccess_encodeAccess hvalid haccess 0).trans (if_neg hfresh)
  have hdenied : ¬ Permitted {} claims ⟨"users", "GET"⟩ := by
    rw [hclaims]
    rintro (hsuper | ⟨name, hname, -⟩)
    · cases hsuper
    · cases hname
  let h : Headers := [("authorization", utf8 ("Bearer " ++ access))]
  have hcaller : authenticate c ⟨{}, 0, 0⟩ h = .ok claims := authenticate_bearer hdecode rfl
  have htarget (target : String) : (getRequest target h).target = (getRequest target []).target := rfl
  have hme : (getRequest "/auth/me" h).Gets "/auth/me" :=
    ⟨by rw [Request.path_congr (htarget _)]; decide +kernel, rfl⟩
  have hcheck : (getRequest "/auth/check-permission?resource=users&http_method=GET" h).Gets
      "/auth/check-permission" :=
    ⟨by rw [Request.path_congr (htarget _)]; decide +kernel, rfl⟩
  have hasked : (getRequest "/auth/check-permission?resource=users&http_method=GET" h).permission =
      .ok ⟨"users", "GET"⟩ := by
    rw [Request.permission_congr (htarget _)]
    decide +kernel
  have hagree :=
    gates_agree (.ofConfig (.withSecret "secret")) serialId (fun _ => .replicate 16 0) ⟨{}, 0, 0⟩
    hme hcheck hasked rfl
  obtain ⟨hstatus, hallowed⟩ := hagree.decided claims hcaller
  obtain ⟨hknown, -⟩ := hagree.described claims hcaller
  have hrefused := hstatus.resolve_left fun hok => hdenied (hallowed.mp hok)
  exact ⟨h, hknown, hrefused⟩

end Http

end Turnstile
