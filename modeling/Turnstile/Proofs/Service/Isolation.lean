import Turnstile.Proofs.Service.DenyList
import Turnstile.Proofs.Service.Lineage
import Turnstile.Proofs.Service.Registration

/-! Users are isolated from each other: whoever does not act for a user, with the user's password or
refresh token, changes neither the user's account nor which of the user's tokens are accepted. -/

namespace Turnstile

open Program

namespace Isolation

inductive Request where
  | register (email password : String) (name : Option String)
  | login (email password : String)
  | refresh (token : String)
  | logout (access token : String)
  | checkPermission (access resource method : String)
  | me (claims : AccessClaims)

/-- The program of a request, without its answer. -/
def Request.program (c : Codec) : Request → Program Unit
  | register email password name => do let _ ← c.register email password name
  | login email password => do let _ ← c.login email password
  | refresh token => do let _ ← c.refresh token
  | logout access token => do let _ ← c.logout access token
  | checkPermission access resource method => do
    let _ ← c.confirmPermission access resource method
  | me claims => do let _ ← describeCaller claims

/-- A request that has the password of a user, or the refresh token now accepted for the user. -/
def Request.ActsFor (c : Codec) (ids : Nat → String) (entropy : Nat → Draw)
    (w : World MemoryStore) (id : String) : Request → Prop
  | login email password => ∃ found stored, w.store.users.get? id = some found ∧
    found.user.email = email ∧ found.passwordHash = some stored ∧
    Password.verify password stored = .ok true
  | refresh token | logout _ token =>
    ∃ claims, Lineage.Accepts c ids entropy w token claims ∧ claims.subject = id
  | _ => False

def SpeaksFor (c : Codec) (id token : String) : Prop :=
  ∃ claims, c.decodeAccessAnyAge token = .ok claims ∧ claims.subject = id

variable {c : Codec} {ids : Nat → String} {entropy : Nat → Draw}
  {mayFail : Call → AuthError → Prop} {id : String} {w w' : World MemoryStore}

/-- A call that writes nothing of a user's. -/
def Spares (c : Codec) (id : String) : Call → Prop
  | .upsert record => record.userId ≠ id
  | .delete userId | .deleteMatching userId _ | .grantRole userId _ => userId ≠ id
  | .revoke key _ => ∀ token, SpeaksFor c id token → blacklistKey token ≠ key
  | _ => True

/-- What is answered to someone who wrote nothing of a user's. -/
def Relies (id : String) (s : MemoryStore) : (d : Call) → d.Answer → Prop
  | .findByEmail email, some found =>
    found.user.id = id → s.users.get? id = some found ∧ found.user.email = email
  | .findById userId, some user => user.id = userId
  | .createUser _ _ _, created => created.id ≠ id
  | .findByUser userId, some record =>
    record.userId = userId ∧ (userId = id → s.refreshTokens.get? id = some record)
  | _, _ => True

section

variable {s : MemoryStore} (t : Nanos) (d : Call)

/-- No call changes the row of a user. -/
private theorem users_model (hids : Function.Injective ids) (hn : s.Numbered ids)
    (huser : (s.users.get? id).isSome) :
    (MemoryStore.model ids t d s).2.users.get? id = s.users.get? id := by
  have hframe := MemoryStore.frame_model ids t d s
  cases d with
  | createUser email name passwordHash =>
    simp only [MemoryStore.model]
    cases htaken : s.emails.contains email with
    | true => rw [MemoryStore.createUser_of_taken ids name passwordHash htaken]
    | false =>
      have hne : id ≠ (s.nextUser ids).id := (hn.nextUser_ne hids huser).symm
      rw [MemoryStore.createUser_of_free ids name passwordHash htaken]
      exact (Table.get?_insert _ _ _ _).trans (if_neg hne)
  | _ => rw [hframe.users (by rintro ⟨⟩)]

private theorem rolesOf_model (hd : Spares c id d) :
    (MemoryStore.model ids t d s).2.rolesOf id = s.rolesOf id := by
  have hframe := MemoryStore.frame_model ids t d s
  unfold MemoryStore.rolesOf
  cases d with
  | grantRole userId role =>
    have hne : id ≠ userId := Ne.symm hd
    simp only [MemoryStore.model]
    cases hdefined : s.roles.contains role with
    | true =>
      rw [MemoryStore.grantRole_of_defined userId hdefined]
      simp only [MemoryStore.withRole, Table.get?_insert, if_neg hne]
    | false => rw [MemoryStore.grantRole_of_undefined userId hdefined]
  | _ => rw [hframe.userRoles (by rintro ⟨⟩)]

private theorem refreshTokens_model (hd : Spares c id d) :
    (MemoryStore.model ids t d s).2.refreshTokens.get? id = s.refreshTokens.get? id := by
  have hframe := MemoryStore.frame_model ids t d s
  cases d with
  | upsert record =>
    have hne : id ≠ record.userId := Ne.symm hd
    simp only [MemoryStore.model, Table.get?_insert, if_neg hne]
  | delete userId =>
    have hne : id ≠ userId := Ne.symm hd
    simp only [MemoryStore.model, Table.get?_erase, if_neg hne]
  | deleteMatching userId tokenHash =>
    have hne : id ≠ userId := Ne.symm hd
    simp only [MemoryStore.model, MemoryStore.deleteMatching]
    split
    · rfl
    · split_ifs
      · simp only [Table.get?_erase, if_neg hne]
      · rfl
  | _ => rw [hframe.refreshTokens (by rintro ⟨⟩) (by rintro ⟨⟩) (by rintro ⟨⟩)]

private theorem isRevoked_model (hd : Spares c id d) {token : String}
    (htoken : SpeaksFor c id token) {u : Nanos} (hu : t ≤ u) :
    ((MemoryStore.model ids t d s).2.isRevoked u (blacklistKey token)).1 =
      (s.isRevoked u (blacklistKey token)).1 := by
  have hframe := MemoryStore.frame_model ids t d s
  cases d with
  | isRevoked key => exact MemoryStore.isRevoked_isRevoked hu _ key s
  | revoke key ttl => exact MemoryStore.isRevoked_revoke (hd token htoken) t u ttl s
  | _ => exact MemoryStore.isRevoked_congr (by rw [hframe.revocations nofun nofun]) u

end

/-- A store where nothing of a user's has changed since it was `s₀`. -/
structure Spared (c : Codec) (ids : Nat → String) (id : String) (s₀ : MemoryStore) (t : Nanos)
    (s : MemoryStore) : Prop where
  reachable : s.Reachable ids
  user : s.users.get? id = s₀.users.get? id
  roles : s.rolesOf id = s₀.rolesOf id
  record : s.refreshTokens.get? id = s₀.refreshTokens.get? id
  denied : ∀ token, SpeaksFor c id token → ∀ u, t ≤ u →
    (s.isRevoked u (blacklistKey token)).1 = (s₀.isRevoked u (blacklistKey token)).1

namespace Spared

variable {s₀ s : MemoryStore} {t : Nanos}

theorem refl (t : Nanos) (h : s.Reachable ids) : Spared c ids id s t s :=
  ⟨h, rfl, rfl, rfl, fun _ _ _ _ => rfl⟩

theorem wait {u : Nanos} (h : Spared c ids id s₀ t s) (hle : t ≤ u) : Spared c ids id s₀ u s :=
  { h with denied := fun token htoken v hv => h.denied token htoken v (Int.le_trans hle hv) }

/-- A call that spares the user changes nothing of the user's. -/
theorem model (hids : Function.Injective ids) (h : Spared c ids id s₀ t s)
    (huser : (s₀.users.get? id).isSome) {d : Call} (hd : Spares c id d) :
    Spared c ids id s₀ t (MemoryStore.model ids t d s).2 where
  reachable := h.reachable.call t d
  user := (users_model t d hids (h.reachable.sound hids).2 (h.user ▸ huser)).trans h.user
  roles := (rolesOf_model t d hd).trans h.roles
  record := (refreshTokens_model t d hd).trans h.record
  denied token htoken u hu :=
    (isRevoked_model t d hd htoken hu).trans (h.denied token htoken u hu)

/-- What is answered as long as nothing of the user's has changed. -/
theorem relies (hids : Function.Injective ids) (h : Spared c ids id s₀ t s)
    (huser : (s₀.users.get? id).isSome) {d : Call} {a : d.Answer}
    (ha : (MemoryStore.model ids t d s).1 = .ok a) : Relies id s₀ d a := by
  obtain ⟨hindexed, hnumbered⟩ := h.reachable.sound hids
  cases d with
  | findByEmail email =>
    obtain rfl := Except.ok.inj ha
    cases hfound : s.findByEmail email with
    | none => trivial
    | some found =>
      obtain ⟨owner, howner, hrow⟩ := Option.bind_eq_some_iff.mp hfound
      obtain ⟨row, hrow', hemail⟩ := hindexed.leads email owner howner
      obtain rfl := Option.some.inj (hrow.symm.trans hrow')
      have hid : found.user.id = owner := (hindexed.listed owner found hrow).1
      intro heq
      rw [← h.user, ← heq, hid]
      exact ⟨hrow, hemail⟩
  | findById userId =>
    obtain rfl := Except.ok.inj ha
    cases hfound : s.findById userId with
    | none => trivial
    | some user =>
      obtain ⟨found, -, -, hid⟩ := hindexed.findById_eq_some.mp hfound
      exact hid
  | createUser email name passwordHash =>
    simp only [MemoryStore.model] at ha
    cases htaken : s.emails.contains email with
    | true =>
      rw [MemoryStore.createUser_of_taken ids name passwordHash htaken] at ha
      cases ha
    | false =>
      rw [MemoryStore.createUser_of_free ids name passwordHash htaken] at ha
      obtain rfl := Except.ok.inj ha
      exact hnumbered.nextUser_ne hids (h.user ▸ huser)
  | findByUser userId =>
    obtain rfl := Except.ok.inj ha
    cases hfound : s.refreshTokens.get? userId with
    | none => trivial
    | some record =>
      refine ⟨h.reachable.filed userId record hfound, ?_⟩
      rintro rfl
      exact h.record ▸ hfound
  | _ => trivial

end Spared

/-- Calls that spare a user, answered as long as nothing of the user's has changed. -/
def outsider (c : Codec) (id : String) (w : World MemoryStore) : Contract where
  start := w.clock
  allows := Spares c id
  answers := Relies id w.store

private theorem obeys_loadPrincipal (userId email : String) :
    (loadPrincipal userId email).Obeys (outsider c id w) fun p => p.subject = userId :=
  .bind (.ask trivial) fun _ _ => rfl

private theorem obeys_createTokens {p : Principal} (hp : p.subject ≠ id) :
    (c.createTokens p).Obeys (outsider c id w) fun _ => True := by
  have haccess : (c.createAccess p).Obeys (outsider c id w) fun _ => True :=
    .bind .now fun t _ => .ofExcept _ fun _ _ => trivial
  have hrefresh : (c.createRefresh p).Obeys (outsider c id w) fun _ => True := by
    refine .bind .now fun t _ => .bind .fresh fun d _ => ?_
    refine .bind (.ofExcept (Q := fun _ => True) _ fun _ _ => trivial) fun token _ => ?_
    exact .bind .now fun t' _ => .bind (.ask hp) fun _ _ => trivial
  exact .bind haccess fun _ _ => .bind hrefresh fun _ _ => trivial

/-- Whoever does not present the user's own refresh token gets no further with it than with one of
someone else. -/
private theorem obeys_checkRefresh {token : String}
    (hnot : ¬ ∃ claims, Lineage.Accepts c ids entropy w token claims ∧ claims.subject = id) :
    (c.checkRefresh token).Obeys (outsider c id w) fun x =>
      x.2.userId = x.1.subject ∧ x.1.subject ≠ id := by
  refine .bind .now fun t ht => ?_
  cases hdecode : c.decodeRefresh t token with
  | error e => trivial
  | ok claims =>
    refine .bind (.ask trivial) fun found hfound => ?_
    cases found with
    | none => trivial
    | some record =>
      obtain ⟨huser, hstored⟩ := hfound
      dsimp only
      split_ifs with hhash
      · trivial
      · refine .bind .now fun u hu => ?_
        split_ifs with hlive
        · trivial
        · refine ⟨huser, fun hsubject => hnot ⟨claims, ?_, hsubject⟩⟩
          have haccepted : c.decodeRefresh w.clock token = .ok claims ∧
              w.store.refreshTokens.get? claims.subject = some record ∧
              record.tokenHash = hashToken token ∧ w.clock < record.expiresAt :=
            ⟨Codec.decodeAt_of_le ht hdecode, hsubject ▸ hstored hsubject, not_not.mp hhash,
              Int.lt_of_le_of_lt hu (Int.not_le.mp hlive)⟩
          obtain ⟨r, hrun, hok, -⟩ := Codec.run_checkRefresh (c := c) ids entropy w token
          exact ⟨record, hrun.trans (by rw [(hok claims record).mpr haccepted])⟩

private theorem obeys_consume {record : RefreshRecord} (hrecord : record.userId ≠ id) :
    (consume record).Obeys (outsider c id w) fun _ => True := by
  refine .bind (.ask hrecord) fun b _ => ?_
  cases b <;> trivial

private theorem obeys_rotate {p : Principal} {record : RefreshRecord} (hp : p.subject ≠ id)
    (hrecord : record.userId ≠ id) :
    (c.rotate p record).Obeys (outsider c id w) fun _ => True := by
  unfold Codec.rotate
  split_ifs
  · trivial
  · exact .bind (obeys_consume hrecord) fun _ _ => obeys_createTokens hp

/-- Whoever only looks spares everyone. -/
private theorem obeys_of_looks {α : Type} {p : Program α} (hp : p.CallsOnly Call.Looks) :
    p.Obeys (outsider c id w) fun _ => True := by
  refine .of_callsOnly hp fun d hd => ?_
  rcases hd with hreads | hmethod
  · cases d with
    | createUser | upsert | delete | deleteMatching | isRevoked | revoke | grantRole =>
      exact hreads.elim
    | _ => trivial
  · cases d with
    | isRevoked => trivial
    | _ => cases hmethod

private theorem obeys_register (email password : String) (name : Option String) :
    (c.register email password name).Obeys (outsider c id w) fun _ => True := by
  have hissue {userId : String} (h : userId ≠ id) : Obeys (outsider c id w) (fun _ => True) (do
      let p ← loadPrincipal userId (trim email)
      return c.tokenResponse (← c.createTokens p)) :=
    .bind (obeys_loadPrincipal _ _) fun p hp =>
      .bind (obeys_createTokens (hp ▸ h)) fun _ _ => trivial
  unfold Codec.register
  dsimp only
  split_ifs
  · trivial
  · refine .bind (.ofExcept (Q := fun _ => True) _ fun _ _ => trivial) fun _ _ => ?_
    refine .bind (.ask trivial) fun taken _ => ?_
    split_ifs
    · trivial
    · refine .bind .fresh fun salt _ => .bind (.ask trivial) fun created hcreated => ?_
      split_ifs
      · exact .bind (.ask hcreated) fun _ _ => hissue hcreated
      · exact hissue hcreated

private theorem obeys_login {email password : String}
    (hnot : ¬ (Request.login email password).ActsFor c ids entropy w id) :
    (c.login email password).Obeys (outsider c id w) fun _ => True := by
  refine .bind (.ask trivial) fun found hfound => ?_
  split
  · rename_i found
    split
    · rename_i stored hstored
      split
      · rename_i hverified
        have hother : found.user.id ≠ id := by
          intro hid
          obtain ⟨hrow, hemail⟩ := hfound hid
          exact hnot ⟨found, stored, hrow, hemail, hstored, hverified⟩
        refine .bind (obeys_loadPrincipal _ _) fun p hp => ?_
        exact .bind (obeys_createTokens (hp ▸ hother)) fun _ _ => trivial
      · trivial
    · trivial
  · trivial

private theorem obeys_refresh {token : String}
    (hnot : ¬ (Request.refresh token).ActsFor c ids entropy w id) :
    (c.refresh token).Obeys (outsider c id w) fun _ => True := by
  refine .bind (obeys_checkRefresh hnot) fun x hx => ?_
  obtain ⟨huser, hsubject⟩ := hx
  refine .bind (.ask trivial) fun found hfound => ?_
  split
  · rename_i user
    have hid : user.id = x.1.subject := hfound
    refine .bind (obeys_loadPrincipal _ _) fun p hp => ?_
    have hother : p.subject ≠ id := by rwa [hp, hid]
    exact .bind (obeys_rotate hother (huser ▸ hsubject)) fun _ _ => trivial
  · trivial

private theorem obeys_revokePair {access token : String}
    (hnot : ¬ (Request.logout access token).ActsFor c ids entropy w id) :
    (c.revokePair access token).Obeys (outsider c id w) fun _ => True := by
  refine .bind (obeys_checkRefresh hnot) fun x hx => ?_
  obtain ⟨huser, hsubject⟩ := hx
  refine .bind (.ofExcept _ fun _ h => h) fun claims hclaims => ?_
  split_ifs with hsame
  · trivial
  · refine .bind (obeys_consume (huser ▸ hsubject)) fun _ _ => .bind .now fun t _ => .ask ?_
    rintro other ⟨claims', hclaims', hid⟩ hkey
    -- The denied token would speak for the user, but it has the subject of the refresh token.
    obtain rfl := blacklistKey_injective hkey
    obtain rfl := Except.ok.inj (hclaims.symm.trans hclaims')
    exact hsubject ((not_not.mp hsame).symm.trans hid)

private theorem obeys_program {request : Request} (hnot : ¬ request.ActsFor c ids entropy w id) :
    (request.program c).Obeys (outsider c id w) fun _ => True := by
  cases request with
  | register email password name =>
    apply Obeys.bind
    · exact obeys_register email password name
    · exact fun _ _ => trivial
  | login email password => exact (obeys_login hnot).bind fun _ _ => trivial
  | refresh token => exact (obeys_refresh hnot).bind fun _ _ => trivial
  | logout access token =>
    have hlogout : (c.logout access token).Obeys (outsider c id w) fun _ => True :=
      (obeys_revokePair hnot).bind fun _ _ => trivial
    exact hlogout.bind fun _ _ => trivial
  | checkPermission access resource method =>
    have hconfirm := Codec.looks_confirmPermission (c := c) access resource method
    exact (obeys_of_looks hconfirm).bind fun _ _ => trivial
  | me claims => exact (obeys_of_looks (Codec.looks_describeCaller claims)).bind fun _ _ => trivial

/-- Nothing of a user's is different, and the user's access tokens are accepted or refused as they
were. -/
structure Unaffected (c : Codec) (ids : Nat → String) (entropy : Nat → Draw) (id : String)
    (w w' : World MemoryStore) : Prop where
  user : w'.store.users.get? id = w.store.users.get? id
  roles : w'.store.rolesOf id = w.store.rolesOf id
  record : w'.store.refreshTokens.get? id = w.store.refreshTokens.get? id
  tokens : ∀ token, SpeaksFor c id token → ∀ t, w'.clock ≤ t →
    ((c.checkAccess token).run ((MemoryStore.model ids).host entropy) (w'.atTime t)).1 =
      ((c.checkAccess token).run ((MemoryStore.model ids).host entropy) (w.atTime t)).1

/-- A request that does not act for a user leaves the user unaffected, in every store that comes about
by calls, whatever calls are lost and however long it takes. -/
theorem unaffected (hids : Function.Injective ids) {request : Request}
    {r : Except AuthError Unit} (hstore : w.store.Reachable ids)
    (huser : (w.store.users.get? id).isSome) (hnot : ¬ request.ActsFor c ids entropy w id)
    (h : Runs (MemoryStore.faulty ids entropy mayFail) (request.program c) w r w') :
    Unaffected c ids entropy id w w' := by
  have hkept : Spared c ids id w.store w'.clock w'.store := by
    refine (obeys_program hnot).keeps (I := Spared c ids id w.store) ?_ ?_ h (Int.le_refl _)
      (.refl _ hstore)
    · exact fun t d s _ hd hs => ⟨hs.model hids huser hd, fun a ha => hs.relies hids huser ha⟩
    · exact fun t u s hle hs => hs.wait hle
  refine ⟨hkept.user, hkept.roles, hkept.record, fun token htoken t ht => ?_⟩
  have hsame := hkept.denied token htoken t ht
  rw [Codec.run_checkAccess, Codec.run_checkAccess]
  simp only [World.atTime_clock, World.atTime_store, hsame]
  cases c.decodeAccess t token <;> rfl

/-- Someone registers where there is a user already. -/
theorem unaffected_second_user : ∃ w', Runs
    (MemoryStore.faulty serialId (fun n => .replicate 16 n.toUInt8) fun _ _ => False)
    ((Request.register "grace@example.com" "correct horse" none).program
      (.ofConfig (.withSecret "secret")))
    ⟨(MemoryStore.model serialId 0 (.createUser "ada@example.com" none "") {}).2, 0, 0⟩ (.ok ()) w' ∧
    Unaffected (.ofConfig (.withSecret "secret")) serialId (fun n => .replicate 16 n.toUInt8)
      (serialId 0) ⟨(MemoryStore.model serialId 0 (.createUser "ada@example.com" none "") {}).2, 0, 0⟩
      w' := by
  let c : Codec := .ofConfig (.withSecret "secret")
  let entropy : Nat → Draw := fun n => .replicate 16 n.toUInt8
  let w : World MemoryStore :=
    ⟨(MemoryStore.model serialId 0 (.createUser "ada@example.com" none "") {}).2, 0, 0⟩
  let p : Principal := ⟨(w.store.nextUser serialId).id, "grace@example.com", .empty⟩
  obtain ⟨access, haccess⟩ : ∃ access, c.encodeAccess (c.accessClaims 0 p) = .ok access :=
    Codec.exists_sign rfl _
  obtain ⟨token, htoken⟩ : ∃ token, c.encodeRefresh (c.refreshClaims 0 (entropy 1) p) = .ok token :=
    Codec.exists_sign rfl _
  have htrim : trim "grace@example.com" = "grace@example.com" := by decide
  have hregister := Registration.run_register (c := c) serialId entropy w none
    (show ¬ (trim "grace@example.com" = "" ∨ '@' ∉ (trim "grace@example.com").toList) by
      rw [htrim]; decide)
    (show Password.validate "correct horse" = .ok () from rfl) (by rw [htrim]; rfl)
    (fun h => absurd h (by decide)) rfl (p := p) (by rw [htrim]; rfl) haccess htoken
  have hruns := runs_of_run (run_bind (f := fun _ => pure ()) hregister)
  have hnot : ¬ (Request.register "grace@example.com" "correct horse" none).ActsFor c serialId entropy w
      (serialId 0) := not_false
  exact ⟨_, hruns, unaffected serialId_injective (.call 0 _ .empty) rfl hnot hruns⟩

end Isolation

end Turnstile
