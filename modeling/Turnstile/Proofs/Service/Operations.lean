import Turnstile.Proofs.History
import Turnstile.Proofs.Service.Footprint
import Turnstile.Proofs.Store.Revocations

/-! What a service can be asked to do, in any order and at any speed, and what each operation does to
the deny-list: only logouts and blacklistings write to it. -/

namespace Turnstile

open Program

namespace Program

variable {α β : Type}

def NeverRevokes : Program α → Prop
  | done _ => True
  | clock next => ∀ t, (next t).NeverRevokes
  | draw next => ∀ d, (next d).NeverRevokes
  | call c next => c.method ≠ .revoke ∧ ∀ r, (next r).NeverRevokes

namespace NeverRevokes

theorem done (r : Except AuthError α) : (done r).NeverRevokes := trivial

theorem bind {p : Program α} {f : α → Program β} (hp : p.NeverRevokes)
    (hf : ∀ a, (f a).NeverRevokes) : (p >>= f).NeverRevokes := by
  rw [bind_eq]
  induction p with
  | done r =>
    cases r with
    | ok a => exact hf a
    | error e => trivial
  | clock next ih => exact fun t => ih t (hp t)
  | draw next ih => exact fun d => ih d (hp d)
  | call c next ih => exact ⟨hp.1, fun r => ih r (hp.2 r)⟩

theorem now : now.NeverRevokes := fun _ => trivial

theorem fresh : fresh.NeverRevokes := fun _ => trivial

theorem ask {c : Call} (hc : c.method ≠ .revoke) : (ask c).NeverRevokes :=
  ⟨hc, fun _ => trivial⟩

theorem of_looks {p : Program α} (hp : p.CallsOnly Call.Looks) : p.NeverRevokes := by
  induction p with
  | done r => trivial
  | clock next ih => exact fun t => ih t (hp t)
  | draw next ih => exact fun d => ih d (hp d)
  | call c next ih => exact ⟨hp.1.method_ne_revoke, fun r => ih r (hp.2 r)⟩

end NeverRevokes

end Program

namespace Codec

variable {c : Codec}

theorem neverRevokes_createAccess (p : Principal) : (c.createAccess p).NeverRevokes :=
  .bind .now fun _ => .done _

theorem neverRevokes_createRefresh (p : Principal) : (c.createRefresh p).NeverRevokes :=
  .bind .now fun _ => .bind .fresh fun _ => .bind (.done _) fun _ => .bind .now fun _ =>
    .bind (.ask nofun) fun _ => .done _

theorem neverRevokes_createTokens (p : Principal) : (c.createTokens p).NeverRevokes :=
  .bind (neverRevokes_createAccess p) fun _ => .bind (neverRevokes_createRefresh p) fun _ => .done _

theorem neverRevokes_consume (record : RefreshRecord) : (consume record).NeverRevokes := by
  unfold consume
  refine .bind (.ask nofun) fun b => ?_
  cases b <;> trivial

theorem neverRevokes_rotate (p : Principal) (record : RefreshRecord) :
    (c.rotate p record).NeverRevokes := by
  unfold rotate
  split_ifs
  · trivial
  · exact .bind (neverRevokes_consume record) fun _ => neverRevokes_createTokens p

theorem neverRevokes_login (email password : String) : (c.login email password).NeverRevokes := by
  refine .bind (.ask nofun) fun found => ?_
  split
  · split
    · split
      · exact .bind (.of_looks (looks_loadPrincipal _ _)) fun p =>
          .bind (neverRevokes_createTokens p) fun _ => .done _
      · trivial
    · trivial
  · trivial

theorem neverRevokes_register (email password : String) (name : Option String) :
    (c.register email password name).NeverRevokes := by
  have hissue (id : String) : (do
      let p ← loadPrincipal id (trim email)
      return c.tokenResponse (← c.createTokens p)).NeverRevokes :=
    .bind (.of_looks (looks_loadPrincipal _ _)) fun p =>
      .bind (neverRevokes_createTokens p) fun _ => .done _
  unfold register
  dsimp only
  split_ifs
  · trivial
  · refine .bind (.done _) fun _ => .bind (.ask nofun) fun taken => ?_
    split_ifs
    · trivial
    · refine .bind .fresh fun salt => .bind (.ask nofun) fun created => ?_
      split_ifs
      · exact .bind (.ask nofun) fun _ => hissue _
      · exact hissue _

theorem neverRevokes_refresh (token : String) : (c.refresh token).NeverRevokes := by
  refine .bind (.of_looks (looks_checkRefresh token)) fun x => .bind (.ask nofun) fun user => ?_
  split
  · exact .bind (.of_looks (looks_loadPrincipal _ _)) fun p =>
      .bind (neverRevokes_rotate p _) fun _ => .done _
  · trivial

end Codec

inductive Operation where
  | login (email password : String)
  | register (email password : String) (name : Option String)
  | refresh (token : String)
  | logout (access token : String)
  | describeCaller (access : String)
  | confirmPermission (access resource method : String)
  | checkPermission (access resource method : String)
  | createAccess (p : Principal)
  | createRefresh (p : Principal)
  | createTokens (p : Principal)
  | rotate (p : Principal) (record : RefreshRecord)
  | revokePair (access token : String)
  | blacklist (access : String)
  | tokenData (access : String)
  | checkAccess (access : String)
  | checkRefresh (token : String)

namespace Operation

/-- The program of an operation, with the access token it issues. -/
def program (c : Codec) : Operation → Program (Option String)
  | login email password => do return some (← c.login email password).accessToken
  | register email password name => do return some (← c.register email password name).accessToken
  | refresh token => do return some (← c.refresh token).accessToken
  | logout access token => do
    let _ ← c.logout access token
    return none
  | describeCaller access => do
    let _ ← Turnstile.describeCaller (← c.checkAccess access)
    return none
  | confirmPermission access resource method => do
    let _ ← c.confirmPermission access resource method
    return none
  | checkPermission access resource method => do
    let _ ← c.checkPermission access resource method
    return none
  | createAccess p => do return some (← c.createAccess p)
  | createRefresh p => do
    let _ ← c.createRefresh p
    return none
  | createTokens p => do return some (← c.createTokens p).access
  | rotate p record => do return some (← c.rotate p record).access
  | revokePair access token => do
    c.revokePair access token
    return none
  | blacklist access => do
    c.blacklist access
    return none
  | tokenData access => do
    let _ ← c.tokenData access
    return none
  | checkAccess access => do
    let _ ← c.checkAccess access
    return none
  | checkRefresh token => do
    let _ ← c.checkRefresh token
    return none

def denies? : Operation → Option String
  | logout access _ | revokePair access _ | blacklist access => some access
  | _ => none

end Operation

/-- Operations and the access tokens they have issued, the latest first. -/
abbrev Past := List (Entry Operation (Option String))

def Entry.denied? (e : Entry Operation (Option String)) : Option String :=
  match e.result with
  | .ok _ => e.operation.denies?
  | .error _ => none

/-- Operations on a store in memory whose parts besides the deny-list may change in any way. -/
abbrev Serves (c : Codec) (ids : Nat → String) (entropy : Nat → Draw) (w₀ : World MemoryStore) :
    Past → World MemoryStore → Prop :=
  History (MemoryStore.setting ids entropy) (Operation.program c)
    (fun s s' => s'.revocations = s.revocations) w₀

variable {c : Codec} {ids : Nat → String} {entropy : Nat → Draw} {w w' w'' : World MemoryStore}

/-- The deny-list after nothing was put on it: an entry is kept, or it was dropped after its
deadline. -/
def Fades (w w' : World MemoryStore) : Prop :=
  ∀ key, w'.store.revocations.get? key = w.store.revocations.get? key ∨
    (w'.store.revocations.get? key = none ∧
      ∃ deadline, w.store.revocations.get? key = some deadline ∧ deadline ≤ w'.clock)

namespace Fades

theorem of_eq (h : w'.store.revocations = w.store.revocations) : Fades w w' :=
  fun key => .inl (by rw [h])

theorem trans (h : Fades w w') (h' : Fades w' w'') (hclock : w'.clock ≤ w''.clock) :
    Fades w w'' := by
  intro key
  rcases h' key with heq' | ⟨hnone', deadline, hsome, hle'⟩
  · rcases h key with heq | ⟨hnone, deadline, hsome, hle⟩
    · exact .inl (heq'.trans heq)
    · exact .inr ⟨heq'.trans hnone, deadline, hsome, Int.le_trans hle hclock⟩
  · rcases h key with heq | ⟨hnone, -⟩
    · exact .inr ⟨hnone', deadline, heq ▸ hsome, hle'⟩
    · rw [hnone] at hsome
      cases hsome

end Fades

theorem Fades.of_model {d : Call} (hd : d.method ≠ .revoke) (w : World MemoryStore) :
    Fades w { w with store := (MemoryStore.model ids w.clock d w.store).2 } := by
  by_cases hlooks : d.method = .isRevoked
  · cases d with
    | isRevoked key => exact MemoryStore.get?_revocations_isRevoked w.store w.clock key
    | _ => cases hlooks
  · exact .of_eq ((MemoryStore.frame_model ids w.clock d w.store).revocations hlooks hd)

/-- A program that puts nothing on the deny-list lets it fade. -/
theorem Program.NeverRevokes.fades {α : Type} {p : Program α} {r : Except AuthError α}
    (hp : p.NeverRevokes) (h : Runs (MemoryStore.setting ids entropy) p w r w') : Fades w w' := by
  induction h with
  | done r w => exact .of_eq rfl
  | wait _ _ ih => exact ih hp
  | step hs hr ih =>
    cases hs with
    | clock next w => exact ih (hp _)
    | draw next w => exact (Fades.of_eq rfl).trans (ih (hp _)) hr.clock_le
    | call d next w => exact (Fades.of_model hp.1 _).trans (ih (hp.2 _)) hr.clock_le
    | lost _ _ _ hl => exact hl.elim

/-- What a logout or a blacklisting does to the deny-list: the time left is computed at one instant
and counted from a later one. -/
structure Denies (access : String) (claims : AccessClaims) (t t' : Nanos)
    (w w' : World MemoryStore) : Prop where
  times : w.clock ≤ t ∧ t ≤ t' ∧ t' ≤ w'.clock
  entries : w'.store.revocations =
    (w.store.revoke t' (blacklistKey access) (remainingLifetime claims.expiry t)).revocations

/-- An operation that denies no token puts nothing on the deny-list. -/
theorem Operation.neverRevokes {op : Operation} (h : op.denies? = none) :
    (op.program c).NeverRevokes := by
  cases op with
  | login email password => exact .bind (Codec.neverRevokes_login email password) fun _ => .done _
  | register email password name =>
    apply NeverRevokes.bind
    · exact Codec.neverRevokes_register email password name
    · exact fun _ => trivial
  | refresh token => exact .bind (Codec.neverRevokes_refresh token) fun _ => .done _
  | describeCaller access =>
    exact .bind (.of_looks (Codec.looks_checkAccess access)) fun claims =>
      .bind (.of_looks (Codec.looks_describeCaller claims)) fun _ => .done _
  | confirmPermission access resource method =>
    exact .bind (.of_looks (Codec.looks_confirmPermission access resource method)) fun _ => .done _
  | checkPermission access resource method =>
    exact .bind (.of_looks (Codec.looks_checkPermission access resource method)) fun _ => .done _
  | createAccess p => exact .bind (Codec.neverRevokes_createAccess p) fun _ => .done _
  | createRefresh p => exact .bind (Codec.neverRevokes_createRefresh p) fun _ => .done _
  | createTokens p => exact .bind (Codec.neverRevokes_createTokens p) fun _ => .done _
  | rotate p record => exact .bind (Codec.neverRevokes_rotate p record) fun _ => .done _
  | tokenData access => exact .bind (.of_looks (Codec.looks_tokenData access)) fun _ => .done _
  | checkAccess access => exact .bind (.of_looks (Codec.looks_checkAccess access)) fun _ => .done _
  | checkRefresh token => exact .bind (.of_looks (Codec.looks_checkRefresh token)) fun _ => .done _
  | logout _ _ | revokePair _ _ | blacklist _ => cases h

/-- A program that denies a token if it succeeds and otherwise leaves the deny-list as it is. -/
private def DeniesOnSuccess {α : Type} (c : Codec) (access : String) (r : Except AuthError α)
    (w w' : World MemoryStore) : Prop :=
  match r with
  | .error _ => w'.store.revocations = w.store.revocations
  | .ok _ => ∃ claims t t', c.decodeAccessAnyAge access = .ok claims ∧ Denies access claims t t' w w'

private theorem deniesOnSuccess_revokePair {access token : String} {r : Except AuthError Unit}
    (h : Runs (MemoryStore.setting ids entropy) (c.revokePair access token) w r w') :
    DeniesOnSuccess c access r w w' := by
  rcases Codec.runs_revokePair h with ⟨e, rfl, hs⟩ |
    ⟨refreshClaims, record, claims, t₀, t, t', rfl, ht₀, ht, htt, ht', -, -, -, hd, -, -, hs⟩
  · exact congrArg MemoryStore.revocations hs
  · refine ⟨claims, t, t', hd, ⟨Int.le_trans ht₀ ht, htt, ht'⟩, ?_⟩
    rw [hs]
    unfold MemoryStore.revoke
    split_ifs <;> rfl

private theorem deniesOnSuccess_blacklist {access : String} {r : Except AuthError Unit}
    (h : Runs (MemoryStore.setting ids entropy) (c.blacklist access) w r w') :
    DeniesOnSuccess c access r w w' := by
  rcases Codec.runs_blacklist h with ⟨e, rfl, -, hs⟩ | ⟨claims, t, t', hd, rfl, ht, htt, ht', hs⟩
  · exact congrArg MemoryStore.revocations hs
  · exact ⟨claims, t, t', hd, ⟨ht, htt, ht'⟩, by rw [hs]⟩

/-- An answer in place of the result changes nothing. -/
private theorem deniesOnSuccess_bind {α β : Type} {p : Program α} {b : β} {access : String}
    {r : Except AuthError β}
    (hp : ∀ {r w'}, Runs (MemoryStore.setting ids entropy) p w r w' → DeniesOnSuccess c access r w w')
    (h : Runs (MemoryStore.setting ids entropy) (p >>= fun _ => pure b) w r w') :
    DeniesOnSuccess c access r w w' := by
  rcases runs_bind h with ⟨a, w₁, h₁, h⟩ | ⟨e, rfl, h₁⟩
  · obtain ⟨rfl, hw⟩ := runs_done h
    obtain ⟨claims, t, t', hd, ⟨ht, htt, ht'⟩, hentries⟩ := hp h₁
    exact ⟨claims, t, t', hd, ⟨ht, htt, Int.le_trans ht' h.clock_le⟩, by rw [hw]; exact hentries⟩
  · exact hp h₁

/-- A successful logout or blacklisting denies its token. Any other operation, and one that fails,
lets the deny-list fade. -/
theorem Operation.runs_program {op : Operation} {r : Except AuthError (Option String)}
    (h : Runs (MemoryStore.setting ids entropy) (op.program c) w r w') :
    (Fades w w' ∧ (Entry.mk op r).denied? = none) ∨
      ∃ access claims t t', (Entry.mk op r).denied? = some access ∧
        c.decodeAccessAnyAge access = .ok claims ∧ Denies access claims t t' w w' := by
  have hdenies {access : String} (hd : DeniesOnSuccess c access r w w')
      (hop : op.denies? = some access) :
      (Fades w w' ∧ (Entry.mk op r).denied? = none) ∨
        ∃ access claims t t', (Entry.mk op r).denied? = some access ∧
          c.decodeAccessAnyAge access = .ok claims ∧ Denies access claims t t' w w' := by
    cases r with
    | error e => exact .inl ⟨.of_eq hd, rfl⟩
    | ok a =>
      obtain ⟨claims, t, t', hclaims, hw⟩ := hd
      exact .inr ⟨access, claims, t, t', hop, hclaims, hw⟩
  cases hop : op.denies? with
  | none =>
    refine .inl ⟨(Operation.neverRevokes hop).fades h, ?_⟩
    cases r with
    | error e => rfl
    | ok a => exact hop
  | some access =>
    cases op with
    | logout a token =>
      exact hdenies (deniesOnSuccess_bind (deniesOnSuccess_bind deniesOnSuccess_revokePair) h) rfl
    | revokePair a token => exact hdenies (deniesOnSuccess_bind deniesOnSuccess_revokePair h) rfl
    | blacklist a => exact hdenies (deniesOnSuccess_bind deniesOnSuccess_blacklist h) rfl
    | _ => cases hop

end Turnstile
