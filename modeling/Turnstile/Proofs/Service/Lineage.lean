import Mathlib.Data.Set.Function
import Turnstile.Proofs.History
import Turnstile.Proofs.Service.Tokens
import Turnstile.Proofs.Store.Memory
import Turnstile.Proofs.Table

/-! Which refresh tokens are in force, told from the history of operations alone. The store of a
service agrees with that history after any operations, in any order and at any speed. -/

namespace Turnstile

open Program

namespace Lineage

inductive Operation where
  | createRefresh (p : Principal)
  | createTokens (p : Principal)
  | rotate (p : Principal) (record : RefreshRecord)
  | revokePair (access refresh : String)
  | delete (userId : String)

namespace Operation

/-- Who an operation issues a refresh token for, if it issues one. -/
def principal? : Operation → Option Principal
  | createRefresh p | createTokens p | rotate p _ => some p
  | revokePair _ _ | delete _ => none

/-- The program of an operation, with the refresh token it issues. -/
def program (c : Codec) : Operation → Program (Option String)
  | createRefresh p => do return some (← c.createRefresh p)
  | createTokens p => do return some (← c.createTokens p).refresh
  | rotate p record => do return some (← c.rotate p record).refresh
  | revokePair access refresh => do
    c.revokePair access refresh
    return none
  | delete userId => do
    ask (.delete userId)
    return none

end Operation

/-- Operations and the refresh tokens they have issued, the latest first. -/
abbrev Past := List (Entry Operation (Option String))

end Lineage

namespace Entry

open Lineage

variable (e : Entry Operation (Option String))

def token? : Option String :=
  match e.result with
  | .ok token => token
  | .error _ => none

def Issues (userId token : String) : Prop :=
  e.token? = some token ∧ ∃ p, e.operation.principal? = some p ∧ p.subject = userId

/-- Whether a user's token is ended otherwise than by another one: used up by a rotation or a
logout, or deleted. -/
def Ends (userId token : String) : Prop :=
  match e.operation, e.result with
  | .rotate _ record, .ok _ => record.userId = userId ∧ record.tokenHash = hashToken token
  | .revokePair _ refresh, .ok _ => refresh = token
  | .delete id, .ok _ => id = userId
  | _, _ => False

def strings : List String :=
  e.token?.toList ++ match e.operation with
    | .revokePair _ refresh => [refresh]
    | _ => []

end Entry

namespace Lineage

/-- The refresh token in force for a user after some operations, the latest first: the one issued
last for the user, unless something has ended it since. -/
def InForce (userId token : String) : Past → Prop
  | [] => False
  | e :: earlier => e.Issues userId token ∨
    ((∀ other, ¬ e.Issues userId other) ∧ ¬ e.Ends userId token ∧ InForce userId token earlier)

/-- Operations on a store in memory whose parts besides the refresh records may change in any way. -/
abbrev Passes (c : Codec) (ids : Nat → String) (entropy : Nat → Draw) (w₀ : World MemoryStore) :
    Past → World MemoryStore → Prop :=
  History (MemoryStore.setting ids entropy) (Operation.program c)
    (fun s s' => s'.refreshTokens = s.refreshTokens) w₀

structure Describes (c : Codec) (token : String) (claims : RefreshClaims)
    (record : RefreshRecord) : Prop where
  user : record.userId = claims.subject
  hash : record.tokenHash = hashToken token
  signed : c.encodeRefresh claims = .ok token
  expiry : ValidExpiry claims.expiry
  outlives : Nanos.ofSeconds claims.expiry ≤ record.expiresAt

/-- A store agrees with a history about a user: it holds a record for exactly the token in force. -/
def Agrees (c : Codec) (h : Past) (s : MemoryStore) (userId : String) : Prop :=
  match s.refreshTokens.get? userId with
  | none => ∀ token, ¬ InForce userId token h
  | some record => ∃ token claims,
    InForce userId token h ∧ claims.subject = userId ∧ Describes c token claims record

variable {c : Codec} {ids : Nat → String} {entropy : Nat → Draw} {h : Past}
  {w w' : World MemoryStore}  {userId token : String}

theorem InForce.unique {t t' : String} (ht : InForce userId t h) (ht' : InForce userId t' h) :
    t = t' := by
  induction h with
  | nil => exact ht.elim
  | cons e h ih =>
    rcases ht with ht | ⟨hn, -, ht⟩
    · rcases ht' with ht' | ⟨hn, -⟩
      · exact Option.some.inj (ht.1.symm.trans ht'.1)
      · exact absurd ht (hn t)
    · rcases ht' with ht' | ⟨-, -, ht'⟩
      · exact absurd ht' (hn t')
      · exact ih ht ht'

/-- A token in force was issued. -/
theorem InForce.issued (ht : InForce userId token h) : ∃ e ∈ h, e.token? = some token := by
  induction h with
  | nil => exact ht.elim
  | cons e h ih =>
    rcases ht with ht | ⟨-, -, ht⟩
    · exact ⟨e, by simp, ht.1⟩
    · obtain ⟨e', he', htoken⟩ := ih ht
      exact ⟨e', by simp [he'], htoken⟩

/-- An operation that neither issues a token for a user nor ends one changes nothing for that
user. -/
private theorem inForce_cons {e : Entry Operation (Option String)} (hi : ∀ t, ¬ e.Issues userId t)
    (he : ¬ e.Ends userId token) : InForce userId token (e :: h) ↔ InForce userId token h := by
  constructor
  · rintro (ht | ⟨-, -, ht⟩)
    · exact absurd ht (hi token)
    · exact ht
  · exact fun ht => .inr ⟨hi, he, ht⟩

/-- What an operation that issues a token does to the records. -/
structure IssuedBy (c : Codec) (op : Operation) (r : Except AuthError (Option String))
    (w w' : World MemoryStore) (p : Principal) (token : String) (t t' : Nanos) (d : Draw) :
    Prop where
  principal : op.principal? = some p
  result : r = .ok (some token)
  times : w.clock ≤ t ∧ t ≤ t' ∧ t' ≤ w'.clock
  signed : c.encodeRefresh (c.refreshClaims t d p) = .ok token
  ends : ∀ u s, (Entry.mk op r).Ends u s → u = p.subject
  records : ∀ u, w'.store.refreshTokens.get? u =
    if u = p.subject then some (c.recordOf t' p.subject token) else w.store.refreshTokens.get? u

structure RevokedBy (c : Codec) (w w' : World MemoryStore) (refresh : String)
    (claims : RefreshClaims) (record : RefreshRecord) (t : Nanos) : Prop where
  times : w.clock ≤ t ∧ t ≤ w'.clock
  verified : c.decodeRefresh t refresh = .ok claims
  found : w.store.refreshTokens.get? claims.subject = some record
  hash : record.tokenHash = hashToken refresh
  records : ∀ u, w'.store.refreshTokens.get? u =
    if u = record.userId then none else w.store.refreshTokens.get? u

/-- An operation fails and changes no record, issues a token, logs a user out or deletes a record. -/
private theorem runs_program (hc : c.algorithm.isSymmetric = true) {op : Operation}
    {r : Except AuthError (Option String)}
    (hr : Runs (MemoryStore.setting ids entropy) (op.program c) w r w') :
    ((∃ e, r = .error e) ∧ w'.store.refreshTokens = w.store.refreshTokens) ∨
      (∃ p token t t' d, IssuedBy c op r w w' p token t t' d) ∨
      (∃ access refresh claims record t, op = .revokePair access refresh ∧ r = .ok none ∧
        RevokedBy c w w' refresh claims record t) ∨
      ∃ id, op = .delete id ∧ r = .ok none ∧ ∀ u, w'.store.refreshTokens.get? u =
        if u = id then none else w.store.refreshTokens.get? u := by
  cases op with
  | createRefresh p =>
    rcases runs_bind hr with ⟨a, w₁, h₁, hr⟩ | ⟨e, -, h₁⟩
    · obtain ⟨t, d, t', token, ht, htt, ht', htoken, hok, hs⟩ := Codec.runs_createRefresh hc h₁
      obtain rfl := Except.ok.inj hok
      obtain ⟨rfl, hw⟩ := runs_done hr
      refine .inr (.inl ⟨p, a, t, t', d, rfl, rfl, ⟨ht, htt, Int.le_trans ht' hr.clock_le⟩, htoken,
        fun u s he => he.elim, fun u => ?_⟩)
      rw [hw, World.atTime_store, hs, Table.get?_insert]
    · obtain ⟨t, d, t', token, -, -, -, -, hok, -⟩ := Codec.runs_createRefresh hc h₁
      cases hok
  | createTokens p =>
    rcases runs_bind hr with ⟨a, w₁, h₁, hr⟩ | ⟨e, -, h₁⟩
    · obtain ⟨v, t, d, t', access, token, hv, ht, htt, ht', -, htoken, hok, hs⟩ :=
        Codec.runs_createTokens hc h₁
      obtain rfl := Except.ok.inj hok
      obtain ⟨rfl, hw⟩ := runs_done hr
      refine .inr (.inl ⟨p, token, t, t', d, rfl, rfl,
        ⟨Int.le_trans hv ht, htt, Int.le_trans ht' hr.clock_le⟩, htoken,
        fun u s he => he.elim, fun u => ?_⟩)
      rw [hw, World.atTime_store, hs, Table.get?_insert]
    · obtain ⟨v, t, d, t', access, token, -, -, -, -, -, -, hok, -⟩ := Codec.runs_createTokens hc h₁
      cases hok
  | rotate p record =>
    rcases runs_bind hr with ⟨a, w₁, h₁, hr⟩ | ⟨e, he, h₁⟩
    · rcases Codec.runs_rotate hc h₁ with ⟨hok, -⟩ |
        ⟨hp, -, v, t, d, t', access, token, hv, ht, htt, ht', -, htoken, hok, hs⟩
      · cases hok
      · obtain rfl := Except.ok.inj hok
        obtain ⟨rfl, hw⟩ := runs_done hr
        refine .inr (.inl ⟨p, token, t, t', d, rfl, rfl,
          ⟨Int.le_trans hv ht, htt, Int.le_trans ht' hr.clock_le⟩, htoken,
          fun u s he => (he.1.symm.trans hp.symm), fun u => ?_⟩)
        rw [hw, World.atTime_store, hs, Table.get?_insert, Table.get?_erase, ← hp]
        by_cases hu : u = p.subject <;> simp [hu]
    · rcases Codec.runs_rotate hc h₁ with ⟨-, hs⟩ |
        ⟨-, -, v, t, d, t', access, token, -, -, -, -, -, -, hok, -⟩
      · exact .inl ⟨⟨e, he⟩, by rw [hs]⟩
      · cases hok
  | revokePair access refresh =>
    rcases runs_bind hr with ⟨a, w₁, h₁, hr⟩ | ⟨e, he, h₁⟩
    · rcases Codec.runs_revokePair h₁ with ⟨e, hok, -⟩ |
        ⟨claims, record, accessClaims, t₀, t, t', -, ht₀, ht, htt, ht', hd, hfound, hhash, -, -, -, hs⟩
      · cases hok
      · obtain ⟨rfl, hw⟩ := runs_done hr
        refine .inr (.inr (.inl ⟨access, refresh, claims, record, t₀, rfl, rfl, ⟨ht₀, ?_⟩, hd, hfound,
          hhash, fun u => ?_⟩))
        · exact Int.le_trans (Int.le_trans ht htt) (Int.le_trans ht' hr.clock_le)
        · rw [hw, World.atTime_store, hs, MemoryStore.refreshTokens_revoke, Table.get?_erase]
    · rcases Codec.runs_revokePair h₁ with ⟨-, -, hs⟩ |
        ⟨claims, record, accessClaims, t₀, t, t', hok, -⟩
      · exact .inl ⟨⟨e, he⟩, by rw [hs]⟩
      · cases hok
  | delete id =>
    obtain ⟨t, ht, hr⟩ := runs_call_of_reliable (MemoryStore.setting_reliable ids entropy) hr
    obtain ⟨rfl, hw⟩ := runs_done hr
    refine .inr (.inr (.inr ⟨id, rfl, rfl, fun u => ?_⟩))
    rw [hw, World.atTime_store]
    exact Table.get?_erase _ _ _

/-- Where an operation leaves a user alone, the store goes on to agree. -/
private theorem Agrees.frame {e : Entry Operation (Option String)} {s s' : MemoryStore}
    (ha : Agrees c h s userId)
    (hget : s'.refreshTokens.get? userId = s.refreshTokens.get? userId)
    (hi : ∀ t, ¬ e.Issues userId t) (he : ∀ t, InForce userId t h → ¬ e.Ends userId t) :
    Agrees c (e :: h) s' userId := by
  unfold Agrees at ha ⊢
  rw [hget]
  cases hg : s.refreshTokens.get? userId with
  | none =>
    simp only [hg] at ha ⊢
    rintro t (ht | ⟨-, -, ht⟩)
    · exact hi t ht
    · exact ha t ht
  | some record =>
    simp only [hg] at ha ⊢
    obtain ⟨t, claims, ht, hrest⟩ := ha
    exact ⟨t, claims, (inForce_cons hi (he t ht)).mpr ht, hrest⟩

private theorem not_inForce_of_get?_none {s : MemoryStore} (ha : Agrees c h s userId)
    (hget : s.refreshTokens.get? userId = none) (t : String) : ¬ InForce userId t h := by
  unfold Agrees at ha
  simp only [hget] at ha
  exact ha t

private theorem exists_inForce_of_get?_some {s : MemoryStore} {record : RefreshRecord}
    (ha : Agrees c h s userId) (hget : s.refreshTokens.get? userId = some record) :
    ∃ t claims, InForce userId t h ∧ claims.subject = userId ∧ Describes c t claims record := by
  unfold Agrees at ha
  simpa only [hget] using ha

/-- The record of the token in force. -/
private theorem exists_record_of_inForce {s : MemoryStore} (ha : Agrees c h s userId)
    (ht : InForce userId token h) :
    ∃ record claims, s.refreshTokens.get? userId = some record ∧ claims.subject = userId ∧
      Describes c token claims record := by
  cases hget : s.refreshTokens.get? userId with
  | none => exact absurd ht (not_inForce_of_get?_none ha hget token)
  | some record =>
    obtain ⟨t, claims, ht', hsub, hd⟩ := exists_inForce_of_get?_some ha hget
    obtain rfl := ht.unique ht'
    exact ⟨record, claims, rfl, hsub, hd⟩

private theorem agrees_of_failed {op : Operation} {err : AuthError} {s s' : MemoryStore}
    (ha : ∀ u, Agrees c h s u) (hs : s'.refreshTokens = s.refreshTokens) (u : String) :
    Agrees c (⟨op, .error err⟩ :: h) s' u := by
  refine (ha u).frame (by rw [hs]) (fun t hi => ?_) (fun t _ he => ?_)
  · exact absurd hi.1 (by simp [Entry.token?])
  · cases op <;> exact he.elim

private theorem agrees_of_issued (hc : c.Clamped) {op : Operation}
    {r : Except AuthError (Option String)} {p : Principal} {t t' : Nanos} {d : Draw}
    (ha : ∀ u, Agrees c h w.store u) (hi : IssuedBy c op r w w' p token t t' d)
    (hstart : 0 ≤ w.clock) (hlast : w'.clock ≤ lastInstant) (u : String) :
    Agrees c (⟨op, r⟩ :: h) w'.store u := by
  by_cases hu : u = p.subject
  · subst hu
    have hvalid : ValidExpiry (c.refreshClaims t d p).expiry :=
      Codec.refreshClaims_validExpiry hc (Int.le_trans hstart hi.times.1)
        (Int.le_trans hi.times.2.1 (Int.le_trans hi.times.2.2 hlast)) d p
    have houtlives : Nanos.ofSeconds (c.refreshClaims t d p).expiry ≤ t' + c.refreshLifetime := by
      have htt := hi.times.2.1
      change Nanos.ofSeconds ((t + c.refreshLifetime) / 1000000000) ≤ t' + c.refreshLifetime
      unfold Nanos.ofSeconds Nanos at *
      omega
    have hforce : InForce p.subject token (⟨op, r⟩ :: h) :=
      .inl ⟨by rw [hi.result]; rfl, p, hi.principal, rfl⟩
    unfold Agrees
    simp only [hi.records, if_true]
    exact ⟨token, _, hforce, rfl, ⟨rfl, rfl, hi.signed, hvalid, houtlives⟩⟩
  · refine (ha u).frame (by rw [hi.records, if_neg hu]) (fun s hs => ?_) (fun s _ he => ?_)
    · obtain ⟨-, q, hq, hsub⟩ := hs
      obtain rfl := Option.some.inj (hi.principal.symm.trans hq)
      exact hu hsub.symm
    · exact hu (hi.ends u s he)

private theorem agrees_of_revoked {access refresh : String} {claims : RefreshClaims}
    {record : RefreshRecord} {t : Nanos} (ha : ∀ u, Agrees c h w.store u)
    (hr : RevokedBy c w w' refresh claims record t)
    (hhash : ∀ e ∈ h, ∀ s, e.token? = some s → hashToken s = hashToken refresh → s = refresh)
    (u : String) : Agrees c (⟨.revokePair access refresh, .ok none⟩ :: h) w'.store u := by
  obtain ⟨s₀, claims₀, hs₀, hsub, hd⟩ := exists_inForce_of_get?_some (ha _) hr.found
  obtain ⟨e₀, he₀, htoken₀⟩ := hs₀.issued
  obtain rfl : s₀ = refresh := hhash e₀ he₀ s₀ htoken₀ (hd.hash.symm.trans hr.hash)
  have huser : record.userId = claims.subject := hd.user.trans hsub
  have hissues : ∀ s,
      ¬ (⟨.revokePair access s₀, .ok none⟩ : Entry Operation (Option String)).Issues u s := fun s hs =>
    absurd hs.1 (by simp [Entry.token?])
  by_cases hu : u = record.userId
  · unfold Agrees
    simp only [hr.records, hu, if_true]
    rintro s (hs | ⟨-, he, hs⟩)
    · exact absurd hs.1 (by simp [Entry.token?])
    · rw [huser] at hs he
      exact he (hs₀.unique hs)
  · refine (ha u).frame (by rw [hr.records, if_neg hu]) hissues (fun s hs he => ?_)
    -- The token presented is in force for its own subject only.
    obtain rfl : s₀ = s := he
    obtain ⟨record', claims', -, hsub', hd'⟩ := exists_record_of_inForce (ha u) hs
    have hdecode := Codec.decodeRefresh_encodeRefresh hd'.expiry hd'.signed t
    rw [hr.verified] at hdecode
    by_cases hexp : claims'.expiry ≤ t.seconds
    · rw [if_pos hexp] at hdecode
      cases hdecode
    · rw [if_neg hexp] at hdecode
      obtain rfl := Except.ok.inj hdecode
      exact hu (hsub'.symm.trans huser.symm)

private theorem agrees_of_deleted {id : String} {s s' : MemoryStore} (ha : ∀ u, Agrees c h s u)
    (hs : ∀ u, s'.refreshTokens.get? u = if u = id then none else s.refreshTokens.get? u)
    (u : String) : Agrees c (⟨.delete id, .ok none⟩ :: h) s' u := by
  have hissues : ∀ t,
      ¬ (⟨.delete id, .ok none⟩ : Entry Operation (Option String)).Issues u t := fun t ht =>
    absurd ht.1 (by simp [Entry.token?])
  by_cases hu : u = id
  · unfold Agrees
    simp only [hs, hu, if_true]
    rintro t (ht | ⟨-, he, -⟩)
    · exact absurd ht.1 (by simp [Entry.token?])
    · exact he rfl
  · exact (ha u).frame (by rw [hs, if_neg hu]) hissues fun t _ he => hu (Eq.symm he)

/-- A store without refresh records agrees with whatever history follows. -/
theorem agrees_of_passes (hsym : c.algorithm.isSymmetric = true) (hc : c.Clamped)
    {w₀ : World MemoryStore} (hempty : w₀.store.refreshTokens = {}) (hstart : 0 ≤ w₀.clock)
    (hp : Passes c ids entropy w₀ h w) (hlast : w.clock ≤ lastInstant)
    (hhash : Set.InjOn hashToken {s | ∃ e ∈ h, s ∈ e.strings}) (u : String) :
    Agrees c h w.store u := by
  induction hp generalizing u with
  | start =>
    unfold Agrees
    rw [hempty]
    exact fun _ => id
  | wait _ ht ih => exact ih (Int.le_trans ht hlast) hhash u
  | other _ hs ih =>
    have ha := ih hlast hhash u
    unfold Agrees at ha ⊢
    rwa [hs]
  | @next h w w' r op hp hr ih =>
    have hsub : {s | ∃ e ∈ h, s ∈ e.strings} ⊆ {s | ∃ e ∈ ⟨op, r⟩ :: h, s ∈ e.strings} :=
      fun s ⟨e, he, hs⟩ => ⟨e, by simp [he], hs⟩
    have ha := ih (Int.le_trans hr.clock_le hlast) (hhash.mono hsub)
    have hnow : 0 ≤ w.clock := Int.le_trans hstart hp.clock_le
    rcases runs_program hsym hr with ⟨⟨e, rfl⟩, hs⟩ | ⟨p, token, t, t', d, hi⟩ |
      ⟨access, refresh, claims, record, t, rfl, rfl, hrev⟩ | ⟨id, rfl, rfl, hs⟩
    · exact agrees_of_failed ha hs u
    · exact agrees_of_issued hc ha hi hnow hlast u
    · refine agrees_of_revoked ha hrev (fun e he s hs heq => hhash ?_ ?_ heq) u
      · exact ⟨e, by simp [he], by simp [Entry.strings, hs]⟩
      · exact ⟨_, List.mem_cons_self, by simp [Entry.strings]⟩
    · exact agrees_of_deleted ha hs u

/-- The claims a refresh token carries, expired or not. -/
def Carries (c : Codec) (token : String) (claims : RefreshClaims) : Prop :=
  c.decode RefreshClaims.format (fun _ => false) token = .ok claims

/-- A token that is in force for its own subject and has not expired. -/
def Live (c : Codec) (h : Past) (now : Nanos) (token : String) (claims : RefreshClaims) :
    Prop :=
  Carries c token claims ∧ InForce claims.subject token h ∧ now < Nanos.ofSeconds claims.expiry

/-- A check at once finds a token in force, with its claims. -/
def Accepts (c : Codec) (ids : Nat → String) (entropy : Nat → Draw) (w : World MemoryStore)
    (token : String)
    (claims : RefreshClaims) : Prop :=
  ∃ record, (c.checkRefresh token).run ((MemoryStore.model ids).host entropy) w =
    (some (.ok (claims, record)), w)

def Refuses (c : Codec) (ids : Nat → String) (entropy : Nat → Draw) (w : World MemoryStore)
    (token : String) : Prop :=
  (c.checkRefresh token).run ((MemoryStore.model ids).host entropy) w =
    (some (.error .invalidRefreshToken), w)

private theorem Describes.carries {claims : RefreshClaims} {record : RefreshRecord}
    (hd : Describes c token claims record) : Carries c token claims :=
  Codec.decode_sign hd.signed (RefreshClaims.parse_write hd.expiry)
    (Registered.parse_refreshClaims hd.expiry)

private theorem Describes.decodeRefresh {claims : RefreshClaims} {record : RefreshRecord}
    (hd : Describes c token claims record) (now : Nanos) (claims' : RefreshClaims) :
    c.decodeRefresh now token = .ok claims' ↔ claims' = claims ∧ now < Nanos.ofSeconds claims.expiry := by
  have hsec : claims.expiry ≤ now.seconds ↔ ¬ now < Nanos.ofSeconds claims.expiry := by
    rw [← Nanos.seconds_lt_iff, Int.not_lt]
  rw [Codec.decodeRefresh_encodeRefresh hd.expiry hd.signed]
  by_cases hlt : now < Nanos.ofSeconds claims.expiry
  · rw [if_neg (by rw [hsec]; exact not_not_intro hlt)]
    exact ⟨fun h => ⟨(Except.ok.inj h).symm, hlt⟩, fun h => by rw [h.1]⟩
  · rw [if_pos (hsec.mpr hlt)]
    exact ⟨nofun, fun h => absurd h.2 hlt⟩

private theorem accepts_iff {hs : Set String}
    (hhash : Set.InjOn hashToken hs) (hmem : token ∈ hs)
    (hissued : ∀ e ∈ h, ∀ s, e.token? = some s → s ∈ hs)
    (ha : ∀ u, Agrees c h w.store u) (claims : RefreshClaims) :
    Accepts c ids entropy w token claims ↔ Live c h w.clock token claims := by
  obtain ⟨r, hrun, hok, -⟩ := Codec.run_checkRefresh (c := c) ids entropy w token
  have hr : Accepts c ids entropy w token claims ↔ ∃ record, r = .ok (claims, record) := by
    unfold Accepts
    simp only [hrun, Prod.mk.injEq, Option.some.injEq, and_true]
  rw [hr]
  constructor
  · rintro ⟨record, heq⟩
    obtain ⟨hdecode, hfound, hsame, -⟩ := (hok claims record).mp heq
    obtain ⟨t, claims', ht, -, hd⟩ := exists_inForce_of_get?_some (ha _) hfound
    obtain ⟨e, he, htoken⟩ := ht.issued
    obtain rfl : t = token :=
      hhash (hissued e he t htoken) hmem (hd.hash.symm.trans hsame)
    obtain ⟨rfl, hlt⟩ := (hd.decodeRefresh w.clock claims).mp hdecode
    exact ⟨hd.carries, ht, hlt⟩
  · rintro ⟨hcarries, ht, hlt⟩
    obtain ⟨record, claims', hget, -, hd⟩ := exists_record_of_inForce (ha _) ht
    obtain rfl : claims = claims' := Except.ok.inj (hcarries.symm.trans hd.carries)
    refine ⟨record, (hok claims record).mpr ⟨?_, hget, hd.hash, Int.lt_of_lt_of_le hlt hd.outlives⟩⟩
    exact (hd.decodeRefresh w.clock claims).mpr ⟨rfl, hlt⟩

private theorem refuses_of_not_accepts (hn : ∀ claims, ¬ Accepts c ids entropy w token claims) :
    Refuses c ids entropy w token := by
  obtain ⟨r, hrun, -, herr⟩ := Codec.run_checkRefresh (c := c) ids entropy w token
  cases r with
  | error e => rw [Refuses, hrun, herr e rfl]
  | ok x => exact absurd ⟨x.2, hrun⟩ (hn x.1)

private theorem not_accepts_of_refuses (hr : Refuses c ids entropy w token) (claims : RefreshClaims) :
    ¬ Accepts c ids entropy w token claims := by
  rintro ⟨record, ha⟩
  rw [Refuses, ha] at hr
  cases hr

/-- A token that is not issued again was in force before. -/
private theorem InForce.of_append {later earlier : Past}
    (ht : InForce userId token (later ++ earlier)) (hn : ∀ e ∈ later, e.token? ≠ some token) :
    InForce userId token earlier := by
  induction later with
  | nil => exact ht
  | cons e later ih =>
    rcases ht with ht | ⟨-, -, ht⟩
    · exact absurd ht.1 (hn e (by simp))
    · exact ih ht fun e' he' => hn e' (by simp [he'])

/-- After any operations, a check accepts exactly the token issued last for its own subject, while
it is neither ended nor expired, and refuses every other text in the same way. If no token is issued
twice, an issued token once refused is refused for good. -/
theorem accepts_iff_live {cfg : TokenConfig} (hsym : cfg.algorithm.isSymmetric = true)
    {w₀ : World MemoryStore} (hempty : w₀.store.refreshTokens = {}) (hstart : 0 ≤ w₀.clock)
    (hp : Passes (.ofConfig cfg) ids entropy w₀ h w) (hlast : w.clock ≤ lastInstant) (token : String)
    (hhash : Set.InjOn hashToken {s | s = token ∨ ∃ e ∈ h, s ∈ e.strings}) :
    (∀ claims, Accepts (.ofConfig cfg) ids entropy w token claims ↔
      Live (.ofConfig cfg) h w.clock token claims) ∧
    ((∀ claims, ¬ Live (.ofConfig cfg) h w.clock token claims) →
      Refuses (.ofConfig cfg) ids entropy w token) ∧
    ((h.filterMap Entry.token?).Nodup → ∀ later earlier w₁, h = later ++ earlier →
      Passes (.ofConfig cfg) ids entropy w₀ earlier w₁ → Passes (.ofConfig cfg) ids entropy w₁ later w →
      (∃ e ∈ earlier, e.token? = some token) → Refuses (.ofConfig cfg) ids entropy w₁ token →
      Refuses (.ofConfig cfg) ids entropy w token) := by
  have hc := Codec.ofConfig_clamped cfg
  have hissued : ∀ e ∈ h, ∀ s, e.token? = some s → s ∈ {s | s = token ∨ ∃ e ∈ h, s ∈ e.strings} :=
    fun e he s hs => .inr ⟨e, he, by simp [Entry.strings, hs]⟩
  have ha := agrees_of_passes hsym hc hempty hstart hp hlast (hhash.mono fun s hs => .inr hs)
  have hiff : ∀ claims, Accepts (.ofConfig cfg) ids entropy w token claims ↔
      Live (.ofConfig cfg) h w.clock token claims :=
    accepts_iff hhash (.inl rfl) hissued ha
  have hrefuses : (∀ claims, ¬ Live (.ofConfig cfg) h w.clock token claims) →
      Refuses (.ofConfig cfg) ids entropy w token :=
    fun hn => refuses_of_not_accepts fun claims hacc => hn claims ((hiff claims).mp hacc)
  refine ⟨hiff, hrefuses, fun hnodup later earlier w₁ hsplit hp₁ hp₂ hmem hr => ?_⟩
  subst hsplit
  have hsub : {s | ∃ e ∈ earlier, s ∈ e.strings} ⊆
      {s | s = token ∨ ∃ e ∈ later ++ earlier, s ∈ e.strings} :=
    fun s ⟨e, he, hs⟩ => .inr ⟨e, by simp [he], hs⟩
  have ha₁ := agrees_of_passes hsym hc hempty hstart hp₁ (Int.le_trans hp₂.clock_le hlast)
    (hhash.mono hsub)
  refine hrefuses fun claims hlive => not_accepts_of_refuses hr claims ?_
  refine (accepts_iff hhash (.inl rfl) (fun e he => hissued e (by simp [he])) ha₁ claims).mpr ?_
  refine ⟨hlive.1, hlive.2.1.of_append fun e he htoken => ?_,
    Int.lt_of_le_of_lt hp₂.clock_le hlive.2.2⟩
  -- The token would be issued both before and after.
  obtain ⟨e', he', htoken'⟩ := hmem
  rw [List.filterMap_append] at hnodup
  exact (List.nodup_append.mp hnodup).2.2 token (List.mem_filterMap.mpr ⟨e, he, htoken⟩) token
    (List.mem_filterMap.mpr ⟨e', he', htoken'⟩) rfl

/-- The first token of a user is accepted right after it was issued. -/
theorem accepts_iff_live_first_token :
    ∃ token w, Passes (.ofConfig (.withSecret "secret")) serialId (fun _ => .replicate 16 0) ⟨{}, 0, 0⟩
        [⟨.createRefresh ⟨"ada", "ada@example.com", .empty⟩, .ok (some token)⟩] w ∧
      Accepts (.ofConfig (.withSecret "secret")) serialId (fun _ => .replicate 16 0) w token
        (Codec.refreshClaims (.ofConfig (.withSecret "secret")) 0 (.replicate 16 0)
          ⟨"ada", "ada@example.com", .empty⟩) := by
  let cfg : TokenConfig := .withSecret "secret"
  let c : Codec := .ofConfig cfg
  let p : Principal := ⟨"ada", "ada@example.com", .empty⟩
  let claims := c.refreshClaims 0 (.replicate 16 0) p
  have hsym : cfg.algorithm.isSymmetric = true := rfl
  obtain ⟨token, htoken⟩ : ∃ token, c.encodeRefresh claims = .ok token := Codec.exists_sign hsym _
  let w : World MemoryStore :=
    ⟨{ refreshTokens := Table.insert {} "ada" (c.recordOf 0 "ada" token) }, 0, 1⟩
  have hrun : ((Operation.createRefresh p).program c).run
      ((MemoryStore.model serialId).host fun _ => .replicate 16 0) ⟨{}, 0, 0⟩ =
        (some (.ok (some token)), w) :=
    run_bind (Codec.run_createRefresh (w := ⟨{}, 0, 0⟩) htoken)
  have hp : Passes c serialId (fun _ => .replicate 16 0) ⟨{}, 0, 0⟩
      [⟨.createRefresh p, .ok (some token)⟩] w :=
    .next (Operation.createRefresh p) .start (runs_of_run hrun)
  have hvalid : ValidExpiry claims.expiry :=
    Codec.refreshClaims_validExpiry (Codec.ofConfig_clamped cfg) (by decide) (by decide) _ p
  let past : Past := [⟨.createRefresh p, .ok (some token)⟩]
  have hinj : Set.InjOn hashToken {s | s = token ∨ ∃ e ∈ past, s ∈ e.strings} := by
    have hone : ∀ s ∈ {s | s = token ∨ ∃ e ∈ past, s ∈ e.strings}, s = token := by
      rintro s (rfl | ⟨e, he, hs⟩)
      · rfl
      · obtain rfl := List.mem_singleton.mp he
        simpa [Entry.strings, Entry.token?] using hs
    intro s hs t ht _
    rw [hone s hs, hone t ht]
  refine ⟨token, w, hp, ?_⟩
  have hlast : w.clock ≤ lastInstant := by
    change (0 : Int) ≤ 8210266876799999999999
    decide
  refine ((accepts_iff_live hsym rfl (by decide) hp hlast token hinj).1 claims).mpr ⟨?_, ?_, ?_⟩
  · exact Codec.decode_sign htoken (RefreshClaims.parse_write hvalid)
      (Registered.parse_refreshClaims hvalid)
  · exact .inl ⟨rfl, p, rfl, rfl⟩
  · change (0 : Int) < Nanos.ofSeconds 2592000
    decide

end Lineage

end Turnstile
