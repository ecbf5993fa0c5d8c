import Turnstile.Proofs.Pool
import Turnstile.Proofs.Service.Lifetime
import Turnstile.Proofs.Service.Operations

/-! How long an access token stays on the deny-list. Its expiry is an instant in seconds, what is sent
to the store is the time left until then in whole milliseconds, and what the store keeps is a deadline
counted from the call. The deadline is the expiry, later by the time since the millisecond of the look
at the clock began. -/

namespace Turnstile.Deadlines

open Program

variable {ι : Type}

/-- The key that a call puts on the deny-list, and the time it is to stay there. -/
def denial? : Exchange → Option (String × Nat)
  | ⟨.revoke key ttl, .ok _⟩ => some (key, ttl)
  | _ => none

def lastDenial (key : String) (log : List (Event ι MemoryStore)) : Option (Event ι MemoryStore) :=
  log.find? fun x => (denial? x.exchange).any fun d => d.1 = key ∧ d.2 ≠ 0

/-- The pools that come about when some operations start on an empty deny-list, no earlier than 1970.
The rest of the store may change in any way, and entries may be dropped; a call may fail on its way to
the store. -/
abbrev Reaches [DecidableEq ι] (c : Codec) (ids : Nat → String) (entropy : Nat → Draw)
    (mayFail : Call → AuthError → Prop) (operations : ι → Operation) :
    Pool ι MemoryStore (Option String) → Prop :=
  Pool.Reaches (MemoryStore.faulty ids entropy mayFail)
    (fun s s' => ∀ key deadline, s'.revocations.get? key = some deadline →
      s.revocations.get? key = some deadline)
    (fun w => w.store.revocations = {} ∧ 0 ≤ w.clock) fun i => (operations i).program c

/-- The arguments of a call that denies a token that verifies at any age, for the time it had left at
the instant last read off the clock. -/
structure Due (c : Codec) (key : String) (ttl : Nat) (read : Option Nanos) (access : String)
    (claims : AccessClaims) (t : Nanos) : Prop where
  key_eq : key = blacklistKey access
  verifies : c.decodeAccessAnyAge access = .ok claims
  read_eq : read = some t
  ttl_eq : ttl = remainingLifetime claims.expiry t

/-- A program that writes to the deny-list only with such arguments. -/
def Timely {α : Type} (c : Codec) : Option Nanos → Program α → Prop
  | _, .done _ => True
  | _, .clock next => ∀ t, Timely c (some t) (next t)
  | read, .draw next => ∀ d, Timely c read (next d)
  | read, .call d next =>
    (∀ key ttl, d = .revoke key ttl → ∃ access claims t, Due c key ttl read access claims t) ∧
      ∀ r, Timely c read (next r)

namespace Timely

variable {α β : Type} {c : Codec} {read : Option Nanos}

theorem bind {p : Program α} {f : α → Program β} (hp : Timely c read p)
    (hf : ∀ a read', Timely c read' (f a)) : Timely c read (p >>= f) := by
  rw [bind_eq]
  induction p generalizing read with
  | done r =>
    cases r with
    | ok a => exact hf a read
    | error e => trivial
  | clock next ih => exact fun t => ih t (hp t)
  | draw next ih => exact fun d => ih d (hp d)
  | call d next ih => exact ⟨hp.1, fun r => ih r (hp.2 r)⟩

theorem of_neverRevokes {p : Program α} (hp : p.NeverRevokes) : Timely c read p := by
  induction p generalizing read with
  | done r => trivial
  | clock next ih => exact fun t => ih t (hp t)
  | draw next ih => exact fun d => ih d (hp d)
  | call d next ih =>
    refine ⟨fun key ttl hd => ?_, fun r => ih r (hp.2 r)⟩
    subst hd
    exact absurd rfl hp.1

/-- A token is denied right after a look at the clock. -/
theorem denyFor {access : String} {claims : AccessClaims}
    (h : c.decodeAccessAnyAge access = .ok claims) :
    Timely c read (Turnstile.denyFor access claims) := by
  refine fun t => ⟨fun key ttl hd => ?_, fun r => trivial⟩
  obtain ⟨rfl, rfl⟩ := Call.revoke.inj hd
  exact ⟨access, claims, t, rfl, h, rfl, rfl⟩

theorem ofExcept {r : Except AuthError α} {f : α → Program β}
    (hf : ∀ a, r = .ok a → Timely c read (f a)) : Timely c read (ofExcept r >>= f) := by
  cases r with
  | ok a => exact hf a rfl
  | error e => trivial

theorem blacklist (access : String) : Timely c read (c.blacklist access) :=
  ofExcept fun _ h => denyFor h

theorem revokePair (access token : String) : Timely c read (c.revokePair access token) := by
  refine bind (of_neverRevokes (.of_looks (Codec.looks_checkRefresh token))) ?_
  rintro ⟨refreshClaims, record⟩ read
  refine ofExcept fun claims h => ?_
  split_ifs
  · trivial
  · exact bind (of_neverRevokes (Codec.neverRevokes_consume record)) fun _ _ => denyFor h

/-- Every operation writes in this way. -/
theorem operation (op : Operation) : Timely c read (op.program c) := by
  cases hop : op.denies? with
  | none => exact of_neverRevokes (Operation.neverRevokes hop)
  | some access =>
    cases op with
    | logout a token => exact bind (bind (revokePair a token) fun _ _ => trivial) fun _ _ => trivial
    | revokePair a token => exact bind (revokePair a token) fun _ _ => trivial
    | blacklist a => exact bind (blacklist a) fun _ _ => trivial
    | _ => cases hop

/-- A step that writes to the deny-list writes in this way. Any other step lets the list fade. -/
theorem step {ids : Nat → String} {entropy : Nat → Draw} {mayFail : Call → AuthError → Prop}
    {p p' : Program α} {w w' : World MemoryStore} {x : Option Exchange} (hp : Timely c read p)
    (hs : Step (MemoryStore.faulty ids entropy mayFail) p w x p' w') :
    Timely c (Task.readNext w.clock ⟨p, read⟩) p' ∧
      ((x.bind denial? = none ∧ Fades w w') ∨ ∃ key ttl access claims t,
        x = some ⟨.revoke key ttl, .ok ()⟩ ∧ Due c key ttl read access claims t ∧
        w'.store = w.store.revoke w.clock key ttl) := by
  cases hs with
  | clock next => exact ⟨hp w.clock, .inl ⟨rfl, .of_eq rfl⟩⟩
  | draw next => exact ⟨hp _, .inl ⟨rfl, .of_eq rfl⟩⟩
  | lost d next _ hl =>
    refine ⟨hp.2 _, .inl ⟨?_, .of_eq rfl⟩⟩
    cases d <;> rfl
  | call d next =>
    refine ⟨hp.2 _, ?_⟩
    by_cases hd : d.method = .revoke
    · cases d with
      | revoke key ttl =>
        obtain ⟨access, claims, t, ht⟩ := hp.1 key ttl rfl
        exact .inr ⟨key, ttl, access, claims, t, rfl, ht, rfl⟩
      | _ => cases hd
    · refine .inl ⟨?_, .of_model hd w⟩
      cases d with
      | revoke key ttl => exact absurd rfl hd
      | _ => rfl

end Timely

structure Denial (x : Event ι MemoryStore) (c : Codec) (access : String) (claims : AccessClaims)
    (t : Nanos) : Prop where
  call : denial? x.exchange = some (blacklistKey access, remainingLifetime claims.expiry t)
  verifies : c.decodeAccessAnyAge access = .ok claims
  readAt : x.readAt = some t
  effect : x.after =
    x.before.revoke x.madeAt (blacklistKey access) (remainingLifetime claims.expiry t)

theorem lastDenial_cons_of_not {key : String} {x : Event ι MemoryStore}
    {log : List (Event ι MemoryStore)}
    (h : ∀ ttl, denial? x.exchange = some (key, ttl) → ttl = 0) :
    lastDenial key (x :: log) = lastDenial key log := by
  refine List.find?_cons_of_neg ?_
  cases hd : denial? x.exchange with
  | none => simp
  | some d =>
    obtain ⟨k, ttl⟩ := d
    simp only [Option.any_some, decide_eq_true_eq, not_and, not_not]
    rintro rfl
    exact h ttl hd

theorem lastDenial_cons {key : String} {ttl : Nat} {x : Event ι MemoryStore}
    {log : List (Event ι MemoryStore)} (hd : denial? x.exchange = some (key, ttl)) (h : ttl ≠ 0) :
    lastDenial key (x :: log) = some x :=
  List.find?_cons_of_pos (by simp [hd, h])

theorem lastDenial_some {key : String} {x : Event ι MemoryStore} {log : List (Event ι MemoryStore)}
    (h : lastDenial key log = some x) :
    x ∈ log ∧ ∃ ttl, denial? x.exchange = some (key, ttl) ∧ ttl ≠ 0 := by
  have hfound := List.find?_some h
  obtain ⟨⟨k, ttl⟩, hd, hk⟩ := (Option.any_eq_true _ _).mp hfound
  obtain ⟨rfl, hne⟩ := of_decide_eq_true hk
  exact ⟨List.mem_of_find?_eq_some h, ttl, hd, hne⟩

/-- Every entry is the last one made for its key that left it any time. -/
structure Lawful (c : Codec) (P : Pool ι MemoryStore (Option String)) : Prop where
  timely : ∀ i, Timely c (P.tasks i).read (P.left i)
  denials : ∀ x ∈ P.log, denial? x.exchange ≠ none → ∃ access claims t, Denial x c access claims t
  entries : ∀ key deadline, P.world.store.revocations.get? key = some deadline →
    ∃ x ttl, lastDenial key P.log = some x ∧ denial? x.exchange = some (key, ttl) ∧
      deadline = x.madeAt + ttl

variable [DecidableEq ι] {c : Codec} {ids : Nat → String} {entropy : Nat → Draw}
  {mayFail : Call → AuthError → Prop} {operations : ι → Operation}
  {P : Pool ι MemoryStore (Option String)}

private theorem Lawful.step {i : ι} {x : Option Exchange} {p : Program (Option String)}
    {w : World MemoryStore} (h : Lawful c P)
    (hs : Step (MemoryStore.faulty ids entropy mayFail) (P.left i) P.world x p w) :
    Lawful c (P.advance i x p w) := by
  obtain ⟨htimely, hwrite⟩ := (h.timely i).step hs
  constructor
  case timely =>
    intro j
    by_cases hj : j = i
    · subst hj
      simpa [Pool.advance, Pool.left] using htimely
    · simpa [Pool.advance, Pool.left, hj] using h.timely j
  case denials =>
    intro y hy hsome
    obtain ⟨z, rfl, rfl⟩ | hy := Pool.mem_log_advance.mp hy
    · rcases hwrite with ⟨hnone, -⟩ | ⟨key, ttl, access, claims, t, heq, hdue, hstore⟩
      · exact absurd hnone hsome
      · obtain rfl := Option.some.inj heq
        obtain ⟨rfl, hverifies, hread, rfl⟩ := hdue
        exact ⟨access, claims, t, rfl, hverifies, hread, hstore⟩
    · exact h.denials y hy hsome
  case entries =>
    intro key deadline hget
    rcases hwrite with ⟨hnone, hfades⟩ | ⟨key', ttl, access, claims, t, rfl, hdue, hstore⟩
    · have hget' : P.world.store.revocations.get? key = some deadline := by
        rcases hfades key with hsame | ⟨hgone, -⟩
        · exact hsame ▸ hget
        · cases hgone.symm.trans hget
      obtain ⟨y, ttl, hlast, hrest⟩ := h.entries key deadline hget'
      refine ⟨y, ttl, ?_, hrest⟩
      cases x with
      | none => exact hlast
      | some z =>
        refine (lastDenial_cons_of_not fun ttl hd => ?_).trans hlast
        cases hnone.symm.trans hd
    · rw [Pool.world_advance, hstore, MemoryStore.get?_revocations_revoke] at hget
      split_ifs at hget with hkey
      · obtain ⟨rfl, httl⟩ := hkey
        exact ⟨_, ttl, lastDenial_cons rfl httl, rfl, (Option.some.inj hget).symm⟩
      · obtain ⟨y, ttl', hlast, hrest⟩ := h.entries key deadline hget
        refine ⟨y, ttl', (lastDenial_cons_of_not fun ttl'' hd => ?_).trans hlast, hrest⟩
        obtain ⟨rfl, rfl⟩ := Prod.mk.inj (Option.some.inj hd)
        exact not_not.mp fun hne => hkey ⟨rfl, hne⟩

theorem Reaches.lawful (hP : Reaches c ids entropy mayFail operations P) : Lawful c P := by
  refine Pool.Reaches.keeps hP ?_ (fun P t h _ => ?_) (fun P s h hkept => ?_)
    fun P i x p w h hs => h.step hs
  · rintro w ⟨hempty, -⟩
    refine ⟨fun i => Timely.operation (operations i), fun x hx => (nomatch hx), ?_⟩
    intro key deadline hget
    change w.store.revocations.get? key = some deadline at hget
    rw [hempty] at hget
    cases hget
  · exact ⟨h.timely, h.denials, h.entries⟩
  · exact ⟨h.timely, h.denials, fun key deadline hget =>
      h.entries key deadline (hkept key deadline hget)⟩

/-- How the deadline of an entry relates to the expiry of its token, where the time left was taken at
one instant and the entry stored at another. -/
structure Ends (expiry : Int) (taken stored deadline : Nanos) : Prop where
  /-- It is later by the time between the two instants, and by what was over of the millisecond of the
  first one. -/
  later : deadline =
    Nanos.ofSeconds expiry + (stored - taken) + (taken - Nanos.ofMillis taken.millis)
  early : Nanos.ofSeconds expiry + (stored - taken) ≤ deadline
  late : deadline < Nanos.ofSeconds expiry + (stored - taken) + Nanos.ofMillis 1
  /-- Where the clock stood still, the entry outlives its token unless it was made on the beat of a
  millisecond. -/
  standing : stored = taken → (deadline = Nanos.ofSeconds expiry ↔ taken = Nanos.ofMillis taken.millis)

theorem ends_of_deadline {expiry : Int} {taken stored deadline : Nanos} (ht : 0 ≤ taken)
    (hmax : 1000 * expiry ≤ int64Max) (hleft : remainingLifetime expiry taken ≠ 0)
    (h : deadline = stored + remainingLifetime expiry taken) : Ends expiry taken stored deadline := by
  have hfresh : taken < Nanos.ofSeconds expiry :=
    Int.not_le.mp fun hle => hleft (remainingLifetime_of_expired ht hle)
  have hearlier : taken.millis ≤ int64Max := by
    unfold Nanos.ofSeconds at hfresh
    unfold Nanos.millis Nanos at *
    omega
  rw [remainingLifetime_of_fresh ht hearlier hfresh] at h
  have hlater : deadline =
      Nanos.ofSeconds expiry + (stored - taken) + (taken - Nanos.ofMillis taken.millis) := by
    unfold Nanos.ofSeconds Nanos.ofMillis Nanos.millis Nanos at *
    omega
  have hover : 0 ≤ taken - Nanos.ofMillis taken.millis ∧
      taken - Nanos.ofMillis taken.millis < Nanos.ofMillis 1 := by
    unfold Nanos.ofMillis Nanos.millis Nanos at *
    omega
  unfold Nanos at hlater hover
  refine ⟨hlater, ?_, ?_, fun hstanding => ?_⟩
  · exact hlater ▸ Int.le_add_of_nonneg_right hover.1
  · exact hlater ▸ Int.add_lt_add_left hover.2 _
  · rw [hlater, hstanding]
    unfold Nanos
    omega

/-- Every entry on the deny-list is for a token that verifies at any age. It ends with the token, or
later by less than a millisecond beside the time between the look at the clock and the call that made
the entry. Denying does nothing for a token that had expired at that look. -/
theorem entries_end_with_token (hP : Reaches c ids entropy mayFail operations P) :
    (∀ key deadline, P.world.store.revocations.get? key = some deadline →
      ∃ x access claims t, lastDenial key P.log = some x ∧ key = blacklistKey access ∧
        Denial x c access claims t ∧ 0 ≤ t ∧ t ≤ x.madeAt ∧ x.madeAt ≤ P.world.clock ∧
        (1000 * claims.expiry ≤ int64Max → Ends claims.expiry t x.madeAt deadline)) ∧
    ∀ x ∈ P.log, denial? x.exchange ≠ none → ∃ access claims t, Denial x c access claims t ∧
      (Nanos.ofSeconds claims.expiry ≤ t → x.after = x.before) := by
  have hlawful := hP.lawful
  have htimed := Pool.Reaches.timed hP fun w hw => hw.2
  constructor
  · intro key deadline hget
    obtain ⟨x, ttl, hlast, hd, hdeadline⟩ := hlawful.entries key deadline hget
    obtain ⟨hmem, ttl', hd', hleft⟩ := lastDenial_some hlast
    obtain ⟨access, claims, t, hdenial⟩ := hlawful.denials x hmem (by simp [hd])
    obtain ⟨rfl, rfl⟩ := Prod.mk.inj (Option.some.inj (hd.symm.trans hdenial.call))
    obtain ⟨-, rfl⟩ := Prod.mk.inj (Option.some.inj (hd'.symm.trans hd))
    obtain ⟨hmade, hread⟩ := htimed.log x hmem
    obtain ⟨hnonneg, hle⟩ := hread t hdenial.readAt
    exact ⟨x, access, claims, t, hlast, rfl, hdenial, hnonneg, hle, hmade, fun hmax =>
      ends_of_deadline hnonneg hmax hleft hdeadline⟩
  · intro x hx hsome
    obtain ⟨access, claims, t, hdenial⟩ := hlawful.denials x hx hsome
    refine ⟨access, claims, t, hdenial, fun hexpired => ?_⟩
    rw [hdenial.effect,
      remainingLifetime_of_expired ((htimed.log x hx).2 t hdenial.readAt).1 hexpired]
    rfl

/-- A token is denied by a call that comes some time after the look at the clock. -/
private theorem exists_denied (ids : Nat → String) (entropy : Nat → Draw)
    (mayFail : Call → AuthError → Prop) {token : String} {claims : AccessClaims}
    (hclaims : c.decodeAccessAnyAge token = .ok claims) {t u : Nanos} (ht : 0 ≤ t) (htu : t ≤ u)
    (hleft : remainingLifetime claims.expiry t ≠ 0) :
    ∃ P : Pool Unit MemoryStore (Option String),
      Reaches c ids entropy mayFail (fun _ => .blacklist token) P ∧
      P.world.store.revocations.get? (blacklistKey token) =
        some (u + remainingLifetime claims.expiry t) ∧
      ∀ x ∈ P.log, x.readAt = some t ∧ x.madeAt = u := by
  let denial (t : Nanos) : Program (Option String) :=
    .call (.revoke (blacklistKey token) (remainingLifetime claims.expiry t)) fun r =>
      (Program.done r).bind fun _ => pure none
  have hprogram : (Operation.blacklist token).program c = .clock denial := by
    simp only [Operation.program, Codec.blacklist, hclaims]
    rfl
  let w : World MemoryStore := ⟨{}, t, 0⟩
  have hstart : Reaches c ids entropy mayFail (fun _ => .blacklist token)
      (Pool.opened w fun _ : Unit => (Operation.blacklist token).program c) := .start w ⟨rfl, ht⟩
  rw [hprogram] at hstart
  have hread := hstart.step () (.clock denial w)
  have hwaited := hread.wait htu
  have hdenied := hwaited.step () (.call (.revoke (blacklistKey token)
    (remainingLifetime claims.expiry t)) _ (w.atTime u))
  refine ⟨_, hdenied, ?_, ?_⟩
  · change (MemoryStore.revoke u _ _ {}).revocations.get? _ = _
    rw [MemoryStore.get?_revocations_revoke, if_pos ⟨rfl, hleft⟩]
  · intro x hx
    obtain rfl := List.mem_singleton.mp hx
    exact ⟨rfl, rfl⟩

/-- An access token issued at an instant can be denied from that instant on. -/
private theorem exists_issued {t : Nanos} (ht : 0 ≤ t) (hlast : t ≤ lastInstant)
    (hsym : c.algorithm.isSymmetric = true) (hc : c.Clamped) (p : Principal) :
    ∃ token, c.decodeAccessAnyAge token = .ok (c.accessClaims t p) := by
  obtain ⟨token, htoken⟩ := Codec.exists_sign hsym (AccessClaims.format.toJson (c.accessClaims t p))
  exact ⟨token, Codec.decodeAccessAnyAge_encodeAccess
    (Codec.accessClaims_validExpiry hc ht hlast p) htoken⟩

/-- A token for fifteen minutes that is denied by a call five milliseconds after the look at the
clock. -/
theorem entries_end_with_token_slow_call :
    ∃ (token : String) (P : Pool Unit MemoryStore (Option String)),
      Reaches (.ofConfig (.withSecret "secret")) serialId (fun _ => .replicate 16 0)
        (fun _ _ => False) (fun _ => .blacklist token) P ∧
      P.world.store.revocations.get? (blacklistKey token) = some 900005000000 ∧
      ∃ x access claims t, lastDenial (blacklistKey token) P.log = some x ∧
        blacklistKey token = blacklistKey access ∧
        Denial x (.ofConfig (.withSecret "secret")) access claims t ∧ 0 ≤ t ∧ t ≤ x.madeAt ∧
        x.madeAt ≤ P.world.clock ∧
        (1000 * claims.expiry ≤ int64Max → Ends claims.expiry t x.madeAt 900005000000) := by
  let c : Codec := .ofConfig (.withSecret "secret")
  obtain ⟨token, hclaims⟩ := exists_issued (c := c) (t := 0) (by decide) (by decide) rfl
    (Codec.ofConfig_clamped _) ⟨"ada", "ada@example.com", .empty⟩
  obtain ⟨P, hP, hget, -⟩ := exists_denied serialId (fun _ => .replicate 16 0) (fun _ _ => False)
    hclaims (Int.le_refl 0) (show (0 : Int) ≤ 5000000 by decide) (by decide)
  have hdeadline : (5000000 + remainingLifetime (c.accessClaims 0
      ⟨"ada", "ada@example.com", .empty⟩).expiry 0 : Int) = 900005000000 := by decide
  rw [hdeadline] at hget
  exact ⟨token, P, hP, hget, (entries_end_with_token hP).1 _ _ hget⟩

/-- A token denied at once, while the clock stands still within a millisecond: its entry is still there
when the token has expired. -/
theorem entries_outlive_token :
    ∃ (token : String) (claims : AccessClaims) (P : Pool Unit MemoryStore (Option String)),
      Reaches (.ofConfig (.withSecret "secret")) serialId (fun _ => .replicate 16 0)
        (fun _ _ => False) (fun _ => .blacklist token) P ∧
      Codec.decodeAccessAnyAge (.ofConfig (.withSecret "secret")) token = .ok claims ∧
      claims.expiry = 1700000900 ∧
      (∀ x ∈ P.log, x.readAt = some 1700000000000600000 ∧ x.madeAt = 1700000000000600000) ∧
      P.world.store.revocations.get? (blacklistKey token) = some 1700000900000600000 ∧
      (P.world.store.isRevoked (Nanos.ofSeconds claims.expiry) (blacklistKey token)).1 = true := by
  let c : Codec := .ofConfig (.withSecret "secret")
  obtain ⟨token, hclaims⟩ := exists_issued (c := c) (t := 1700000000000600000) (by decide)
    (by decide) rfl (Codec.ofConfig_clamped _) ⟨"ada", "ada@example.com", .empty⟩
  obtain ⟨P, hP, hget, hlog⟩ := exists_denied serialId (fun _ => .replicate 16 0) (fun _ _ => False)
    hclaims (by decide) (Int.le_refl 1700000000000600000) (by decide)
  have hdeadline : (1700000000000600000 + remainingLifetime (c.accessClaims 1700000000000600000
      ⟨"ada", "ada@example.com", .empty⟩).expiry 1700000000000600000 : Int) =
        1700000900000600000 := by decide
  have hexpiry : (c.accessClaims 1700000000000600000 ⟨"ada", "ada@example.com", .empty⟩).expiry =
      1700000900 := by decide
  rw [hdeadline] at hget
  refine ⟨token, _, P, hP, hclaims, hexpiry, hlog, hget, ?_⟩
  have hlive : ¬ (1700000900000600000 : Int) ≤ Nanos.ofSeconds 1700000900 := by decide
  rw [hexpiry]
  simp only [MemoryStore.isRevoked, hget, hlive, if_false]

end Turnstile.Deadlines
