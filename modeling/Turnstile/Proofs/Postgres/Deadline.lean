import Mathlib.Tactic.SplitIfs
import Turnstile.Postgres.Scripted
import Turnstile.Proofs.Execution
import Turnstile.Proofs.Postgres.Script
import Turnstile.Proofs.Service.Lifetime
import Turnstile.Proofs.Token.Codec

/-! Deadlines of the deny-list as instants of a database: those that a clock can show are stored, and
a call that comes to one beyond them ends without an answer. -/

namespace Turnstile.Postgres

open Script

variable {σ α β : Type} {database : Statement → σ → Except DbError Reply × σ}
  {entropy : Nat → Draw} {now : Nanos}

/-- A script whose statements can all be sent, whatever the replies. -/
inductive Script.Sendable {α : Type} : Script α → Prop
  | done (r : Except AuthError α) : Sendable (.done r)
  | send {s : Statement} {next : Except DbError Reply → Script α} :
    s.sendable = true → (∀ reply, (next reply).Sendable) → Sendable (.send s next)

/-- A script that can be sent runs to its end. -/
theorem run?_of_sendable (database : Statement → σ → Except DbError Reply × σ) {x : Script α}
    (h : x.Sendable) (s : σ) :
    host.run? database x s = ((some (model.run database x s).1), (model.run database x s).2) := by
  induction h generalizing s with
  | done r => rfl
  | send hs _ ih =>
    rw [host.run?, if_pos hs, model.run]
    exact ih _ _

namespace Script

theorem Sendable.bind {x : Script α} {f : α → Script β} (hx : x.Sendable)
    (hf : ∀ a, (f a).Sendable) : (x.bind f).Sendable := by
  induction hx with
  | done r =>
    cases r with
    | ok a => exact hf a
    | error e => exact .done _
  | send hs _ ih => exact .send hs ih

theorem Sendable.transaction {x : Script α} (hx : x.Sendable) : (transaction x).Sendable := by
  have hwithin : (Script.transaction.within x).Sendable := by
    induction hx with
    | done r =>
      cases r with
      | error e => exact .send rfl fun _ => .done _
      | ok a =>
        refine .send rfl fun reply => ?_
        cases reply with
        | ok _ => exact .done _
        | error e => exact .send rfl fun _ => .done _
    | send hs _ ih => exact .send hs ih
  refine .send rfl fun reply => ?_
  cases reply with
  | error e => exact .done _
  | ok _ => exact hwithin

variable {statement : Statement} {read : RowReader α}

theorem sendable_trySend (h : statement.sendable = true) : (trySend statement).Sendable :=
  .send h fun _ => .done _

theorem sendable_fetchAll (h : statement.sendable = true) : (fetchAll read statement).Sendable := by
  rw [fetchAll_eq]
  exact .send h fun _ => .done _

theorem sendable_fetchOptional (h : statement.sendable = true) :
    (fetchOptional read statement).Sendable := by
  rw [fetchOptional_eq]
  exact .send h fun _ => .done _

theorem sendable_fetchOne (h : statement.sendable = true) : (fetchOne read statement).Sendable := by
  rw [fetchOne_eq]
  exact .send h fun _ => .done _

theorem sendable_perform (h : statement.sendable = true) : (perform statement).Sendable := by
  rw [perform_eq]
  exact .send h fun _ => .done _

end Script

def instants (now : Nanos) : Call → List Nanos
  | .upsert record => [record.expiresAt, record.createdAt]
  | .revoke _ ttl => if ttl = 0 ∨ Nanos.ofMillis int64Max < ttl then [] else [now + ttl]
  | _ => []

private theorem sendable_insertUser (email : String) (name : Option String) (passwordHash : String) :
    (insertUser email name passwordHash).sendable = true := by
  cases name <;> rfl

private theorem sendable_createUser (email : String) (name : Option String) (passwordHash : String) :
    (createUser email name passwordHash).Sendable := by
  refine Sendable.transaction ((sendable_perform rfl).bind fun _ =>
    (sendable_fetchOne rfl).bind fun _ =>
      (sendable_trySend (sendable_insertUser _ _ _)).bind fun reply => ?_)
  cases reply with
  | error e => exact .done _
  | ok reply => exact Sendable.bind (.done _) fun _ => .done _

private theorem sendable_deleteMatching (userId tokenHash : String) :
    (deleteMatching userId tokenHash).Sendable := by
  refine Sendable.bind (Sendable.bind (.send rfl fun reply => ?_) fun _ => .done _) fun _ => .done _
  cases reply <;> exact .done _

private theorem sendable_rolesByNames (names : List String) : (rolesByNames names).Sendable := by
  unfold rolesByNames
  split_ifs
  · exact .done _
  · exact (sendable_fetchAll rfl).bind fun _ => .done _

private theorem sendable_grantRole (userId role : String) : (grantRole userId role).Sendable := by
  refine (sendable_fetchOne rfl).bind fun known => ?_
  cases known
  · exact Sendable.bind (.done _) fun _ => sendable_perform rfl
  · exact sendable_perform rfl

/-- Every call can be sent whose instants are all ones that a clock can show. -/
theorem sendable_script (c : Call) (h : ∀ t ∈ instants now c, t ≤ lastInstant) :
    (script now c).Sendable := by
  cases c with
  | findByEmail email => exact sendable_fetchOptional rfl
  | findById userId => exact sendable_fetchOptional rfl
  | emailExists email => exact sendable_fetchOne rfl
  | createUser email name passwordHash => exact sendable_createUser email name passwordHash
  | upsert record =>
    refine sendable_perform ?_
    simp only [instants, List.mem_cons, List.not_mem_nil, or_false, forall_eq_or_imp, forall_eq] at h
    simp [Statement.sendable, h]
  | findByUser userId => exact sendable_fetchOptional rfl
  | delete userId => exact sendable_perform rfl
  | deleteMatching userId tokenHash => exact sendable_deleteMatching userId tokenHash
  | isRevoked key => exact sendable_fetchOne rfl
  | revoke key ttl =>
    change (revoke now key ttl).Sendable
    unfold revoke
    split_ifs with hnone hlong
    · exact .done _
    · exact .done _
    · have hlast : now + ttl ≤ lastInstant := h _ (by simp [instants, hnone, hlong])
      refine (sendable_perform ?_).bind fun _ => sendable_perform rfl
      simp [Statement.sendable, hlast]
  | findRole name => exact (sendable_fetchAll rfl).bind fun _ => .done _
  | rolesByNames names => exact sendable_rolesByNames names
  | rolesForUser userId => exact sendable_fetchAll rfl
  | grantRole userId role => exact sendable_grantRole userId role

/-- As long as all instants are ones that a clock can show, every call is answered. -/
theorem host_answer_eq (c : Call) (w : World σ)
    (h : ∀ t ∈ instants w.clock c, t ≤ lastInstant) :
    (host database entropy).answer c w = ((model database).host entropy).answer c w := by
  have hrun := run?_of_sendable database (sendable_script c h) w.store
  simp only [host, hrun]
  rfl

/-- A deadline beyond the last instant is not stored, and there is no answer. -/
theorem host_answer_revoke (key : String) {ttl : Nat} (w : World σ) (hsome : ttl ≠ 0)
    (hshort : ttl ≤ Nanos.ofMillis int64Max) (hbeyond : lastInstant < w.clock + ttl) :
    (host database entropy).answer (.revoke key ttl) w = (none, w) := by
  have hscript : script w.clock (.revoke key ttl) = revoke w.clock key ttl := rfl
  have hrun : host.run? database (revoke w.clock key ttl) w.store = (none, w.store) := by
    unfold revoke
    rw [if_neg hsome, if_neg (Int.not_lt.mpr hshort), bind_eq, perform_eq, Script.bind, host.run?,
      if_neg (by simpa [Statement.sendable] using hbeyond)]
  simp only [host, hscript, hrun]

/-- How the deadline of an entry on the deny-list comes about, for a token of some expiry: the time left
is taken at one instant, and the entry is stored at a later one. -/
structure Deadline (expiry : Int) (taken stored : Nanos) : Prop where
  /-- The time left is what it should be: nothing wraps, and nothing is negative. -/
  lifetime : (remainingLifetime expiry taken : Int) =
    if 1000 * expiry ≤ taken.millis then 0
    else Nanos.ofMillis (min (1000 * expiry) int64Max - taken.millis)
  /-- In memory the deadline is counted in whole seconds of 64 bits. -/
  inMemory : (stored + remainingLifetime expiry taken).seconds ≤ int64Max
  /-- The database never refuses the time left as too long. -/
  short : remainingLifetime expiry taken ≤ Nanos.ofMillis int64Max
  /-- It is handed the expiry of the token, later by the time since the millisecond of the first
  instant began, and nothing for an expired token. -/
  handed : ∀ key, instants stored (.revoke key (remainingLifetime expiry taken)) =
    if Nanos.ofSeconds expiry ≤ taken then []
    else [Nanos.ofMillis (min (1000 * expiry) int64Max) + (stored - Nanos.ofMillis taken.millis)]
  /-- It is denied as usual in a database if that is an instant that a clock can show, or there is none;
  otherwise the call has no answer, and nothing is sent. -/
  inDatabase : ∀ {σ : Type} (database : Statement → σ → Except DbError Reply × σ)
    (entropy : Nat → Draw) (key : String) (w : World σ), w.clock = stored →
    (host database entropy).answer (.revoke key (remainingLifetime expiry taken)) w =
      if Nanos.ofSeconds expiry ≤ taken ∨
          Nanos.ofSeconds expiry + (stored - Nanos.ofMillis taken.millis) ≤ lastInstant then
        ((model database).host entropy).answer (.revoke key (remainingLifetime expiry taken)) w
      else (none, w)

def endOfYear9999 : Nanos := 253402300799999999999

private theorem Deadline.of_expired {expiry : Int} {taken stored : Nanos} (hzero : 0 ≤ taken)
    (hend : stored ≤ endOfYear9999) (hexpired : Nanos.ofSeconds expiry ≤ taken) :
    Deadline expiry taken stored := by
  have hnone := remainingLifetime_of_expired hzero hexpired
  constructor
  case lifetime => rw [hnone, if_pos (Nanos.millis_le_iff.mpr hexpired), Int.ofNat_zero]
  case inMemory =>
    rw [hnone]
    unfold endOfYear9999 at hend
    unfold Nanos.seconds int64Max Nanos at *
    omega
  case short => exact remainingLifetime_le expiry taken
  case handed =>
    intro key
    rw [hnone, if_pos hexpired]
    rfl
  case inDatabase =>
    intro σ database entropy key w _
    rw [hnone, if_pos (.inl hexpired)]
    exact host_answer_eq _ w (by simp [instants])

private theorem Deadline.of_fresh {expiry : Int} {taken stored : Nanos} (hzero : 0 ≤ taken)
    (hle : taken ≤ stored) (hend : stored ≤ endOfYear9999)
    (hfresh : ¬ Nanos.ofSeconds expiry ≤ taken) : Deadline expiry taken stored := by
  have hmax : taken.millis ≤ int64Max := by
    unfold endOfYear9999 at hend
    unfold Nanos.millis int64Max Nanos at *
    omega
  have hleft := remainingLifetime_of_fresh hzero hmax (Int.not_le.mp hfresh)
  have hsome : remainingLifetime expiry taken ≠ 0 := by
    intro hnone
    rw [hnone] at hleft
    unfold endOfYear9999 at hend
    unfold Nanos.ofSeconds Nanos.ofMillis Nanos.millis int64Max Nanos at *
    omega
  have hshort := remainingLifetime_le expiry taken
  have hdeadline : stored + (remainingLifetime expiry taken : Int) =
      Nanos.ofMillis (min (1000 * expiry) int64Max) + (stored - Nanos.ofMillis taken.millis) := by
    rw [hleft]
    unfold Nanos.ofMillis Nanos at *
    omega
  have hhanded (key : String) : instants stored (.revoke key (remainingLifetime expiry taken)) =
      [Nanos.ofMillis (min (1000 * expiry) int64Max) + (stored - Nanos.ofMillis taken.millis)] := by
    rw [← hdeadline]
    exact if_neg (not_or.mpr ⟨hsome, Int.not_lt.mpr hshort⟩)
  -- What 64 bits of milliseconds can hold goes far beyond the last instant.
  have hshown : Nanos.ofMillis (min (1000 * expiry) int64Max) +
        (stored - Nanos.ofMillis taken.millis) ≤ lastInstant ↔
      Nanos.ofSeconds expiry + (stored - Nanos.ofMillis taken.millis) ≤ lastInstant := by
    unfold endOfYear9999 at hend
    unfold Nanos.ofSeconds Nanos.ofMillis Nanos.millis int64Max lastInstant Nanos at *
    omega
  constructor
  case lifetime => rw [hleft, if_neg (mt Nanos.millis_le_iff.mp hfresh)]
  case inMemory =>
    unfold endOfYear9999 at hend
    unfold Nanos.ofMillis int64Max Nanos at hshort
    unfold Nanos.seconds int64Max Nanos at *
    omega
  case short => exact hshort
  case handed => exact fun key => (hhanded key).trans (if_neg hfresh).symm
  case inDatabase =>
    intro σ database entropy key w hw
    by_cases hgood : Nanos.ofSeconds expiry + (stored - Nanos.ofMillis taken.millis) ≤ lastInstant
    · rw [if_pos (.inr hgood)]
      refine host_answer_eq _ w fun t ht => ?_
      rw [hw, hhanded] at ht
      rw [List.mem_singleton.mp ht]
      exact hshown.mpr hgood
    · rw [if_neg (not_or.mpr ⟨hfresh, hgood⟩)]
      refine host_answer_revoke key w hsome hshort ?_
      rw [hw, hdeadline]
      exact Int.not_le.mp (mt hshown.mp hgood)

/-- From 1970 to the year 9999, and for a token of any expiry, nothing wraps on the way to a deadline;
it is stored in a database exactly if a clock can show it. -/
theorem deadline_of_expiry (expiry : Int) {taken stored : Nanos} (hzero : 0 ≤ taken)
    (hle : taken ≤ stored) (hend : stored ≤ endOfYear9999) : Deadline expiry taken stored := by
  by_cases hexpired : Nanos.ofSeconds expiry ≤ taken
  · exact .of_expired hzero hend hexpired
  · exact .of_fresh hzero hle hend hexpired

/-- A token that expires in a quarter of an hour is denied five milliseconds after the look at the
clock. -/
theorem deadline_of_expiry_quarter_hour :
    (0 : Int) ≤ 1700000000000600000 ∧ (1700000000000600000 : Int) ≤ 1700000000005600000 ∧
      (1700000000005600000 : Int) ≤ endOfYear9999 ∧
      Deadline 1700000900 1700000000000600000 1700000000005600000 :=
  ⟨by decide, by decide, by decide, deadline_of_expiry 1700000900 (by decide) (by decide) (by decide)⟩

section

open Program

variable {c : Codec} {access refresh : String} {claims : AccessClaims}

/-- A logout that gets no answer from the deny-list ends there, with the refresh record used up. -/
theorem run_revokePair_unanswered {h : Host σ} {s s₁ s₂ s₃ : σ} {refreshClaims : RefreshClaims}
    {record : RefreshRecord}
    (hrefresh : c.decodeRefresh (h.clock s) refresh = .ok refreshClaims)
    (hfound : h.answer (.findByUser refreshClaims.subject) s = (some (.ok (some record)), s₁))
    (hhash : record.tokenHash = hashToken refresh) (hlive : h.clock s₁ < record.expiresAt)
    (haccess : c.decodeAccessAnyAge access = .ok claims)
    (hsubject : claims.subject = refreshClaims.subject)
    (hspent : h.answer (.deleteMatching record.userId record.tokenHash) s₁ = (some (.ok true), s₂))
    (hnone : h.answer (.revoke (blacklistKey access)
      (remainingLifetime claims.expiry (h.clock s₂))) s₂ = (none, s₃)) :
    (c.revokePair access refresh).run h s = (none, s₃) := by
  have hcheck : (c.checkRefresh refresh).run h s = (some (.ok (refreshClaims, record)), s₁) := by
    unfold Codec.checkRefresh
    simp only [Program.bind_eq, now_bind, Program.run, hrefresh]
    rw [run_ask_answer hfound]
    simp only [hhash, Int.not_le.mpr hlive, ne_eq, not_true, if_false, Program.run]
    rfl
  have hconsume : (consume record).run h s₁ = (some (.ok ()), s₂) := by
    unfold consume
    rw [Program.bind_eq, run_ask_answer hspent]
    rfl
  have hdeny : (denyFor access claims).run h s₂ = (none, s₃) := by
    unfold denyFor
    simp only [Program.bind_eq, now_bind, ask, Program.run, hnone]
  unfold Codec.revokePair
  rw [Program.bind_eq, run_bind hcheck]
  simp only [haccess, hsubject, ne_eq, not_true, if_false, Program.bind_eq, ofExcept_eq, done_ok_bind]
  rw [run_bind hconsume, hdeny]

end

/-- A refresh record is found, used up, and after that the deadline of a token that hardly ever expires
is beyond the last instant, though the time left is not too long: the logout has no answer. -/
theorem logout_beyond_last_instant :
    let c : Codec := .ofConfig (.withSecret "test-secret")
    let claims : AccessClaims := ⟨"ada", "ada@example.com", .empty, int64Max, false⟩
    let ttl := remainingLifetime claims.expiry 1700000000000000000
    (ttl ≤ Nanos.ofMillis int64Max ∧ lastInstant < 1700000000000000000 + ttl) ∧
    ∃ access refresh, c.decodeAccessAnyAge access = .ok claims ∧
      let row := [.text (hashToken refresh), .time 1702592000000000000, .time 1700000000000000000]
      let database : Scripted :=
        { replies := [⟨none, .ok { rows := [row] }⟩, ⟨none, .ok { affected := 1 }⟩] }
      ∃ w, (c.revokePair access refresh).run (host Scripted.database fun n => .replicate 16 n.toUInt8)
          ⟨database, 1700000000000000000, 0⟩ = (none, w) ∧
        w.store.sent.map Statement.sql =
          ["DELETE FROM refresh_tokens WHERE user_id = $1::uuid AND token_hash = $2",
            "SELECT token_hash, expires_at, created_at FROM refresh_tokens WHERE user_id = $1::uuid"] := by
  intro c claims ttl
  have hshort : ttl ≤ Nanos.ofMillis int64Max := by decide
  have hbeyond : lastInstant < 1700000000000000000 + (ttl : Int) := by decide
  let refreshClaims : RefreshClaims := ⟨"ada", "ada@example.com", 1702592000, "1"⟩
  obtain ⟨access, haccess⟩ : ∃ access, c.encodeAccess claims = .ok access := Codec.exists_sign rfl _
  obtain ⟨refresh, hrefresh⟩ : ∃ refresh, c.encodeRefresh refreshClaims = .ok refresh :=
    Codec.exists_sign rfl _
  have hany : c.decodeAccessAnyAge access = .ok claims :=
    Codec.decodeAccessAnyAge_encodeAccess ⟨by decide, Int.le_refl _⟩ haccess
  have hgood : c.decodeRefresh 1700000000000000000 refresh = .ok refreshClaims := by
    rw [Codec.decodeRefresh_encodeRefresh ⟨by decide, by decide⟩ hrefresh]
    rfl
  refine ⟨⟨hshort, hbeyond⟩, access, refresh, hany, ?_⟩
  intro row database
  let h := host Scripted.database fun n => Vector.replicate 16 n.toUInt8
  let record : RefreshRecord := ⟨"ada", hashToken refresh, 1702592000000000000, 1700000000000000000⟩
  let w₁ := (h.answer (.findByUser "ada") ⟨database, 1700000000000000000, 0⟩).2
  let w₂ := (h.answer (.deleteMatching "ada" record.tokenHash) w₁).2
  have hfound : h.answer (.findByUser "ada") ⟨database, 1700000000000000000, 0⟩ =
      (some (.ok (some record)), w₁) := rfl
  have hspent : h.answer (.deleteMatching "ada" record.tokenHash) w₁ = (some (.ok true), w₂) := rfl
  have hnone : h.answer (.revoke (blacklistKey access) ttl) w₂ = (none, w₂) :=
    host_answer_revoke _ w₂ (show ttl ≠ 0 by decide) hshort hbeyond
  have hlive : (1700000000000000000 : Int) < 1702592000000000000 := by decide
  exact ⟨w₂, run_revokePair_unanswered hgood hfound rfl hlive hany rfl hspent hnone, rfl⟩

end Turnstile.Postgres
