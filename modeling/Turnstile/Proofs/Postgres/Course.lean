import Mathlib.Tactic.SplitIfs
import Turnstile.Proofs.Postgres.Recorded
import Turnstile.Proofs.Service.Lifetime
import Turnstile.Service.Accounts

/-! What a refresh and a logout send to a database, whatever it replies: they look, delete the record
that they have checked, and write. -/

namespace Turnstile.Postgres

open Program

def Statement.Begins (words : String) (s : Statement) : Prop :=
  words.toList <+: s.sql.toList

instance (words : String) (s : Statement) : Decidable (s.Begins words) :=
  inferInstanceAs (Decidable (words.toList <+: s.sql.toList))

/-- A statement begins in one way only. -/
theorem Statement.Begins.not_begins {words other : String} {s : Statement} (h : s.Begins words)
    (hne : ¬ words.toList <+: other.toList ∧ ¬ other.toList <+: words.toList) :
    ¬ s.Begins other :=
  fun h' => (List.prefix_or_prefix_of_prefix h h').elim hne.1 hne.2

theorem begins_mk {words sql : String} (h : words.toList <+: sql.toList) (params : List Value) :
    Statement.Begins words ⟨sql, params⟩ := h

theorem begins_append {words front : String} (h : words.toList <+: front.toList) (back : String) :
    words.toList <+: (front ++ back).toList := by
  rw [String.toList_append]
  exact h.trans (List.prefix_append _ _)

def selectRecord (userId : String) : Statement :=
  ⟨"SELECT token_hash, expires_at, created_at FROM refresh_tokens WHERE user_id = $1::uuid",
    [.text userId]⟩

theorem selectRecord_begins (userId : String) : (selectRecord userId).Begins "SELECT " :=
  begins_mk (by decide) _

def selectUser (userId : String) : Statement :=
  ⟨"SELECT email, name FROM users WHERE id = $1::uuid", [.text userId]⟩

theorem selectUser_begins (userId : String) : (selectUser userId).Begins "SELECT " :=
  begins_mk (by decide) _

def deleteRecord (userId tokenHash : String) : Statement :=
  ⟨"DELETE FROM refresh_tokens WHERE user_id = $1::uuid AND token_hash = $2",
    [.text userId, .text tokenHash]⟩

theorem deleteRecord_begins (userId tokenHash : String) :
    (deleteRecord userId tokenHash).Begins "DELETE FROM refresh_tokens " :=
  begins_mk (by decide) _

namespace Sent

def Looks (x : Sent) : Prop :=
  x.statement.Begins "SELECT "

def Succeeds (x : Sent) : Prop :=
  ∃ reply, x.reply = .ok reply

def Spends (x : Sent) : Prop :=
  x.statement.Begins "DELETE FROM refresh_tokens " ∧ ∃ reply, x.reply = .ok reply ∧ 0 < reply.affected

end Sent

/-- What was sent shows that a refresh token is in force: at some instants of a time it decodes, and
the record that was selected for its subject has its hash and is not expired. -/
structure Verified (c : Codec) (token : String) (start stop : Nanos) (sent : List Sent)
    (claims : RefreshClaims) : Prop where
  decoded : ∃ t, start ≤ t ∧ t ≤ stop ∧ c.decodeRefresh t token = .ok claims
  selected : ∃ reply row rows expiresAt t, ⟨selectRecord claims.subject, .ok reply⟩ ∈ sent ∧
    reply.rows = row :: rows ∧ row[0]? = some (.text (hashToken token)) ∧
    row[1]? = some (.time expiresAt) ∧ start ≤ t ∧ t ≤ stop ∧ t < expiresAt

variable {σ α : Type} {database : Statement → σ → Except DbError Reply × σ} {entropy : Nat → Draw}
  {c : Codec} {token access : String} {w w' : World (Recorded σ)} {sent : List Sent}

theorem sends_findByUser {userId : String} {r : Except AuthError (Option RefreshRecord)}
    (h : (findByUser userId).Sends sent r) : ∃ reply, sent = [⟨selectRecord userId, reply⟩] ∧
      ∀ record, r = .ok (some record) → record.userId = userId ∧ ∃ found row rows,
        reply = .ok found ∧ found.rows = row :: rows ∧ row[0]? = some (.text record.tokenHash) ∧
        row[1]? = some (.time record.expiresAt) := by
  unfold findByUser at h
  rw [Script.fetchOptional_eq] at h
  obtain ⟨reply, hsent, rfl⟩ := Script.sends_once h
  refine ⟨reply, hsent, fun record hrecord => ?_⟩
  obtain ⟨found, row, rows, hreply, hrows, hread⟩ := Script.of_fetched hrecord
  obtain ⟨tokenHash, hhash, hread⟩ := exists_of_bind_eq_ok hread
  obtain ⟨expiresAt, hexpiry, hread⟩ := exists_of_bind_eq_ok hread
  obtain ⟨createdAt, -, hread⟩ := exists_of_bind_eq_ok hread
  cases hread
  exact ⟨rfl, found, row, rows, hreply, hrows, text_of_column hhash, time_of_column hexpiry⟩

theorem sends_findById {userId : String} {r : Except AuthError (Option User)}
    (h : (findById userId).Sends sent r) : ∃ reply, sent = [⟨selectUser userId, reply⟩] ∧
      ∀ user, r = .ok (some user) → user.id = userId ∧
        ∃ found, reply = .ok found ∧ found.rows ≠ [] := by
  unfold findById at h
  rw [Script.fetchOptional_eq] at h
  obtain ⟨reply, hsent, rfl⟩ := Script.sends_once h
  refine ⟨reply, hsent, fun user huser => ?_⟩
  obtain ⟨found, row, rows, hreply, hrows, hread⟩ := Script.of_fetched huser
  obtain ⟨email, -, hread⟩ := exists_of_bind_eq_ok hread
  obtain ⟨name, -, hread⟩ := exists_of_bind_eq_ok hread
  cases hread
  exact ⟨rfl, found, hreply, by simp [hrows]⟩

theorem sends_rolesForUser {userId : String} {r : Except AuthError (List String)}
    (h : (rolesForUser userId).Sends sent r) :
    (∀ x ∈ sent, x.Looks) ∧ ∀ roles, r = .ok roles → ∀ x ∈ sent, x.Succeeds := by
  unfold rolesForUser at h
  rw [Script.fetchAll_eq] at h
  obtain ⟨reply, rfl, rfl⟩ := Script.sends_once h
  refine ⟨?_, fun roles hroles => ?_⟩
  · simp only [List.mem_singleton, forall_eq]
    exact begins_mk (begins_append (by decide) _) _
  · obtain ⟨found, hreply, -⟩ := exists_of_bind_eq_ok (of_mapError_eq_ok hroles)
    simpa using ⟨found, hreply⟩

/-- A record that has been found is compared, and its expiry looked at; nothing else is sent. -/
theorem talks_compare {claims : RefreshClaims} {record : RefreshRecord}
    {r : Except AuthError (RefreshClaims × RefreshRecord)}
    (h : Talks database entropy (do
      if record.tokenHash ≠ hashToken token then fail .invalidRefreshToken
      let t ← now
      if record.expiresAt ≤ t then fail .invalidRefreshToken
      return (claims, record)) w sent r w') :
    sent = [] ∧ ∀ x, r = .ok x → x = (claims, record) ∧ record.tokenHash = hashToken token ∧
      ∃ t, w.clock ≤ t ∧ t ≤ w'.clock ∧ t < record.expiresAt := by
  by_cases hsame : record.tokenHash = hashToken token
  · simp only [hsame, ne_eq, not_true, if_false] at h
    obtain ⟨t, ht, h⟩ := h.of_clock
    have hend := h.clock_le
    simp only [done_ok_bind] at h
    by_cases hlive : record.expiresAt ≤ t
    · simp only [hlive, if_true, fail_eq] at h
      obtain ⟨rfl, rfl⟩ := h.of_done
      exact ⟨rfl, fun _ he => by cases he⟩
    · simp only [hlive, if_false] at h
      obtain ⟨rfl, rfl⟩ := h.of_done
      exact ⟨rfl, fun _ he => ⟨(Except.ok.inj he).symm, hsame, t, ht, hend, Int.not_le.mp hlive⟩⟩
  · simp only [hsame, ne_eq, not_false_eq_true, if_true, fail_eq] at h
    obtain ⟨rfl, rfl⟩ := h.of_done
    exact ⟨rfl, fun _ he => by cases he⟩

theorem talks_checkRefresh {r : Except AuthError (RefreshClaims × RefreshRecord)}
    (h : Talks database entropy (c.checkRefresh token) w sent r w') :
    (∀ x ∈ sent, x.Looks) ∧ ∀ claims record, r = .ok (claims, record) →
      (∀ x ∈ sent, x.Succeeds) ∧ Verified c token w.clock w'.clock sent claims ∧
      record.userId = claims.subject ∧ record.tokenHash = hashToken token := by
  obtain ⟨t, ht, hrest⟩ := h.of_clock
  have hend := hrest.clock_le
  cases hd : c.decodeRefresh t token with
  | error e =>
    simp only [bind_eq, done_ok_bind, hd, fail_eq] at hrest
    obtain ⟨rfl, rfl⟩ := hrest.of_done
    exact ⟨by simp, fun _ _ he => by cases he⟩
  | ok claims =>
    simp only [bind_eq, done_ok_bind, hd] at hrest
    have hlooks (reply : Except DbError Reply) :
        ∀ x ∈ [(⟨selectRecord claims.subject, reply⟩ : Sent)], x.Looks := by
      simpa [Sent.Looks] using selectRecord_begins claims.subject
    rcases hrest.of_ask with ⟨found, xs, ys, w₁, hw₁, rfl, hsends, hrest⟩ | ⟨e, t', rfl, hsends⟩
    · obtain ⟨reply, rfl, hfound⟩ := sends_findByUser hsends
      cases found with
      | none =>
        obtain ⟨rfl, rfl⟩ := hrest.of_done
        exact ⟨hlooks reply, fun _ _ he => by cases he⟩
      | some record =>
        obtain ⟨rfl, hcompared⟩ := talks_compare hrest
        refine ⟨hlooks reply, fun claims' record' hr => ?_⟩
        obtain ⟨hsame, hhash, u, hu, hu', hlive⟩ := hcompared _ hr
        cases hsame
        obtain ⟨hid, answer, row, rows, rfl, hrows, hcell, hexpiry⟩ := hfound record rfl
        have hstart : w.clock ≤ u := Int.le_trans ht (Int.le_trans hw₁ hu)
        refine ⟨by simp [Sent.Succeeds], ⟨⟨t, ht, hend, hd⟩, ?_⟩, hid, hhash⟩
        exact ⟨answer, row, rows, _, u, by simp, hrows, hhash ▸ hcell, hexpiry, hstart, hu', hlive⟩
    · obtain ⟨reply, rfl, -⟩ := sends_findByUser hsends
      exact ⟨hlooks reply, fun _ _ he => by cases he⟩

/-- The failure that a result is, if it is one. -/
def failure? {α : Type} : Except AuthError α → Option AuthError
  | .ok _ => none
  | .error e => some e

/-- What is sent to issue a new pair: the record of its refresh token, unless signing fails. -/
inductive Renews : List Sent → Option AuthError → Prop
  | unsigned (e : AuthError) : Renews [] (some e)
  | stored {x : Sent} {failure : Option AuthError} :
    x.statement.Begins "INSERT INTO refresh_tokens " → (failure = none ↔ x.Succeeds) →
    Renews [x] failure

/-- What is sent to put an access token on the deny-list: nothing for one that has expired, and
otherwise an entry; if that is stored, old entries are cleared away. -/
inductive Denies (Expired : Prop) : List Sent → Option AuthError → Prop
  | expired : Expired → Denies Expired [] none
  | refused {x : Sent} (e : AuthError) :
    x.statement.Begins "INSERT INTO revoked_tokens " → ¬ x.Succeeds → Denies Expired [x] (some e)
  | denied {x y : Sent} {failure : Option AuthError} :
    x.statement.Begins "INSERT INTO revoked_tokens " → x.Succeeds →
    y.statement.Begins "DELETE FROM revoked_tokens " → (failure = none ↔ y.Succeeds) →
    Denies Expired [x, y] failure

theorem Denies.mono {Expired Expired' : Prop} {failure : Option AuthError}
    (h : Denies Expired sent failure) (hexpired : Expired → Expired') :
    Denies Expired' sent failure := by
  cases h with
  | expired h => exact .expired (hexpired h)
  | refused e hx hfailed => exact .refused e hx hfailed
  | denied hx hstored hy hcleared => exact .denied hx hstored hy hcleared

def AccessExpired (c : Codec) (access : String) (start stop : Nanos) : Prop :=
  ∃ claims t, c.decodeAccessAnyAge access = .ok claims ∧ start ≤ t ∧ t ≤ stop ∧
    Nanos.ofSeconds claims.expiry ≤ t

theorem AccessExpired.mono {start start' stop stop' : Nanos} (h : AccessExpired c access start stop)
    (hstart : start' ≤ start) (hstop : stop ≤ stop') : AccessExpired c access start' stop' := by
  obtain ⟨claims, t, hd, ht, ht', hexpired⟩ := h
  exact ⟨claims, t, hd, Int.le_trans hstart ht, Int.le_trans ht' hstop, hexpired⟩

/-- A statement without an answer fails as its reply does. -/
theorem sends_perform {statement : Statement} {r : Except AuthError Unit}
    (h : (Script.perform statement).Sends sent r) :
    ∃ reply, sent = [⟨statement, reply⟩] ∧
      (failure? r = none ↔ Sent.Succeeds ⟨statement, reply⟩) := by
  rw [Script.perform_eq] at h
  obtain ⟨reply, hsent, rfl⟩ := Script.sends_once h
  refine ⟨reply, hsent, ?_⟩
  cases reply <;> simp [Sent.Succeeds, failure?, Except.map, Except.mapError]

theorem talks_consume {record : RefreshRecord} {r : Except AuthError Unit}
    (h : Talks database entropy (consume record) w sent r w') :
    ∃ reply, sent = [⟨deleteRecord record.userId record.tokenHash, reply⟩] ∧
      ((∃ e, reply = .error e ∧ r = .error (.db e)) ∨ ∃ found, reply = .ok found ∧
        (found.affected = 0 ∧ r = .error .invalidRefreshToken ∨
          0 < found.affected ∧ r = .ok ())) := by
  have hscript (t : Nanos) : script t (.deleteMatching record.userId record.tokenHash) =
      .send (deleteRecord record.userId record.tokenHash) fun reply =>
        .done ((reply.map fun found => decide (0 < found.affected)).mapError .db) :=
    congrArg (Script.send _) (funext fun reply => by cases reply <;> rfl)
  rcases h.of_ask with ⟨b, xs, ys, w₁, -, rfl, hsends, h⟩ | ⟨e, t, rfl, hsends⟩
  · rw [hscript] at hsends
    obtain ⟨reply, rfl, hb⟩ := Script.sends_once hsends
    cases reply with
    | error e => cases hb
    | ok found =>
      obtain rfl : b = decide (0 < found.affected) := Except.ok.inj hb
      by_cases hspent : 0 < found.affected
      · simp only [hspent, decide_true, not_true, if_false] at h
        obtain ⟨rfl, rfl⟩ := h.of_done
        exact ⟨_, rfl, .inr ⟨found, rfl, .inr ⟨hspent, rfl⟩⟩⟩
      · simp only [hspent, decide_false, Bool.false_eq_true, not_false_eq_true, if_true] at h
        obtain ⟨rfl, rfl⟩ := h.of_done
        exact ⟨_, rfl, .inr ⟨found, rfl, .inl ⟨Nat.eq_zero_of_not_pos hspent, rfl⟩⟩⟩
  · rw [hscript] at hsends
    obtain ⟨reply, rfl, he⟩ := Script.sends_once hsends
    cases reply with
    | error e' =>
      cases he
      exact ⟨_, rfl, .inl ⟨e', rfl, rfl⟩⟩
    | ok found => cases he

theorem talks_createAccess {p : Principal} {r : Except AuthError String}
    (h : Talks database entropy (c.createAccess p) w sent r w') : sent = [] := by
  obtain ⟨t, -, h⟩ := h.of_clock
  exact h.of_done.1

theorem renews_createRefresh {p : Principal} {r : Except AuthError String}
    (h : Talks database entropy (c.createRefresh p) w sent r w') : Renews sent (failure? r) := by
  obtain ⟨t, -, h⟩ := h.of_clock
  obtain ⟨d, w₁, -, h⟩ := h.of_draw
  cases htoken : c.encodeRefresh (c.refreshClaims t d p) with
  | error e =>
    simp only [bind_eq, done_ok_bind, ofExcept_eq, htoken, done_error_bind] at h
    obtain ⟨rfl, rfl⟩ := h.of_done
    exact .unsigned e
  | ok token =>
    simp only [bind_eq, done_ok_bind, ofExcept_eq, htoken] at h
    obtain ⟨u, -, h⟩ := h.of_clock
    obtain ⟨xs, ys, answer, w₂, -, rfl, hsends, h⟩ := h.of_call
    obtain ⟨reply, rfl, hreply⟩ := sends_perform hsends
    obtain ⟨rfl, hr⟩ : ys = [] ∧ failure? r = failure? answer := by
      cases answer with
      | ok _ =>
        obtain ⟨rfl, rfl⟩ := h.of_done
        exact ⟨rfl, rfl⟩
      | error e =>
        obtain ⟨rfl, rfl⟩ := h.of_done
        exact ⟨rfl, rfl⟩
    rw [hr]
    exact .stored
      (begins_mk (begins_append (begins_append (begins_append (by decide) _) _) _) _) hreply

theorem renews_createTokens {p : Principal} {r : Except AuthError TokenPair}
    (h : Talks database entropy (c.createTokens p) w sent r w') : Renews sent (failure? r) := by
  rcases h.of_bind with ⟨access, w₁, xs, ys, rfl, haccess, hrest⟩ | ⟨e, rfl, haccess⟩
  · obtain rfl := talks_createAccess haccess
    rcases hrest.of_bind with ⟨refresh, w₂, us, vs, rfl, hrefresh, hpair⟩ | ⟨e, rfl, hrefresh⟩
    · obtain ⟨rfl, rfl⟩ := hpair.of_done
      simpa [failure?] using renews_createRefresh hrefresh
    · exact renews_createRefresh hrefresh
  · obtain rfl := talks_createAccess haccess
    exact .unsigned e

theorem denies_denyFor {claims : AccessClaims} {r : Except AuthError Unit}
    (hd : c.decodeAccessAnyAge access = .ok claims) (hlast : w'.clock ≤ lastInstant)
    (h : Talks database entropy (denyFor access claims) w sent r w') :
    Denies (AccessExpired c access w.clock w'.clock) sent (failure? r) := by
  obtain ⟨t, ht, h⟩ := h.of_clock
  have ht' : t ≤ w'.clock := h.clock_le
  obtain ⟨xs, ys, answer, w₁, -, rfl, hsends, h⟩ := h.of_call
  obtain ⟨rfl, rfl⟩ := h.of_done
  rw [List.append_nil]
  have hshort := remainingLifetime_le claims.expiry t
  change (revoke w₁.clock _ _).Sends xs r at hsends
  unfold revoke at hsends
  split_ifs at hsends with hnone hlong
  · cases hsends
    have hmax : t.millis < int64Max := by
      have hlast' := Int.le_trans ht' hlast
      unfold lastInstant at hlast'
      unfold Nanos.millis int64Max Nanos at *
      omega
    exact .expired ⟨claims, t, hd, ht, ht', expired_of_remainingLifetime hmax hnone⟩
  · exact absurd hlong (Int.not_lt.mpr hshort)
  · rcases Script.sends_bind hsends with ⟨a, xs, ys, rfl, hstored, hcleared⟩ | ⟨e, rfl, hstored⟩
    · obtain ⟨reply, rfl, hreply⟩ := sends_perform hstored
      obtain ⟨reply', rfl, hreply'⟩ := sends_perform hcleared
      exact .denied (begins_mk (begins_append (by decide) _) _) (hreply.mp rfl)
        (begins_mk (by decide) _) hreply'
    · obtain ⟨reply, rfl, hreply⟩ := sends_perform hstored
      exact .refused e (begins_mk (begins_append (by decide) _) _) fun hok => by cases hreply.mpr hok

/-- How an operation goes that uses up a refresh record: what it sends, and the failure it ends with.
It only looks, and fails; or it has checked what it deletes, and fails if the deletion does or if there
was nothing to delete; or it goes on to write. -/
inductive Course (Checked : List Sent → Statement → Prop)
    (Writes : List Sent → Option AuthError → Prop) : List Sent → Option AuthError → Prop
  | stopped {looks : List Sent} (e : AuthError) :
    (∀ x ∈ looks, x.Looks) → Course Checked Writes looks (some e)
  | failed {looks : List Sent} {userId tokenHash : String} (e : DbError) :
    (∀ x ∈ looks, x.Looks) → Checked looks (deleteRecord userId tokenHash) →
    Course Checked Writes (looks ++ [⟨deleteRecord userId tokenHash, .error e⟩]) (some (.db e))
  | lost {looks : List Sent} {userId tokenHash : String} {found : Reply} :
    (∀ x ∈ looks, x.Looks) → Checked looks (deleteRecord userId tokenHash) → found.affected = 0 →
    Course Checked Writes (looks ++ [⟨deleteRecord userId tokenHash, .ok found⟩])
      (some .invalidRefreshToken)
  | won {looks rest : List Sent} {userId tokenHash : String} {found : Reply}
      {failure : Option AuthError} :
    (∀ x ∈ looks, x.Looks) → Checked looks (deleteRecord userId tokenHash) → 0 < found.affected →
    Writes rest failure →
    Course Checked Writes (looks ++ ⟨deleteRecord userId tokenHash, .ok found⟩ :: rest) failure

/-- What is shown by what was sent before a record is deleted for a refresh. -/
def RefreshChecked (c : Codec) (token : String) (start stop : Nanos) (looks : List Sent)
    (statement : Statement) : Prop :=
  (∀ x ∈ looks, x.Succeeds) ∧ ∃ claims, Verified c token start stop looks claims ∧
    (∃ reply, ⟨selectUser claims.subject, .ok reply⟩ ∈ looks ∧ reply.rows ≠ []) ∧
    statement = deleteRecord claims.subject (hashToken token)

/-- What is shown by what was sent before a record is deleted for a logout. -/
def LogoutChecked (c : Codec) (access token : String) (start stop : Nanos) (looks : List Sent)
    (statement : Statement) : Prop :=
  (∀ x ∈ looks, x.Succeeds) ∧ ∃ claims accessClaims, Verified c token start stop looks claims ∧
    c.decodeAccessAnyAge access = .ok accessClaims ∧ accessClaims.subject = claims.subject ∧
    statement = deleteRecord claims.subject (hashToken token)

theorem Verified.mono {start stop stop' : Nanos} {xs ys : List Sent} {claims : RefreshClaims}
    (h : Verified c token start stop xs claims) (hsent : ∀ x ∈ xs, x ∈ ys) (hstop : stop ≤ stop') :
    Verified c token start stop' ys claims := by
  obtain ⟨⟨t, ht, ht', hdecoded⟩, reply, row, rows, expiresAt, u, hmem, hrows, hhash, hexpiry, hu,
    hu', hlive⟩ := h
  exact ⟨⟨t, ht, Int.le_trans ht' hstop, hdecoded⟩, reply, row, rows, expiresAt, u, hsent _ hmem,
    hrows, hhash, hexpiry, hu, Int.le_trans hu' hstop, hlive⟩

/-- A record is used up when it has been checked, and what follows is written if it was there. -/
theorem course_consume {Checked : List Sent → Statement → Prop}
    {Writes : List Sent → Option AuthError → Prop} {looks : List Sent} {record : RefreshRecord}
    {f : Unit → Program α} {r : Except AuthError α} (hlooks : ∀ x ∈ looks, x.Looks)
    (hchecked : Checked looks (deleteRecord record.userId record.tokenHash))
    (hwrites : ∀ w₁ ys, w.clock ≤ w₁.clock → Talks database entropy (f ()) w₁ ys r w' →
      Writes ys (failure? r))
    (h : Talks database entropy (consume record >>= f) w sent r w') :
    Course Checked Writes (looks ++ sent) (failure? r) := by
  rcases h.of_bind with ⟨_, w₁, xs, ys, rfl, hconsume, hrest⟩ | ⟨e, rfl, hconsume⟩
  · obtain ⟨reply, rfl, ⟨e, -, he⟩ | ⟨found, rfl, ⟨-, he⟩ | ⟨hspent, -⟩⟩⟩ := talks_consume hconsume
    · cases he
    · cases he
    · exact .won hlooks hchecked hspent (hwrites _ _ hconsume.clock_le hrest)
  · obtain ⟨reply, rfl, ⟨e', rfl, he⟩ | ⟨found, rfl, ⟨hnone, he⟩ | ⟨-, he⟩⟩⟩ :=
      talks_consume hconsume
    · cases he
      exact .failed e' hlooks hchecked
    · cases he
      exact .lost hlooks hchecked hnone
    · cases he

theorem Course.mono {Checked Checked' : List Sent → Statement → Prop}
    {Writes Writes' : List Sent → Option AuthError → Prop} {failure : Option AuthError}
    (h : Course Checked Writes sent failure)
    (hchecked : ∀ looks statement, Checked looks statement → Checked' looks statement)
    (hwrites : ∀ rest failure, Writes rest failure → Writes' rest failure) :
    Course Checked' Writes' sent failure := by
  cases h with
  | stopped e hlooks => exact .stopped e hlooks
  | failed e hlooks h => exact .failed e hlooks (hchecked _ _ h)
  | lost hlooks h hnone => exact .lost hlooks (hchecked _ _ h) hnone
  | won hlooks h hspent hrest => exact .won hlooks (hchecked _ _ h) hspent (hwrites _ _ hrest)

theorem course_revokePair {r : Except AuthError Unit} (hlast : w'.clock ≤ lastInstant)
    (h : Talks database entropy (c.revokePair access token) w sent r w') :
    Course (LogoutChecked c access token w.clock w'.clock)
      (Denies (AccessExpired c access w.clock w'.clock)) sent (failure? r) := by
  rcases h.of_bind with ⟨⟨claims, record⟩, w₁, xs, ys, rfl, hcheck, hrest⟩ | ⟨e, rfl, hcheck⟩
  · obtain ⟨hlooks, hok⟩ := talks_checkRefresh hcheck
    obtain ⟨hsucceed, hverified, hid, hhash⟩ := hok claims record rfl
    have hclock := hrest.clock_le
    cases hd : c.decodeAccessAnyAge access with
    | error e =>
      simp only [bind_eq, ofExcept_eq, hd, done_error_bind] at hrest
      obtain ⟨rfl, rfl⟩ := hrest.of_done
      exact .stopped e (by simpa using hlooks)
    | ok accessClaims =>
      simp only [bind_eq, ofExcept_eq, hd, done_ok_bind] at hrest
      by_cases hsame : accessClaims.subject = claims.subject
      · simp only [hsame, ne_eq, not_true, if_false] at hrest
        refine course_consume hlooks ⟨hsucceed, claims, accessClaims, ?_, hd, hsame, ?_⟩
          (fun w₂ ys hstart hdeny => ?_) hrest
        · exact hverified.mono (fun _ h => h) hclock
        · rw [hid, hhash]
        · exact (denies_denyFor hd hlast hdeny).mono fun hexpired =>
            hexpired.mono (Int.le_trans hcheck.clock_le hstart) (Int.le_refl _)
      · simp only [hsame, ne_eq, not_false_eq_true, if_true, fail_eq, done_error_bind] at hrest
        obtain ⟨rfl, rfl⟩ := hrest.of_done
        exact .stopped _ (by simpa using hlooks)
  · exact .stopped e (talks_checkRefresh hcheck).1

theorem course_logout {r : Except AuthError MessageResponse} (hlast : w'.clock ≤ lastInstant)
    (h : Talks database entropy (c.logout access token) w sent r w') :
    Course (LogoutChecked c access token w.clock w'.clock)
      (Denies (AccessExpired c access w.clock w'.clock)) sent (failure? r) := by
  rcases h.of_bind with ⟨_, w₁, xs, ys, rfl, hpair, hdone⟩ | ⟨e, rfl, hpair⟩
  · have hclock := hdone.clock_le
    obtain ⟨rfl, rfl⟩ := hdone.of_done
    rw [List.append_nil]
    refine (course_revokePair (Int.le_trans hclock hlast) hpair).mono (fun looks statement => ?_)
      fun _ _ hdenies => hdenies.mono fun hexpired => hexpired.mono (Int.le_refl _) hclock
    rintro ⟨hsucceed, claims, accessClaims, hverified, hchecked⟩
    exact ⟨hsucceed, claims, accessClaims, hverified.mono (fun _ h => h) hclock, hchecked⟩
  · exact course_revokePair hlast hpair

theorem course_rotate {Checked : List Sent → Statement → Prop} {looks : List Sent} {p : Principal}
    {record : RefreshRecord} {r : Except AuthError TokenPair} (hlooks : ∀ x ∈ looks, x.Looks)
    (hchecked : Checked looks (deleteRecord record.userId record.tokenHash))
    (h : Talks database entropy (c.rotate p record) w sent r w') :
    Course Checked Renews (looks ++ sent) (failure? r) := by
  unfold Codec.rotate at h
  by_cases hsame : p.subject = record.userId
  · simp only [hsame, ne_eq, not_true, if_false] at h
    exact course_consume hlooks hchecked (fun _ _ _ => renews_createTokens) h
  · simp only [hsame, ne_eq, not_false_eq_true, if_true, bind_eq, fail_eq, done_error_bind] at h
    obtain ⟨rfl, rfl⟩ := h.of_done
    exact .stopped _ (by simpa using hlooks)

theorem talks_loadPrincipal {userId email : String} {r : Except AuthError Principal}
    (h : Talks database entropy (loadPrincipal userId email) w sent r w') :
    (∀ x ∈ sent, x.Looks) ∧ ∀ p, r = .ok p → ∀ x ∈ sent, x.Succeeds := by
  rcases h.of_ask with ⟨roles, xs, ys, w₁, -, rfl, hsends, hrest⟩ | ⟨e, t, rfl, hsends⟩
  · obtain ⟨hlooks, hok⟩ := sends_rolesForUser hsends
    obtain ⟨rfl, -⟩ := hrest.of_done
    rw [List.append_nil]
    exact ⟨hlooks, fun _ _ => hok roles rfl⟩
  · exact ⟨(sends_rolesForUser hsends).1, fun _ he => by cases he⟩

theorem course_refresh {r : Except AuthError TokenResponse}
    (h : Talks database entropy (c.refresh token) w sent r w') :
    Course (RefreshChecked c token w.clock w'.clock) Renews sent (failure? r) := by
  rcases h.of_bind with ⟨⟨claims, record⟩, w₁, xs, ys, rfl, hcheck, hrest⟩ | ⟨e, rfl, hcheck⟩
  · obtain ⟨hlooks, hok⟩ := talks_checkRefresh hcheck
    obtain ⟨hsucceed, hverified, hid, hhash⟩ := hok claims record rfl
    have hclock := hrest.clock_le
    have hlooked (reply : Except DbError Reply) :
        ∀ x ∈ xs ++ [⟨selectUser claims.subject, reply⟩], x.Looks :=
      List.forall_mem_append.mpr ⟨hlooks, by
        simpa [Sent.Looks] using selectUser_begins claims.subject⟩
    rcases hrest.of_ask with ⟨found, us, vs, w₂, -, rfl, hsends, hload⟩ | ⟨e, t, rfl, hsends⟩
    · obtain ⟨reply, rfl, hfound⟩ := sends_findById hsends
      rw [← List.append_assoc]
      cases found with
      | none =>
        obtain ⟨rfl, rfl⟩ := hload.of_done
        exact .stopped _ (by simpa using hlooked reply)
      | some user =>
        obtain ⟨-, answer, rfl, hrows⟩ := hfound user rfl
        rcases hload.of_bind with ⟨p, w₃, us, ys, rfl, hroles, hrotate⟩ | ⟨e, rfl, hroles⟩
        · obtain ⟨hlooks', hok'⟩ := talks_loadPrincipal hroles
          have hall : ∀ x ∈ xs ++ [⟨selectUser claims.subject, .ok answer⟩] ++ us, x.Looks :=
            List.forall_mem_append.mpr ⟨hlooked _, hlooks'⟩
          have hchecked : RefreshChecked c token w.clock w'.clock
              (xs ++ [⟨selectUser claims.subject, .ok answer⟩] ++ us)
              (deleteRecord record.userId record.tokenHash) := by
            refine ⟨?_, claims, hverified.mono (by simp +contextual) hclock,
              ⟨answer, by simp, hrows⟩, by rw [hid, hhash]⟩
            refine List.forall_mem_append.mpr ⟨List.forall_mem_append.mpr ⟨hsucceed, ?_⟩, hok' p rfl⟩
            simp [Sent.Succeeds]
          rw [← List.append_assoc]
          rcases hrotate.of_bind with ⟨pair, w₄, zs, vs, rfl, hpair, hdone⟩ | ⟨e, rfl, hpair⟩
          · obtain ⟨rfl, rfl⟩ := hdone.of_done
            rw [List.append_nil]
            exact course_rotate hall hchecked hpair
          · exact course_rotate hall hchecked hpair
        · exact .stopped e (List.forall_mem_append.mpr ⟨hlooked _, (talks_loadPrincipal hroles).1⟩)
    · obtain ⟨reply, rfl, -⟩ := sends_findById hsends
      exact .stopped e (hlooked reply)
  · exact .stopped e (talks_checkRefresh hcheck).1

end Turnstile.Postgres
