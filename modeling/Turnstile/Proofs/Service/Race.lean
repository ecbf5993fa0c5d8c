import Turnstile.Proofs.Pool
import Turnstile.Proofs.Service.Tokens
import Turnstile.Proofs.Store.Memory
import Turnstile.Proofs.Table

/-! Token operations running at once, interrupted at their calls in every possible order and cut off
anywhere. Whoever deletes the record of a refresh token first is the only one to get past that
point. -/

namespace Turnstile.Race

open Program

/-- An operation on refresh tokens. A rotation begins with a check, whose claims may decide whom the
new tokens are for. -/
inductive Request where
  | issue (p : Principal)
  | rotate (principal : RefreshClaims → Principal) (refresh : String)
  | logout (access refresh : String)

namespace Request

def program (c : Codec) : Request → Program Unit
  | issue p => do let _ ← c.createTokens p
  | rotate principal refresh => do
    let (claims, record) ← c.checkRefresh refresh
    let _ ← c.rotate (principal claims) record
  | logout access refresh => c.revokePair access refresh

def presented? : Request → Option String
  | issue _ => none
  | rotate _ refresh | logout _ refresh => some refresh

def Refusal : Request → AuthError → Prop
  | rotate _ _, e => e = .invalidRefreshToken
  | _, e => e = .invalidRefreshToken ∨ e = .invalidToken

end Request

def usedUp? : Exchange → Option String
  | ⟨.deleteMatching _ hash, .ok true⟩ => some hash
  | _ => none

def stored? : Exchange → Option String
  | ⟨.upsert record, .ok _⟩ => some record.tokenHash
  | _ => none

variable {ι : Type}

/-- The hashes whose records were deleted, one for each deletion. -/
def usedUp (P : Pool ι MemoryStore Unit) : List String :=
  P.calls.filterMap fun x => usedUp? x.2

/-- The hashes that were stored, one for each time. -/
def stored (P : Pool ι MemoryStore Unit) : List String :=
  P.calls.filterMap fun x => stored? x.2

def Won (P : Pool ι MemoryStore Unit) (i : ι) (token : String) : Prop :=
  ∃ x ∈ P.calls, x.1 = i ∧ usedUp? x.2 = some (hashToken token)

/-- The pools that come about when some operations start on a store without refresh records. The rest
of the store may change in any way, and a call may fail on its way to the store. -/
abbrev Reaches [DecidableEq ι] (c : Codec) (ids : Nat → String) (entropy : Nat → Draw)
    (mayFail : Call → AuthError → Prop) (requests : ι → Request) : Pool ι MemoryStore Unit → Prop :=
  Pool.Reaches (MemoryStore.faulty ids entropy mayFail)
    (fun s s' => s'.refreshTokens = s.refreshTokens) (fun w => w.store.refreshTokens = {})
    fun i => (requests i).program c

def hashes (s : MemoryStore) : List String :=
  s.refreshTokens.entries.map fun e => e.2.tokenHash

private theorem count_hashes_of_neutral (ids : Nat → String) (t : Nanos) (c : Call)
    (s : MemoryStore) (hash : String) (hu : c.method ≠ .upsert) (hd : c.method ≠ .delete)
    (hm : c.method ≠ .deleteMatching) :
    (usedUp? ⟨c, (MemoryStore.model ids t c s).1⟩).toList.count hash +
        (hashes (MemoryStore.model ids t c s).2).count hash ≤
      (hashes s).count hash + (stored? ⟨c, (MemoryStore.model ids t c s).1⟩).toList.count hash := by
  have hused (a : Except AuthError c.Answer) : usedUp? ⟨c, a⟩ = none := by
    cases c with
    | deleteMatching id hash => exact absurd rfl hm
    | _ => rfl
  unfold hashes
  rw [hused, (MemoryStore.frame_model ids t c s).refreshTokens hu hd hm]
  simp

/-- A record that is deleted was there, and a record that is there was stored. -/
private theorem count_hashes_model (ids : Nat → String) (t : Nanos) (c : Call) (s : MemoryStore)
    (hash : String) :
    (usedUp? ⟨c, (MemoryStore.model ids t c s).1⟩).toList.count hash +
        (hashes (MemoryStore.model ids t c s).2).count hash ≤
      (hashes s).count hash + (stored? ⟨c, (MemoryStore.model ids t c s).1⟩).toList.count hash := by
  cases c with
  | upsert record =>
    have h := Table.count_insert_le s.refreshTokens record.userId record
      (fun r => r.tokenHash) hash
    simpa [MemoryStore.model, hashes, usedUp?, stored?] using h
  | delete id =>
    have h := Table.count_erase_le s.refreshTokens id (fun r => r.tokenHash) hash
    simpa [MemoryStore.model, hashes, usedUp?, stored?] using h
  | deleteMatching id other =>
    simp only [MemoryStore.model, MemoryStore.deleteMatching]
    cases hget : s.refreshTokens.get? id with
    | none => simp [usedUp?, stored?]
    | some record =>
      by_cases hr : record.tokenHash = other
      · simp only [hr, if_true, usedUp?, stored?, hashes]
        by_cases ho : other = hash
        · have h := Table.count_erase_lt s.refreshTokens id record (fun r => r.tokenHash) hash hget
            (hr.trans ho)
          simp [ho]
          omega
        · have h := Table.count_erase_le s.refreshTokens id (fun r => r.tokenHash) hash
          simpa [ho, List.count_cons] using h
      · simp [hr, usedUp?, stored?]
  | _ => exact count_hashes_of_neutral _ _ _ _ _ (by rintro ⟨⟩) (by rintro ⟨⟩) (by rintro ⟨⟩)

private theorem filterMap_cons_eq {α β : Type} (f : α → Option β) (a : α) (l : List α) :
    (a :: l).filterMap f = (f a).toList ++ l.filterMap f := by
  cases h : f a <;> simp [h]

variable [DecidableEq ι] {c : Codec} {ids : Nat → String} {entropy : Nat → Draw}
  {mayFail : Call → AuthError → Prop} {requests : ι → Request} {P : Pool ι MemoryStore Unit}

/-- Every record deleted or still there was stored once for itself. -/
theorem Reaches.count_le (hP : Reaches c ids entropy mayFail requests P) (hash : String) :
    (usedUp P).count hash + (hashes P.world.store).count hash ≤ (stored P).count hash := by
  induction hP with
  | start w hempty => simp [usedUp, stored, hashes, Pool.opened, Pool.calls, hempty]
  | wait _ _ ih => exact ih
  | other _ hsame ih =>
    unfold hashes at ih ⊢
    rw [hsame]
    exact ih
  | @step P x p w i _ hs ih =>
    unfold usedUp stored at ih ⊢
    rw [Pool.calls_advance, Pool.world_advance]
    generalize P.left i = q at hs
    cases hs with
    | clock next => exact ih
    | draw next => exact ih
    | call d next =>
      have h := count_hashes_model ids P.world.clock d P.world.store hash
      simp only [Option.toList_some, List.map_cons, List.map_nil, List.singleton_append,
        filterMap_cons_eq, List.count_append]
      omega
    | lost d next _ hl =>
      have hused {e : AuthError} : usedUp? ⟨d, .error e⟩ = none := by cases d <;> rfl
      have hstored {e : AuthError} : stored? ⟨d, .error e⟩ = none := by cases d <;> rfl
      simpa only [Option.toList_some, List.map_cons, List.map_nil, List.singleton_append,
        filterMap_cons_eq, hused, hstored, Option.toList_none, List.nil_append] using ih

/-- A call that looks for a record, or deletes one with a certain hash. -/
def Spares (hash : String) : Call → Prop
  | .findByUser _ => True
  | .deleteMatching _ h => h = hash
  | _ => False

/-- A program that only looks, as long as it has not used up the record with a certain hash. Then it
returns something in `Q`, fails in one of the ways `A`, or fails with a call of its own. -/
def OnlyReads {α : Type} (hash : String) (A : AuthError → Prop) (Q : α → Prop) : Program α → Prop
  | .done (.ok a) => Q a
  | .done (.error e) => A e
  | .clock next => ∀ t, OnlyReads hash A Q (next t)
  | .draw next => ∀ d, OnlyReads hash A Q (next d)
  | .call d next => Spares hash d ∧
    (∀ a, usedUp? ⟨d, .ok a⟩ ≠ some hash → OnlyReads hash A Q (next (.ok a))) ∧
    ∀ e, next (.error e) = .done (.error e)

theorem OnlyReads.bind {α β : Type} {hash : String} {A : AuthError → Prop} {Q : α → Prop}
    {Q' : β → Prop} {p : Program α} {f : α → Program β} (hp : OnlyReads hash A Q p)
    (hf : ∀ a, Q a → OnlyReads hash A Q' (f a)) : OnlyReads hash A Q' (p.bind f) := by
  induction p with
  | done r =>
    cases r with
    | ok a => exact hf a hp
    | error e => exact hp
  | clock next ih => exact fun t => ih t (hp t)
  | draw next ih => exact fun d => ih d (hp d)
  | call d next ih =>
    obtain ⟨hspares, hok, herr⟩ := hp
    exact ⟨hspares, fun a ha => ih (.ok a) (hok a ha),
      fun e => congrArg (fun q => q.bind f) (herr e)⟩

/-- A check finds a record with the hash of the token checked. -/
private theorem checkRefresh_onlyReads (c : Codec) (refresh hash : String) {A : AuthError → Prop}
    (hA : A .invalidRefreshToken) :
    OnlyReads hash A (fun x : RefreshClaims × RefreshRecord => x.2.tokenHash = hashToken refresh)
      (c.checkRefresh refresh) := by
  intro t
  simp only [bind_eq, done_ok_bind]
  cases c.decodeRefresh t refresh with
  | error e => exact hA
  | ok claims =>
    refine ⟨trivial, fun found _ => ?_, fun e => rfl⟩
    cases found with
    | none => exact hA
    | some record =>
      by_cases hhash : record.tokenHash = hashToken refresh
      · simp only [done_ok_bind, hhash, ne_eq, not_true, if_false]
        intro t
        simp only [done_ok_bind]
        by_cases hlive : record.expiresAt ≤ t
        · simp only [hlive, if_true]
          exact hA
        · simp only [hlive, if_false]
          exact hhash
      · simp only [done_ok_bind, hhash, ne_eq, not_false_eq_true, if_true]
        exact hA

/-- Whoever finds the record gone fails. -/
private theorem consume_onlyReads (record : RefreshRecord) {A : AuthError → Prop}
    (hA : A .invalidRefreshToken) :
    OnlyReads record.tokenHash A (fun _ => False) (consume record) := by
  refine ⟨rfl, fun b hb => ?_, fun e => rfl⟩
  cases b with
  | false => exact hA
  | true => exact absurd rfl hb

/-- Until it has used up its token, an operation that presents one only looks, and it cannot
succeed. -/
private theorem program_onlyReads (c : Codec) {request : Request} {token : String}
    (h : request.presented? = some token) :
    OnlyReads (hashToken token) request.Refusal (fun _ => False) (request.program c) := by
  cases request with
  | issue p => cases h
  | rotate principal refresh =>
    obtain rfl := Option.some.inj h
    refine (checkRefresh_onlyReads c refresh _ (A := (Request.rotate principal refresh).Refusal)
      rfl).bind fun ⟨claims, record⟩ hhash => ?_
    refine OnlyReads.bind (Q := fun _ => False) ?_ (fun _ hf => hf.elim)
    unfold Codec.rotate
    by_cases hp : (principal claims).subject = record.userId
    · simp only [hp, ne_eq, not_true, if_false]
      have hc := consume_onlyReads record
        (A := (Request.rotate principal refresh).Refusal) rfl
      rw [show record.tokenHash = hashToken refresh from hhash] at hc
      exact hc.bind fun _ hf => hf.elim
    · simp only [hp, ne_eq, not_false_eq_true, if_true]
      exact rfl
  | logout access refresh =>
    obtain rfl := Option.some.inj h
    refine (checkRefresh_onlyReads c refresh _ (A := (Request.logout access refresh).Refusal)
      (.inl rfl)).bind fun ⟨claims, record⟩ hhash => ?_
    simp only [bind_eq, ofExcept_eq]
    cases hd : c.decodeAccessAnyAge access with
    | error e => exact .inr (Codec.decodeAccessAnyAge_error hd)
    | ok accessClaims =>
      simp only [done_ok_bind]
      by_cases hsub : accessClaims.subject = claims.subject
      · simp only [hsub, ne_eq, not_true, if_false]
        have hc := consume_onlyReads record
          (A := (Request.logout access refresh).Refusal) (.inl rfl)
        rw [show record.tokenHash = hashToken refresh from hhash] at hc
        exact hc.bind fun _ hf => hf.elim
      · simp only [hsub, ne_eq, not_false_eq_true, if_true]
        exact .inr rfl

/-- A step of a program that only looks uses up the record, or leaves the store alone. -/
private theorem OnlyReads.step {α : Type} {hash : String} {A : AuthError → Prop} {Q : α → Prop}
    {p p' : Program α} {w w' : World MemoryStore} {x : Option Exchange}
    (hp : OnlyReads hash A Q p) (hs : Step (MemoryStore.faulty ids entropy mayFail) p w x p' w') :
    (∃ y, x = some y ∧ usedUp? y = some hash) ∨ (w'.store = w.store ∧
      (OnlyReads hash A Q p' ∨
        ∃ y e, x = some y ∧ y.answer = .error e ∧ p' = .done (.error e))) := by
  cases hs with
  | clock next => exact .inr ⟨rfl, .inl (hp _)⟩
  | draw next => exact .inr ⟨rfl, .inl (hp _)⟩
  | lost d next _ hl => exact .inr ⟨rfl, .inr ⟨_, _, rfl, rfl, hp.2.2 _⟩⟩
  | call d next =>
    obtain ⟨hspares, hok, -⟩ := hp
    cases d with
    | findByUser userId =>
      exact .inr ⟨rfl, .inl (hok _ (by simp [usedUp?]))⟩
    | deleteMatching userId h =>
      obtain rfl : h = hash := hspares
      cases hb : (w.store.deleteMatching userId h).1 with
      | true => exact .inl ⟨_, rfl, by simp [MemoryStore.model, usedUp?, hb]⟩
      | false =>
        have hstore : (w.store.deleteMatching userId h).2 = w.store := by
          unfold MemoryStore.deleteMatching at hb ⊢
          split at hb
          · rfl
          · split at hb
            · cases hb
            · rename_i hne
              rw [if_neg hne]
        refine .inr ⟨hstore, .inl ?_⟩
        simp only [MemoryStore.model, hb]
        exact hok false (by simp [usedUp?])
    | _ => exact hspares.elim

/-- What holds of an operation that presents a token it has not used up. -/
private theorem Reaches.late (hP : Reaches c ids entropy mayFail requests P) {i : ι} {token : String}
    (hi : (requests i).presented? = some token) (hlost : ¬ Won P i token) :
    (∀ x ∈ P.log, x.thread = i → x.after = x.before) ∧
      (OnlyReads (hashToken token) (requests i).Refusal (fun _ => False) (P.left i) ∨
        ∃ e, P.left i = .done (.error e) ∧
          ∃ x ∈ P.log, x.thread = i ∧ x.exchange.answer = .error e) := by
  induction hP with
  | start w _ => exact ⟨fun x hx => (nomatch hx), .inl (program_onlyReads c hi)⟩
  | wait _ _ ih => exact ih hlost
  | other _ _ ih => exact ih hlost
  | @step P x p w j _ hs ih =>
    unfold Won at hlost
    rw [Pool.calls_advance] at hlost
    obtain ⟨hlog, hleft⟩ := ih fun ⟨y, hy, hrest⟩ => hlost ⟨y, by simp [hy], hrest⟩
    by_cases hj : j = i
    · subst hj
      rw [Pool.left_advance]
      rcases hleft with hreads | ⟨e, hdone, -⟩
      · rcases hreads.step hs with ⟨y, rfl, hused⟩ | ⟨hstore, hnext⟩
        · exact absurd ⟨(j, y), by simp, rfl, hused⟩ hlost
        · refine ⟨fun y hy hthread => ?_, ?_⟩
          · obtain ⟨z, -, rfl⟩ | hy := Pool.mem_log_advance.mp hy
            · exact hstore
            · exact hlog y hy hthread
          · rcases hnext with hreads' | ⟨y, e, rfl, herr, hdone⟩
            · exact .inl hreads'
            · exact .inr ⟨e, hdone, _, Pool.mem_log_advance.mpr (.inl ⟨y, rfl, rfl⟩), rfl, herr⟩
      · rw [hdone] at hs
        cases hs
    · rw [Pool.left_advance_of_ne (Ne.symm hj)]
      refine ⟨fun y hy hthread => ?_, ?_⟩
      · exact hlog y (Pool.mem_log_of_advance hy fun h => hj (h.symm.trans hthread)) hthread
      · rcases hleft with hreads | ⟨e, hdone, y, hy, hrest⟩
        · exact .inl hreads
        · exact .inr ⟨e, hdone, y, Pool.mem_log_advance.mpr (.inr hy), hrest⟩

private theorem eq_of_nodup_filterMap {α β : Type} {f : α → Option β} {l : List α}
    (h : (l.filterMap f).Nodup) {a b : α} {v : β} (ha : a ∈ l) (hb : b ∈ l)
    (hfa : f a = some v) (hfb : f b = some v) : a = b := by
  induction l with
  | nil => simp at ha
  | cons e l ih =>
    rw [filterMap_cons_eq] at h
    obtain ⟨-, hrest, hdisjoint⟩ := List.nodup_append.mp h
    have hnot : ∀ x ∈ l, f x = some v → f e ≠ some v := fun x hx hfx hfe =>
      hdisjoint v (by simp [hfe]) v (List.mem_filterMap.mpr ⟨x, hx, hfx⟩) rfl
    rcases List.mem_cons.mp ha with rfl | ha'
    · rcases List.mem_cons.mp hb with rfl | hb'
      · rfl
      · exact absurd hfa (hnot b hb' hfb)
    · rcases List.mem_cons.mp hb with rfl | hb'
      · exact absurd hfb (hnot a ha' hfa)
      · exact ih hrest ha' hb'

/-- In every order of steps, if no hash is stored twice: no record is used up twice, so at most one
operation gets past the deletion of a token's record. Any other operation presenting the token
writes nothing, and fails if it ends. Once a record is used up, its hash is never stored again and
the token is refused. -/
theorem Reaches.one_consumer (hP : Reaches c ids entropy mayFail requests P)
    (hdistinct : (stored P).Nodup) :
    ((usedUp P).Nodup ∧ ∀ i j token, Won P i token → Won P j token → i = j) ∧
    (∀ i token, (requests i).presented? = some token → ¬ Won P i token →
      (∀ x ∈ P.log, x.thread = i → x.after = x.before) ∧
      ∀ r, P.left i = .done r → ∃ e, r = .error e ∧ ((requests i).Refusal e ∨
        ∃ x ∈ P.log, x.thread = i ∧ x.exchange.answer = .error e)) ∧
    ∀ hash ∈ usedUp P,
      (∀ userId record, P.world.store.refreshTokens.get? userId = some record →
        record.tokenHash ≠ hash) ∧
      ∀ token, hashToken token = hash →
        (c.checkRefresh token).run ((MemoryStore.model ids).host entropy) P.world =
          (some (.error .invalidRefreshToken), P.world) := by
  have hcount := hP.count_le
  have hone := List.nodup_iff_count_le_one.mp hdistinct
  have hused : (usedUp P).Nodup := List.nodup_iff_count_le_one.mpr fun hash => by
    have := hcount hash
    have := hone hash
    omega
  have hgone : ∀ hash ∈ usedUp P, ∀ userId record,
      P.world.store.refreshTokens.get? userId = some record → record.tokenHash ≠ hash := by
    rintro hash hmem userId record hget rfl
    have hpos : 0 < (usedUp P).count record.tokenHash := List.count_pos_iff.mpr hmem
    have hstored : 0 < (hashes P.world.store).count record.tokenHash :=
      Table.count_pos_of_get? _ _ _ (fun r : RefreshRecord => r.tokenHash) hget
    have := hcount record.tokenHash
    have := hone record.tokenHash
    omega
  refine ⟨⟨hused, ?_⟩, ?_, fun hash hmem => ⟨hgone hash hmem, ?_⟩⟩
  · rintro i j token ⟨x, hx, rfl, hxu⟩ ⟨y, hy, rfl, hyu⟩
    rw [eq_of_nodup_filterMap hused hx hy hxu hyu]
  · intro i token hi hlost
    obtain ⟨hlog, hleft⟩ := hP.late hi hlost
    refine ⟨hlog, fun r hr => ?_⟩
    rcases hleft with hreads | ⟨e, hdone, hx⟩
    · rw [hr] at hreads
      cases r with
      | ok a => exact hreads.elim
      | error e => exact ⟨e, rfl, .inl hreads⟩
    · rw [hdone] at hr
      exact ⟨e, (Program.done.inj hr).symm, .inr hx⟩
  · rintro token rfl
    obtain ⟨r, hrun, hok, herr⟩ := Codec.run_checkRefresh (c := c) ids entropy P.world token
    cases r with
    | error e => rw [hrun, herr e rfl]
    | ok x =>
      obtain ⟨-, hfound, hhash, -⟩ := (hok x.1 x.2).mp rfl
      exact absurd hhash (hgone _ hmem _ _ hfound)

variable {w : World MemoryStore}

private theorem traced_createTokens {p : Principal} {access token : String}
    (haccess : c.encodeAccess (c.accessClaims w.clock p) = .ok access)
    (htoken : c.encodeRefresh (c.refreshClaims w.clock (entropy w.drawn) p) = .ok token) :
    Traced (MemoryStore.faulty ids entropy mayFail) (c.createTokens p) w
      [⟨.upsert (c.recordOf w.clock p.subject token), .ok ()⟩] (.ok ⟨access, token⟩)
      { w with
        store := { w.store with refreshTokens :=
          w.store.refreshTokens.insert p.subject (c.recordOf w.clock p.subject token) }
        drawn := w.drawn + 1 } := by
  have hfirst : Traced (MemoryStore.faulty ids entropy mayFail) (c.createAccess p) w [] (.ok access)
      w := .step (.clock _ _) (haccess ▸ .done _ _)
  have hsecond : Traced (MemoryStore.faulty ids entropy mayFail) (c.createRefresh p) w
      [⟨.upsert (c.recordOf w.clock p.subject token), .ok ()⟩] (.ok token) { w with
        store := { w.store with refreshTokens :=
          w.store.refreshTokens.insert p.subject (c.recordOf w.clock p.subject token) }
        drawn := w.drawn + 1 } := by
    refine .step (.clock _ _) (.step (.draw _ _) ?_)
    simp only [done_ok_bind, ofExcept_eq, htoken, bind_eq]
    exact .step (.clock _ _) (.step (.call _ _ _) (.done _ _))
  exact hfirst.bind (hsecond.bind (.done _ _))

private theorem traced_checkRefresh {token : String} {claims : RefreshClaims}
    {record : RefreshRecord} (hdecode : c.decodeRefresh w.clock token = .ok claims)
    (hfound : w.store.refreshTokens.get? claims.subject = some record)
    (hhash : record.tokenHash = hashToken token) (hlive : w.clock < record.expiresAt) :
    Traced (MemoryStore.faulty ids entropy mayFail) (c.checkRefresh token) w
      [⟨.findByUser claims.subject, .ok (some record)⟩] (.ok (claims, record)) w := by
  have hlook : MemoryStore.model ids w.clock (.findByUser claims.subject) w.store =
      (.ok (some record), w.store) := by
    rw [← hfound]
    rfl
  refine .step (.clock _ _) ?_
  simp only [done_ok_bind, hdecode, bind_eq]
  refine (traced_ask hlook).bind ?_
  simp only [hhash, ne_eq, not_true, if_false]
  refine .step (.clock _ _) ?_
  simp only [done_ok_bind, Int.not_le.mpr hlive, if_false]
  exact .done _ _

private theorem traced_consume {record : RefreshRecord} {b : Bool} {s : MemoryStore}
    (h : MemoryStore.model ids w.clock (.deleteMatching record.userId record.tokenHash) w.store =
      (.ok b, s)) :
    Traced (MemoryStore.faulty ids entropy mayFail) (consume record) w
      [⟨.deleteMatching record.userId record.tokenHash, .ok b⟩]
      (if b then .ok () else .error .invalidRefreshToken) { w with store := s } := by
  cases b with
  | true => exact (traced_ask h).bind (.done (.ok ()) _)
  | false => exact (traced_ask h).bind (.done (.error .invalidRefreshToken) _)

private theorem traced_denyFor (token : String) (claims : AccessClaims) :
    Traced (MemoryStore.faulty ids entropy mayFail) (denyFor token claims) w
      [⟨.revoke (blacklistKey token) (remainingLifetime claims.expiry w.clock), .ok ()⟩] (.ok ())
      { w with
        store := w.store.revoke w.clock (blacklistKey token)
          (remainingLifetime claims.expiry w.clock) } :=
  .step (.clock _ _) (traced_ask rfl)

private def contenders (p : Principal) (access token : String) : Fin 3 → Request
  | 0 => .issue p
  | 1 => .rotate (fun _ => p) token
  | 2 => .logout access token

/-- A rotation and a logout both find the record of a token that was just issued. The logout deletes
it, so the rotation comes too late, before the logout has ended. -/
theorem Reaches.one_consumer_contenders : ∃ p access token P,
    Reaches (.ofConfig (.withSecret "secret")) serialId (fun _ => .replicate 16 0)
      (fun _ _ => False) (contenders p access token) P ∧
    P.calls.map (fun x => (x.1, x.2.call.method)) =
      [(2, .revoke), (1, .deleteMatching), (2, .deleteMatching), (2, .findByUser), (1, .findByUser),
        (0, .upsert)] ∧
    Won P 2 token ∧ P.left 2 = .done (.ok ()) ∧
    ¬ Won P 1 token ∧ P.left 1 = .done (.error .invalidRefreshToken) ∧
    (∀ x ∈ P.log, x.thread = 1 → x.after = x.before) ∧
    (Codec.checkRefresh (.ofConfig (.withSecret "secret")) token).run
      ((MemoryStore.model serialId).host fun _ => .replicate 16 0) P.world =
        (some (.error .invalidRefreshToken), P.world) := by
  let c : Codec := .ofConfig (.withSecret "secret")
  let p : Principal := ⟨"ada", "ada@example.com", .empty⟩
  let draw : Draw := .replicate 16 0
  have hc : c.Clamped := Codec.ofConfig_clamped _
  obtain ⟨access, haccess⟩ : ∃ access, c.encodeAccess (c.accessClaims 0 p) = .ok access :=
    Codec.exists_sign rfl _
  obtain ⟨token, htoken⟩ : ∃ token, c.encodeRefresh (c.refreshClaims 0 draw p) = .ok token :=
    Codec.exists_sign rfl _
  have hany : c.decodeAccessAnyAge access = .ok (c.accessClaims 0 p) :=
    Codec.decodeAccessAnyAge_encodeAccess
      (Codec.accessClaims_validExpiry hc (by decide) (by decide) _) haccess
  have hrefresh : c.decodeRefresh 0 token = .ok (c.refreshClaims 0 draw p) := by
    rw [Codec.decodeRefresh_encodeRefresh
      (Codec.refreshClaims_validExpiry hc (by decide) (by decide) _ _) htoken]
    rfl
  let record : RefreshRecord := c.recordOf 0 "ada" token
  let s₁ : MemoryStore := { refreshTokens := Table.insert {} "ada" record }
  let s₂ : MemoryStore := { refreshTokens := (Table.insert {} "ada" record).erase "ada" }
  have hwon : MemoryStore.model serialId 0 (.deleteMatching "ada" record.tokenHash) s₁ =
      (.ok true, s₂) := by
    simp [MemoryStore.model, MemoryStore.deleteMatching, s₁, s₂]
  have hlost : MemoryStore.model serialId 0 (.deleteMatching record.userId record.tokenHash) s₂ =
      (.ok false, s₂) := by
    simp [MemoryStore.model, MemoryStore.deleteMatching, s₂, record, Codec.recordOf]
  have hchecked : Traced (MemoryStore.faulty serialId (fun _ => draw) fun _ _ => False)
      (c.checkRefresh token) ⟨s₁, 0, 1⟩ _ (.ok (c.refreshClaims 0 draw p, record)) ⟨s₁, 0, 1⟩ :=
    traced_checkRefresh hrefresh (show s₁.refreshTokens.get? "ada" = some record from rfl) rfl
      (show (0 : Nanos) < 2592000000000000 by decide)
  have hstart : Reaches c serialId (fun _ => draw) (fun _ _ => False) (contenders p access token)
      (Pool.opened ⟨{}, 0, 0⟩ fun i => (contenders p access token i).program c) := .start _ rfl
  obtain ⟨P₁, hP₁, hw₁, -, hothers₁, hcalls₁⟩ := hstart.of_traced (i := 0) (q := c.createTokens p)
    (f := fun _ => done (.ok ())) rfl rfl (traced_createTokens haccess htoken)
  -- The rotation and the logout check the token.
  obtain ⟨P₂, hP₂, hw₂, hleft₂, hothers₂, hcalls₂⟩ := hP₁.of_traced (i := 1)
    (hothers₁ 1 (by decide)) hw₁ hchecked
  obtain ⟨P₃, hP₃, hw₃, hleft₃, hothers₃, hcalls₃⟩ := hP₂.of_traced (i := 2)
    ((hothers₂ 2 (by decide)).trans (hothers₁ 2 (by decide))) hw₂ hchecked
  have hleft₃' : P₃.left 2 = (consume record).bind fun _ => denyFor access (c.accessClaims 0 p) := by
    refine hleft₃.trans ?_
    change (ofExcept (c.decodeAccessAnyAge access)).bind _ = _
    rw [hany]
    rfl
  -- The logout gets past the deletion and the rotation does not.
  obtain ⟨P₄, hP₄, hw₄, hleft₄, hothers₄, hcalls₄⟩ := hP₃.of_traced hleft₃' hw₃
    (traced_consume (w := ⟨s₁, 0, 1⟩) hwon)
  have hlate : Traced (MemoryStore.faulty serialId (fun _ => draw) fun _ _ => False)
      (c.rotate p record) ⟨s₂, 0, 1⟩ _ (.error .invalidRefreshToken) ⟨s₂, 0, 1⟩ :=
    (traced_consume (w := ⟨s₂, 0, 1⟩) hlost).bind_error
  obtain ⟨P₅, hP₅, hw₅, hleft₅, hothers₅, hcalls₅⟩ := hP₄.of_traced (i := 1)
    (q := c.rotate p record) (f := fun _ => done (.ok ()))
    ((hothers₄ 1 (by decide)).trans ((hothers₃ 1 (by decide)).trans hleft₂)) hw₄ hlate
  obtain ⟨P₆, hP₆, hw₆, hleft₆, hothers₆, hcalls₆⟩ := hP₅.of_traced (i := 2)
    ((hothers₅ 2 (by decide)).trans (hleft₄.trans (bind_done _).symm)) hw₅
    (traced_denyFor (w := ⟨s₂, 0, 1⟩) access (c.accessClaims 0 p))
  have hcalls : P₆.calls =
      [(2, ⟨.revoke (blacklistKey access) (remainingLifetime (c.accessClaims 0 p).expiry 0), .ok ()⟩),
        (1, ⟨.deleteMatching "ada" (hashToken token), .ok false⟩),
        (2, ⟨.deleteMatching "ada" (hashToken token), .ok true⟩),
        (2, ⟨.findByUser "ada", .ok (some record)⟩), (1, ⟨.findByUser "ada", .ok (some record)⟩),
        (0, ⟨.upsert record, .ok ()⟩)] := by
    rw [hcalls₆, hcalls₅, hcalls₄, hcalls₃, hcalls₂, hcalls₁]
    rfl
  have hdistinct : (stored P₆).Nodup := by
    unfold stored
    rw [hcalls]
    exact List.nodup_singleton _
  have hwinner : Won P₆ 2 token := by
    unfold Won
    rw [hcalls]
    exact ⟨_, .tail _ (.tail _ (.head _)), rfl, rfl⟩
  obtain ⟨⟨-, hone⟩, hlosers, hgone⟩ := Reaches.one_consumer hP₆ hdistinct
  have hloser : ¬ Won P₆ 1 token := fun h => absurd (hone 2 1 token hwinner h) (by decide)
  have hused : hashToken token ∈ usedUp P₆ := by
    unfold usedUp
    rw [hcalls]
    exact List.mem_singleton_self _
  refine ⟨p, access, token, P₆, hP₆, by rw [hcalls]; rfl, hwinner, hleft₆, hloser,
    (hothers₆ 1 (by decide)).trans hleft₅, (hlosers 1 token rfl hloser).1,
    (hgone _ hused).2 token rfl⟩

end Turnstile.Race
