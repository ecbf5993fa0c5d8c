import Turnstile.Proofs.Service.Operations
import Turnstile.Proofs.Service.Registration
import Turnstile.Service.ApiError

/-! Services look before they write: once they have written they find no more reason to refuse, so a
service that refuses has changed nothing. -/

namespace Turnstile

open Program Registration

def AuthError.Refusal (e : AuthError) : Prop :=
  (ApiError.ofAuth e).status = 401 ∨ (ApiError.ofAuth e).status = 403

instance (e : AuthError) : Decidable e.Refusal :=
  inferInstanceAs (Decidable (_ ∨ _))

/-- A store with the same accounts and refresh records, and a deny-list from which at most entries
past their deadline were dropped. -/
structure Kept (w w' : World MemoryStore) : Prop extends SameAccounts w.store w'.store where
  refreshTokens : w'.store.refreshTokens = w.store.refreshTokens
  denied : Fades w w'

namespace Kept

variable {w w' w'' : World MemoryStore}

theorem of_eq (h : w'.store = w.store) : Kept w w' where
  users := by rw [h]
  emails := by rw [h]
  firstUserCreated := by rw [h]
  userRoles := by rw [h]
  roles := by rw [h]
  refreshTokens := by rw [h]
  denied := .of_eq (by rw [h])

theorem trans (h : Kept w w') (h' : Kept w' w'') (hclock : w'.clock ≤ w''.clock) : Kept w w'' where
  users := h'.users.trans h.users
  emails := h'.emails.trans h.emails
  firstUserCreated := h'.firstUserCreated.trans h.firstUserCreated
  userRoles := h'.userRoles.trans h.userRoles
  roles := h'.roles.trans h.roles
  refreshTokens := h'.refreshTokens.trans h.refreshTokens
  denied := h.denied.trans h'.denied hclock

end Kept

def Exchange.Wrote : Exchange → Prop
  | ⟨.createUser _ _ _, .ok _⟩ | ⟨.upsert _, .ok _⟩ | ⟨.delete _, .ok _⟩
  | ⟨.deleteMatching _ _, .ok true⟩ | ⟨.revoke _ _, .ok _⟩ | ⟨.grantRole _ _, .ok _⟩ => True
  | _ => False

theorem Call.Looks.not_wrote {d : Call} (h : d.Looks) (r : Except AuthError d.Answer) :
    ¬ Exchange.Wrote ⟨d, r⟩ := by
  rcases h with hreads | hmethod
  · cases d with
    | createUser | upsert | delete | deleteMatching | isRevoked | revoke | grantRole =>
      exact hreads.elim
    | _ => exact id
  · cases d with
    | isRevoked => exact id
    | _ => cases hmethod

/-- A call that did not write leaves everything as it is. -/
theorem kept_of_not_wrote {w : World MemoryStore} {d : Call}
    (h : ¬ Exchange.Wrote ⟨d, (MemoryStore.model ids w.clock d w.store).1⟩) :
    Kept w { w with store := (MemoryStore.model ids w.clock d w.store).2 } := by
  have hframe := MemoryStore.frame_model ids w.clock d w.store
  cases d with
  | createUser email name passwordHash =>
    simp only [MemoryStore.model] at h ⊢
    cases htaken : w.store.emails.contains email with
    | true =>
      rw [MemoryStore.createUser_of_taken ids name passwordHash htaken]
      exact .of_eq rfl
    | false =>
      rw [MemoryStore.createUser_of_free ids name passwordHash htaken] at h
      exact absurd trivial h
  | grantRole userId role =>
    simp only [MemoryStore.model] at h ⊢
    cases hdefined : w.store.roles.contains role with
    | true =>
      rw [MemoryStore.grantRole_of_defined userId hdefined] at h
      exact absurd trivial h
    | false =>
      rw [MemoryStore.grantRole_of_undefined userId hdefined]
      exact .of_eq rfl
  | deleteMatching userId tokenHash =>
    simp only [MemoryStore.model, MemoryStore.deleteMatching] at h ⊢
    split
    · exact .of_eq rfl
    · rename_i record hfound
      split_ifs with hhash
      · simp only [hfound, hhash, if_true] at h
        exact absurd trivial h
      · exact .of_eq rfl
  | upsert | delete | revoke => exact absurd trivial h
  | isRevoked key =>
    refine ⟨⟨hframe.users (by rintro ⟨⟩), hframe.emails (by rintro ⟨⟩),
      hframe.firstUserCreated (by rintro ⟨⟩), hframe.userRoles (by rintro ⟨⟩), hframe.roles⟩,
      hframe.refreshTokens (by rintro ⟨⟩) (by rintro ⟨⟩) (by rintro ⟨⟩), ?_⟩
    exact MemoryStore.get?_revocations_isRevoked w.store w.clock key
  | _ => exact .of_eq rfl

def Refused {α : Type} : Except AuthError α → Prop
  | .ok _ => False
  | .error e => e.Refusal

/-- A program that is not refused unless one of its calls is. -/
def Program.Commits {α : Type} : Program α → Prop
  | done r => ¬ Refused r
  | clock next => ∀ t, (next t).Commits
  | draw next => ∀ d, (next d).Commits
  | call _ next => (∀ a, (next (.ok a)).Commits) ∧ ∀ e, next (.error e) = done (.error e)

/-- A program that is not refused once it has written, unless one of its calls is. -/
def Program.Cautious {α : Type} : Program α → Prop
  | done _ => True
  | clock next => ∀ t, (next t).Cautious
  | draw next => ∀ d, (next d).Cautious
  | call d next => ∀ r, (¬ Exchange.Wrote ⟨d, r⟩ → (next r).Cautious) ∧
    (Exchange.Wrote ⟨d, r⟩ → (next r).Commits)

/-- A call is refused after one that wrote. -/
def RefusedAfterWrite (xs : List Exchange) : Prop :=
  ∃ ys x zs, xs = ys ++ x :: zs ∧ x.Wrote ∧ ∃ y ∈ zs, Refused y.answer

namespace RefusedAfterWrite

theorem append {xs : List Exchange} (h : RefusedAfterWrite xs) (ys : List Exchange) :
    RefusedAfterWrite (ys ++ xs) := by
  obtain ⟨before, x, after, rfl, hwrote, hrefused⟩ := h
  exact ⟨ys ++ before, x, after, by simp, hwrote, hrefused⟩

end RefusedAfterWrite

namespace Program

variable {α β : Type} {p p' : Program α} {f : α → Program β} {xs : List Exchange}
  {r : Except AuthError α} {ids : Nat → String} {entropy : Nat → Draw} {mayFail : Call → AuthError → Prop}
  {w w' : World MemoryStore}

namespace Commits

theorem now : now.Commits := fun _ => id

theorem fresh : fresh.Commits := fun _ => id

theorem ask (d : Call) : (ask d).Commits := ⟨fun _ => id, fun _ => rfl⟩

theorem bind (hp : p.Commits) (hf : ∀ a, (f a).Commits) : (p >>= f).Commits := by
  rw [bind_eq]
  induction p with
  | done r =>
    cases r with
    | ok a => exact hf a
    | error e => exact hp
  | clock next ih => exact fun t => ih t (hp t)
  | draw next ih => exact fun d => ih d (hp d)
  | call d next ih =>
    obtain ⟨hok, herr⟩ := hp
    exact ⟨fun a => ih _ (hok a), fun e => congrArg (fun q => q.bind f) (herr e)⟩

private theorem exists_refused_cons {S : Setting MemoryStore} {d : Call}
    {next : Except AuthError d.Answer → Program α} {answer : Except AuthError d.Answer}
    (hp : (call d next).Commits) (h : Traced S (next answer) w xs r w') (hr : Refused r)
    (ih : (next answer).Commits → ∃ y ∈ xs, Refused y.answer) :
    ∃ y ∈ ⟨d, answer⟩ :: xs, Refused y.answer := by
  obtain ⟨hok, herr⟩ := hp
  cases answer with
  | ok a =>
    obtain ⟨y, hy, hrefused⟩ := ih (hok a)
    exact ⟨y, List.mem_cons_of_mem _ hy, hrefused⟩
  | error e =>
    rw [herr e] at h
    obtain ⟨-, rfl, -⟩ := traced_done h
    exact ⟨_, List.mem_cons_self, hr⟩

/-- Whoever is refused has had a call refused. -/
theorem traced {S : Setting MemoryStore} (hp : p.Commits)
    (h : Traced S p w xs r w') (hr : Refused r) : ∃ y ∈ xs, Refused y.answer := by
  induction h with
  | done r w => exact absurd hr hp
  | wait _ _ ih => exact ih hp hr
  | step hs hrest ih =>
    cases hs with
    | clock next => exact ih (hp _) hr
    | draw next => exact ih (hp _) hr
    | call d next => exact exists_refused_cons hp hrest hr fun hnext => ih hnext hr
    | lost d next => exact exists_refused_cons hp hrest hr fun hnext => ih hnext hr

end Commits

namespace Cautious

theorem of_commits (hp : p.Commits) : p.Cautious := by
  induction p with
  | done r => trivial
  | clock next ih => exact fun t => ih t (hp t)
  | draw next ih => exact fun d => ih d (hp d)
  | call d next ih =>
    obtain ⟨hok, herr⟩ := hp
    intro r
    cases r with
    | ok a => exact ⟨fun _ => ih _ (hok a), fun _ => hok a⟩
    | error e =>
      constructor
      · intro _
        rw [herr e]
        trivial
      · intro hwrote
        cases d <;> exact hwrote.elim

theorem bind (hp : p.Cautious) (hf : ∀ a, (f a).Commits) : (p >>= f).Cautious := by
  rw [bind_eq]
  induction p with
  | done r =>
    cases r with
    | ok a => exact of_commits (hf a)
    | error e => trivial
  | clock next ih => exact fun t => ih t (hp t)
  | draw next ih => exact fun d => ih d (hp d)
  | call d next ih => exact fun r => ⟨fun h => ih r ((hp r).1 h), fun h => ((hp r).2 h).bind hf⟩

/-- Looking first changes nothing about what comes after it. -/
theorem looks_bind (hp : p.CallsOnly Call.Looks) (hf : ∀ a, (f a).Cautious) :
    (p >>= f).Cautious := by
  rw [bind_eq]
  induction p with
  | done r =>
    cases r with
    | ok a => exact hf a
    | error e => trivial
  | clock next ih => exact fun t => ih t (hp t)
  | draw next ih => exact fun d => ih d (hp d)
  | call d next ih =>
    exact fun r => ⟨fun _ => ih r (hp.2 r), fun h => absurd h (hp.1.not_wrote r)⟩

/-- Whoever is refused has changed nothing, unless a call was refused after one that wrote. -/
theorem traced (hp : p.Cautious) (h : Traced (MemoryStore.faulty ids entropy mayFail) p w xs r w')
    (hr : Refused r) : Kept w w' ∨ RefusedAfterWrite xs := by
  induction h with
  | done r w => exact .inl (.of_eq rfl)
  | @wait p w w' xs r t _ hrest ih =>
    have hsame : Kept w (w.atTime t) := .of_eq rfl
    exact (ih hp hr).imp_left fun h => hsame.trans h hrest.runs.clock_le
  | @step _ _ w w₁ w' x xs r hs hrest ih =>
    have hafter (hkept : Kept w w₁) (h : Kept w₁ w' ∨ RefusedAfterWrite xs) :
        Kept w w' ∨ RefusedAfterWrite (x.toList ++ xs) :=
      h.imp (fun h => hkept.trans h hrest.runs.clock_le) fun h => h.append _
    cases hs with
    | clock next => exact hafter (.of_eq rfl) (ih (hp _) hr)
    | draw next => exact hafter (.of_eq rfl) (ih (hp _) hr)
    | call d next =>
      -- Up to the first call that wrote nothing has changed, and from there on `Commits` holds.
      obtain ⟨hlook, hwrite⟩ := hp (MemoryStore.model ids w.clock d w.store).1
      by_cases hwrote : Exchange.Wrote ⟨d, (MemoryStore.model ids w.clock d w.store).1⟩
      · exact .inr ⟨[], _, xs, rfl, hwrote, (hwrite hwrote).traced hrest hr⟩
      · exact hafter (kept_of_not_wrote hwrote) (ih (hlook hwrote) hr)
    | lost d next =>
      refine hafter (.of_eq rfl) (ih ((hp _).1 ?_) hr)
      cases d <;> exact id

end Cautious

/-- A program that only looks changes nothing, wherever it is cut off. -/
theorem CallsOnly.kept (hp : p.CallsOnly Call.Looks)
    (h : Proceeds (MemoryStore.faulty ids entropy mayFail) p w p' w') : Kept w w' := by
  induction h with
  | start => exact .of_eq rfl
  | @wait p p' w w' t _ hrest ih =>
    have hsame : Kept w (w.atTime t) := .of_eq rfl
    exact hsame.trans (ih hp) hrest.clock_le
  | step hs hrest ih =>
    obtain ⟨hp', -⟩ := hp.step hs
    refine Kept.trans ?_ (ih hp') hrest.clock_le
    cases hs with
    | clock next => exact .of_eq rfl
    | draw next => exact .of_eq rfl
    | call d next => exact kept_of_not_wrote (hp.1.not_wrote _)
    | lost d next => exact .of_eq rfl

end Program

namespace Codec

variable {c : Codec}

private theorem not_refused_sign (v : Json) : ¬ Refused (c.sign v) := by
  have hsigning : ¬ (AuthError.internal .signing).Refusal := by decide
  unfold sign
  dsimp only
  split
  · exact hsigning
  · exact id

private theorem commits_createTokens (p : Principal) : (c.createTokens p).Commits := by
  have haccess : (c.createAccess p).Commits := Commits.bind .now fun t => not_refused_sign _
  have hrefresh : (c.createRefresh p).Commits := by
    refine Commits.bind .now fun t => Commits.bind .fresh fun d => ?_
    refine Commits.bind (not_refused_sign _) fun token => Commits.bind .now fun t' => ?_
    exact Commits.bind (.ask _) fun _ => id
  exact haccess.bind fun _ => hrefresh.bind fun _ => id

/-- Whoever finds the record gone is refused, but has not written. -/
private theorem cautious_consume (record : RefreshRecord) : (consume record).Cautious := by
  intro r
  match r with
  | .ok true => exact ⟨fun _ => trivial, fun _ => id⟩
  | .ok false => exact ⟨fun _ => trivial, False.elim⟩
  | .error e => exact ⟨fun _ => trivial, False.elim⟩

theorem cautious_login (email password : String) : (c.login email password).Cautious := by
  refine Cautious.looks_bind ⟨.inl trivial, fun _ => trivial⟩ fun found => ?_
  split
  · split
    · split
      · refine Cautious.looks_bind (looks_loadPrincipal _ _) fun p => .of_commits ?_
        exact (commits_createTokens p).bind fun _ => id
      · trivial
    · trivial
  · trivial

theorem cautious_register (email password : String) (name : Option String) :
    (c.register email password name).Cautious := by
  have hissue (userId : String) : Commits (do
      let p ← loadPrincipal userId (trim email)
      return c.tokenResponse (← c.createTokens p)) :=
    Commits.bind (Commits.bind (.ask _) fun _ => id) fun p =>
      (commits_createTokens p).bind fun _ => id
  unfold Codec.register
  dsimp only
  split_ifs
  · trivial
  · refine Cautious.looks_bind (p := ofExcept _) trivial fun _ => ?_
    refine Cautious.looks_bind ⟨.inl trivial, fun _ => trivial⟩ fun taken => ?_
    split_ifs
    · trivial
    · refine Cautious.looks_bind (p := fresh) (fun _ => trivial) fun salt => .of_commits ?_
      refine Commits.bind (.ask _) fun created => ?_
      split_ifs
      · exact Commits.bind (.ask _) fun _ => hissue _
      · exact hissue _

theorem cautious_refresh (token : String) : (c.refresh token).Cautious := by
  refine Cautious.looks_bind (looks_checkRefresh token) fun x => ?_
  refine Cautious.looks_bind ⟨.inl trivial, fun _ => trivial⟩ fun found => ?_
  split
  · refine Cautious.looks_bind (looks_loadPrincipal _ _) fun p => Cautious.bind ?_ fun _ => id
    unfold rotate
    split_ifs
    · trivial
    · exact (cautious_consume _).bind fun _ => commits_createTokens p
  · trivial

theorem cautious_logout (access token : String) : (c.logout access token).Cautious := by
  have hrevoke : (c.revokePair access token).Cautious := by
    refine Cautious.looks_bind (looks_checkRefresh token) fun x => ?_
    refine Cautious.looks_bind (p := ofExcept _) trivial fun claims => ?_
    split_ifs
    · trivial
    · exact (cautious_consume _).bind fun _ => Commits.bind .now fun t => .ask _
  exact hrevoke.bind fun _ => id

end Codec

end Turnstile
