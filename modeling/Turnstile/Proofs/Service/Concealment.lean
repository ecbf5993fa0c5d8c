import Mathlib.Tactic.SplitIfs
import Turnstile.Proofs.Execution
import Turnstile.Service.Accounts

/-! Services end with the first call that fails. Two runs whose calls fail in different ways therefore
end alike, wherever those failures are reported alike. -/

namespace Turnstile

def AuthError.Concealed : AuthError → Prop
  | .config _ | .db _ | .internal _ => True
  | _ => False

/-- The same failure, or two whose details are for the log only. -/
def AuthError.Alike (e e' : AuthError) : Prop :=
  e = e' ∨ e.Concealed ∧ e'.Concealed

/-- The same value, or two failures that are related. -/
inductive SameUpTo {ε α : Type} (E : ε → ε → Prop) : Except ε α → Except ε α → Prop
  | ok (a : α) : SameUpTo E (.ok a) (.ok a)
  | error {e e' : ε} : E e e' → SameUpTo E (.error e) (.error e')

theorem AuthError.Alike.refl (e : AuthError) : e.Alike e := .inl rfl

theorem SameUpTo.refl {ε α : Type} {E : ε → ε → Prop} (hE : ∀ e, E e e) (r : Except ε α) :
    SameUpTo E r r := by
  cases r with
  | ok a => exact .ok a
  | error e => exact .error (hE e)

theorem SameUpTo.map {ε α β : Type} {E : ε → ε → Prop} {r r' : Except ε α} (h : SameUpTo E r r')
    (f : α → β) : SameUpTo E (r.map f) (r'.map f) := by
  cases h with
  | ok a => exact .ok (f a)
  | error he => exact .error he

/-- Two hosts that a program can tell apart only by the details of failures, as long as their states
are related. -/
structure Host.Alike {σ τ : Type} (h : Host σ) (k : Host τ) (R : σ → τ → Prop) : Prop where
  clock : ∀ s t, R s t → h.clock s = k.clock t
  draw : ∀ s t, R s t → (h.draw s).1 = (k.draw t).1 ∧ R (h.draw s).2 (k.draw t).2
  answer : ∀ c s t, R s t →
    Option.Rel (SameUpTo AuthError.Alike) (h.answer c s).1 (k.answer c t).1 ∧
      R (h.answer c s).2 (k.answer c t).2

namespace Program

variable {σ τ α β : Type}

/-- A program that ends with the first call that fails, and reports that failure. -/
def Relays (report : AuthError → Except AuthError α) : Program α → Prop
  | done _ => True
  | clock next => ∀ t, (next t).Relays report
  | draw next => ∀ d, (next d).Relays report
  | call _ next => (∀ a, (next (.ok a)).Relays report) ∧ ∀ e, next (.error e) = done (report e)

namespace Relays

variable {report : AuthError → Except AuthError β} {p : Program α}

theorem ask (c : Call) : (ask c).Relays .error := ⟨fun _ => trivial, fun _ => rfl⟩

theorem now : now.Relays .error := fun _ => trivial

theorem fresh : fresh.Relays .error := fun _ => trivial

/-- What comes after a failed call is skipped. -/
theorem bind {f : α → Program β} (hp : p.Relays .error) (hf : ∀ a, (f a).Relays .error) :
    (p >>= f).Relays .error := by
  rw [bind_eq]
  induction p with
  | done r =>
    cases r with
    | ok a => exact hf a
    | error e => trivial
  | clock next ih => exact fun t => ih t (hp t)
  | draw next ih => exact fun d => ih d (hp d)
  | call c next ih =>
    obtain ⟨hok, herr⟩ := hp
    exact ⟨fun a => ih _ (hok a), fun e => congrArg (fun q => q.bind f) (herr e)⟩

/-- A failed call is reported by what comes after the program that catches it. -/
theorem attempt_bind {f : Except AuthError α → Program β} (hp : p.Relays .error)
    (hok : ∀ a, (f (.ok a)).Relays report) (herr : ∀ e, f (.error e) = done (report e)) :
    (p.attempt >>= f).Relays report := by
  rw [bind_eq]
  induction p with
  | done r =>
    cases r with
    | ok a => exact hok a
    | error e =>
      change (f (.error e)).Relays report
      rw [herr e]
      trivial
  | clock next ih => exact fun t => ih t (hp t)
  | draw next ih => exact fun d => ih d (hp d)
  | call c next ih =>
    obtain ⟨hnext, hfail⟩ := hp
    refine ⟨fun a => ih _ (hnext a), fun e => ?_⟩
    change (next (.error e)).attempt.bind f = done (report e)
    rw [hfail e]
    exact herr e

/-- A result that is made into another one, and so is each report. -/
theorem map {report : AuthError → α} {g : α → β} (hp : p.Relays fun e => .ok (report e)) :
    (p >>= fun a => pure (g a)).Relays fun e => .ok (g (report e)) := by
  rw [bind_eq]
  induction p with
  | done r => cases r <;> trivial
  | clock next ih => exact fun t => ih t (hp t)
  | draw next ih => exact fun d => ih d (hp d)
  | call c next ih =>
    obtain ⟨hok, herr⟩ := hp
    exact ⟨fun a => ih _ (hok a), fun e => congrArg (fun q => q.bind fun a => pure (g a)) (herr e)⟩

section

variable {report : AuthError → Except AuthError α} {S : Setting σ} {q : Program α} {w w' : World σ}
  {xs : List Exchange} {r : Except AuthError α}

theorem step {x : Option Exchange} (hp : p.Relays report) (hs : Step S p w x q w') :
    q.Relays report ∧ ∀ y ∈ x, ∀ e, y.answer = .error e → q = done (report e) := by
  have hcall {c : Call} {next : Except AuthError c.Answer → Program α}
      (answer : Except AuthError c.Answer) (hp : (call c next).Relays report) :
      (next answer).Relays report ∧
        ∀ y ∈ some (Exchange.mk c answer), ∀ e, y.answer = .error e →
          next answer = done (report e) := by
    obtain ⟨hok, herr⟩ := hp
    cases answer with
    | ok a =>
      refine ⟨hok a, ?_⟩
      rintro y ⟨⟩ e ⟨⟩
    | error e =>
      refine ⟨?_, ?_⟩
      · rw [herr e]
        trivial
      · rintro y ⟨⟩ e' ⟨⟩
        exact herr e
  cases hs with
  | clock next => exact ⟨hp _, by simp⟩
  | draw next => exact ⟨hp _, by simp⟩
  | call c next => exact hcall _ hp
  | lost c next => exact hcall _ hp

/-- A run in which a call failed ends with the report of that failure. -/
theorem traced (hp : p.Relays report) (h : Traced S p w xs r w') {y : Exchange} (hy : y ∈ xs)
    {e : AuthError} (he : y.answer = .error e) : r = report e := by
  induction h with
  | done => cases hy
  | wait _ _ ih => exact ih hp hy
  | @step p q w w₁ w' x xs r hs hrest ih =>
    obtain ⟨hq, hlast⟩ := hp.step hs
    rcases List.mem_append.mp hy with hy | hy
    · rw [hlast y (Option.mem_toList.mp hy) e he] at hrest
      exact (traced_done hrest).2.1
    · exact ih hq hy

/-- However far a run has come, it ends if its next call fails. -/
theorem proceeds (hp : p.Relays report) (h : Proceeds S p w q w') : q.Relays report := by
  induction h with
  | start => exact hp
  | wait _ _ ih => exact ih hp
  | step hs _ ih => exact ih (hp.step hs).1

/-- Two runs over hosts that differ in the details of failures end alike, if alike failures are
reported alike. -/
theorem run_eq {h : Host σ} {k : Host τ} {R : σ → τ → Prop} {s : σ} {t : τ} (hp : p.Relays report)
    (hreport : ∀ e e', e.Alike e' → report e = report e') (hhosts : h.Alike k R) (hs : R s t) :
    (p.run h s).1 = (p.run k t).1 := by
  induction p generalizing s t with
  | done r => rfl
  | clock next ih =>
    simp only [Program.run, hhosts.clock s t hs]
    exact ih _ (hp _) hs
  | draw next ih =>
    obtain ⟨hdraw, hstates⟩ := hhosts.draw s t hs
    simp only [Program.run, hdraw]
    exact ih _ (hp _) hstates
  | call c next ih =>
    obtain ⟨hanswers, hstates⟩ := hhosts.answer c s t hs
    obtain ⟨hok, herr⟩ := hp
    simp only [Program.run]
    generalize h.answer c s = x at hanswers hstates ⊢
    generalize k.answer c t = y at hanswers hstates ⊢
    obtain ⟨x, s₁⟩ := x
    obtain ⟨y, t₁⟩ := y
    cases hanswers with
    | none => rfl
    | some hsame =>
      cases hsame with
      | ok a => exact ih _ (hok a) hstates
      | error he => simp only [herr, Program.run, hreport _ _ he]

end

end Relays

end Program

open Program

namespace Codec

variable {c : Codec}

theorem relays_loadPrincipal (userId email : String) :
    (loadPrincipal userId email).Relays .error :=
  Relays.bind (.ask _) fun _ => trivial

theorem relays_createTokens (p : Principal) : (c.createTokens p).Relays .error := by
  have haccess : (c.createAccess p).Relays .error := Relays.bind .now fun t => trivial
  have hrefresh : (c.createRefresh p).Relays .error := by
    refine Relays.bind .now fun t => Relays.bind .fresh fun d => ?_
    refine Relays.bind (p := ofExcept _) trivial fun token => Relays.bind .now fun t' => ?_
    exact Relays.bind (.ask _) fun _ => trivial
  exact haccess.bind fun _ => hrefresh.bind fun _ => trivial

theorem relays_checkAccess (token : String) : (c.checkAccess token).Relays .error := by
  have hdata : (c.tokenData token).Relays .error := Relays.bind .now fun t => trivial
  refine hdata.bind fun claims => Relays.bind (.ask _) fun denied => ?_
  split_ifs <;> trivial

theorem relays_checkRefresh (token : String) : (c.checkRefresh token).Relays .error := by
  refine Relays.bind .now fun t => ?_
  split
  · refine Relays.bind (.ask _) fun found => ?_
    split
    · split_ifs
      · trivial
      · refine Relays.bind .now fun t' => ?_
        split_ifs <;> trivial
    · trivial
  · trivial

theorem relays_consume (record : RefreshRecord) : (consume record).Relays .error := by
  refine Relays.bind (.ask _) fun spent => ?_
  split_ifs <;> trivial

theorem relays_someRoleGrants (resource method : String) (names : List String) :
    (someRoleGrants resource method names).Relays .error := by
  induction names with
  | nil => trivial
  | cons name names ih =>
    refine Relays.bind (.ask _) fun found => ?_
    split
    · exact ih
    · split_ifs
      · trivial
      · exact ih

theorem relays_login (email password : String) : (c.login email password).Relays .error := by
  refine Relays.bind (.ask _) fun found => ?_
  split
  · split
    · split
      · refine (relays_loadPrincipal _ _).bind fun p => ?_
        exact (relays_createTokens p).bind fun _ => trivial
      · trivial
    · trivial
  · trivial

theorem relays_register (email password : String) (name : Option String) :
    (c.register email password name).Relays .error := by
  have hissue (userId : String) : Relays .error (do
      let p ← loadPrincipal userId (trim email)
      return c.tokenResponse (← c.createTokens p)) :=
    (relays_loadPrincipal _ _).bind fun p => (relays_createTokens p).bind fun _ => trivial
  unfold Codec.register
  dsimp only
  split_ifs
  · trivial
  · refine Relays.bind (p := ofExcept _) trivial fun _ => Relays.bind (.ask _) fun taken => ?_
    split_ifs
    · trivial
    · refine Relays.bind .fresh fun salt => Relays.bind (.ask _) fun created => ?_
      split_ifs
      · exact Relays.bind (.ask _) fun _ => hissue _
      · exact hissue _

theorem relays_refresh (token : String) : (c.refresh token).Relays .error := by
  refine (relays_checkRefresh token).bind fun x => Relays.bind (.ask _) fun found => ?_
  split
  · refine (relays_loadPrincipal _ _).bind fun p => Relays.bind ?_ fun _ => trivial
    unfold rotate
    split_ifs
    · trivial
    · exact (relays_consume _).bind fun _ => relays_createTokens p
  · trivial

theorem relays_logout (access token : String) : (c.logout access token).Relays .error := by
  refine Relays.bind (p := c.revokePair access token) ?_ fun _ => trivial
  refine (relays_checkRefresh token).bind fun x => Relays.bind (p := ofExcept _) trivial fun claims => ?_
  split_ifs
  · trivial
  · exact (relays_consume _).bind fun _ => Relays.bind .now fun t => .ask _

theorem relays_confirmPermission (access resource method : String) :
    (c.confirmPermission access resource method).Relays .error := by
  refine Relays.bind (p := c.requirePermission access resource method) ?_ fun _ => trivial
  refine (relays_checkAccess access).bind fun claims => Relays.bind ?_ fun granted => ?_
  · unfold claimsPermit
    split_ifs
    · trivial
    · exact relays_someRoleGrants resource method _
  · split_ifs <;> trivial

theorem relays_describeCaller (claims : AccessClaims) :
    (describeCaller claims).Relays .error := by
  have hkeys : (effectivePermissions claims.roles).Relays .error :=
    Relays.bind (.ask _) fun _ => trivial
  exact hkeys.bind fun _ => trivial

end Codec

end Turnstile
