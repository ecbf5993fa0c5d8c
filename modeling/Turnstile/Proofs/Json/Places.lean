import Turnstile.Json.Shape
import Turnstile.Proofs.Json.Lexing
import Turnstile.Proofs.Json.Reader

/-! The place a reader leaves off at. A reader that succeeds has passed over whole values; one that
fails may stop further inside, but never outside of where it began. -/

namespace Turnstile.Json

variable {α β : Type} {floor : Nat} {m m' m'' : Mode}

/-- From given bytes, a reader that succeeds comes from one place to another. -/
def Passes (p q : Place) (r : Reader α) (s : Bytes) : Prop :=
  ∀ a s', r s = (.ok a, s') → ∃ c, s = c ++ s' ∧ lex p c = some q

namespace Passes

variable {p q t : Place}

theorem pure (a : α) (s : Bytes) : Passes p p (pure a : Reader α) s := by
  intro b s' h
  cases h
  exact ⟨[], rfl, rfl⟩

theorem throw (e : Fault) (s : Bytes) : Passes p q (throw e : Reader α) s := by
  intro b s' h
  cases h

/-- A sequence goes on from where its first part leaves off. -/
theorem bind {r : Reader α} {g : α → Reader β} {s : Bytes} (hr : Passes p q r s)
    (hg : ∀ a s', r s = (.ok a, s') → Passes q t (g a) s') : Passes p t (r >>= g) s := by
  intro b s₂ h
  obtain ⟨a, s₁, h₁, h₂⟩ := ok_of_bind_eq_ok h
  obtain ⟨c₁, rfl, hc₁⟩ := hr a s₁ h₁
  obtain ⟨c₂, rfl, hc₂⟩ := hg a s₁ h₁ b s₂ h₂
  exact ⟨c₁ ++ c₂, by simp, by rw [lex_of_append hc₁, hc₂]⟩

/-- One byte with a known effect. -/
theorem advance {b : UInt8} (s : Bytes) (h : lexByte p b = some q) :
    Passes p q advance (b :: s) := by
  intro a s' hr
  cases hr
  exact ⟨[b], rfl, by rw [lex_cons, h]; rfl⟩

end Passes

/-- From given bytes, a reader that succeeds comes from one mode to another within the same brackets.
If it fails, and the bytes make sense at all, it is still within those brackets. -/
structure LexesAt (floor : Nat) (m m' : Mode) (r : Reader α) (s : Bytes) : Prop where
  ok : Passes (floor, m) (floor, m') r s
  error : ∀ e s', r s = (.error e, s') → ∀ d, (lex (floor + d, m) s).isSome →
    ∃ c q, s = c ++ s' ∧ lex (floor, m) c = some q ∧ floor ≤ q.1

namespace LexesAt

theorem pure (a : α) (s : Bytes) : LexesAt floor m m (pure a : Reader α) s where
  ok := Passes.pure a s
  error := by
    intro e s' h
    cases h

theorem throw (e : Fault) (s : Bytes) : LexesAt floor m m' (throw e : Reader α) s where
  ok := Passes.throw e s
  error := by
    intro e s' h
    cases h
    exact fun _ _ => ⟨[], _, rfl, rfl, Nat.le_refl _⟩

/-- A sequence goes on from where its first part leaves off. -/
theorem bind {r : Reader α} {g : α → Reader β} {s : Bytes} (hr : LexesAt floor m m' r s)
    (hg : ∀ a s', r s = (.ok a, s') → LexesAt floor m' m'' (g a) s') :
    LexesAt floor m m'' (r >>= g) s where
  ok := hr.ok.bind fun a s' h => (hg a s' h).ok
  error := by
    intro e s₂ h d hd
    rcases hrs : r s with ⟨e' | a, s₁⟩
    · rw [bind_of_error hrs] at h
      cases h
      exact hr.error _ _ hrs d hd
    · rw [bind_of_ok hrs] at h
      obtain ⟨c₁, rfl, hc₁⟩ := hr.ok a s₁ hrs
      rw [lex_of_append (lex_add hc₁ d)] at hd
      obtain ⟨c₂, q, rfl, hc₂, hq⟩ := (hg a s₁ hrs).error e s₂ h d hd
      exact ⟨c₁ ++ c₂, q, by simp, by rw [lex_of_append hc₁, hc₂], hq⟩

/-- A byte with a known effect, and then another reader. -/
theorem cons {r r' : Reader α} {b : UInt8} {s : Bytes}
    (hb : lexByte (floor, m) b = some (floor, m')) (hr : r (b :: s) = r' s)
    (h : LexesAt floor m' m'' r' s) : LexesAt floor m m'' r (b :: s) where
  ok := by
    intro a s' hok
    obtain ⟨c, hs, hc⟩ := h.ok a s' (hr.symm.trans hok)
    exact ⟨b :: c, congrArg _ hs, by rw [lex_cons, hb]; exact hc⟩
  error := by
    intro e s' herr d hd
    rw [lex_cons, lexByte_add hb d] at hd
    obtain ⟨c, q, hs, hc, hq⟩ := h.error e s' (hr.symm.trans herr) d hd
    exact ⟨b :: c, q, congrArg _ hs, by rw [lex_cons, hb]; exact hc, hq⟩

/-- One byte with a known effect. -/
theorem advance {b : UInt8} (s : Bytes) (h : lexByte (floor, m) b = some (floor, m')) :
    LexesAt floor m m' advance (b :: s) where
  ok := Passes.advance s h
  error := by
    intro e s' hr
    cases hr

end LexesAt

theorem exists_lexByte_of_cons {p : Place} {b : UInt8} {s : Bytes} (h : (lex p (b :: s)).isSome) :
    ∃ q, lexByte p b = some q ∧ (lex q s).isSome := by
  rw [lex_cons] at h
  cases hb : lexByte p b with
  | none =>
    rw [hb] at h
    cases h
  | some q =>
    rw [hb] at h
    exact ⟨q, rfl, h⟩

theorem LexesAt.peek (s : Bytes) : LexesAt floor .plain .plain peek s where
  ok := by
    intro a s' h
    cases h
    exact ⟨_, List.takeWhile_append_dropWhile.symm, lex_takeWhile_isSpace s floor⟩
  error := by
    intro e s' h
    cases h

/-- Looking ahead finds the end or a byte that is not white space. -/
theorem LexesAt.peek_bind {g : Option UInt8 → Reader β} {s : Bytes}
    (hnone : LexesAt floor .plain m' (g none) [])
    (hsome : ∀ b t, isSpace b = false → LexesAt floor .plain m' (g (some b)) (b :: t)) :
    LexesAt floor .plain m' (Json.peek >>= g) s := by
  refine (LexesAt.peek s).bind fun a s' h => ?_
  cases h
  cases hs : s.dropWhile isSpace with
  | nil => exact hnone
  | cons b t =>
    have hb : isSpace b = false := by
      have hne : s.dropWhile isSpace ≠ [] := by simp [hs]
      simpa [hs] using List.head_dropWhile_not isSpace hne
    exact hsome b t hb

def Escape.mode : Escape → Mode
  | .plain | .hex _ _ _ | .awaitSlash _ => .text
  | .slash | .awaitU _ => .escape

private theorem isHexDigit_ne {b : UInt8} {d : Nat} (h : hexValue? (Char.ofNat b.toNat) = some d) :
    b ≠ byte '"' ∧ b ≠ byte '\\' := by
  have hq : hexValue? (Char.ofNat (byte '"').toNat) = none := by decide
  have hs : hexValue? (Char.ofNat (byte '\\').toNat) = none := by decide
  constructor
  · rintro rfl
    rw [hq] at h
    cases h
  · rintro rfl
    rw [hs] at h
    cases h

private theorem lexByte_text {b : UInt8} (depth : Nat) (hq : b ≠ byte '"') (hs : b ≠ byte '\\') :
    lexByte (depth, .text) b = some (depth, .text) := by
  simp [lexByte, hq, hs]

private theorem exists_lexByte_text (depth : Nat) {m : Mode} (hm : m = .text ∨ m = .escape)
    (b : UInt8) : ∃ q, lexByte (depth, m) b = some q ∧ q.1 = depth := by
  rcases hm with rfl | rfl
  · simp only [lexByte]
    split_ifs <;> exact ⟨_, rfl, rfl⟩
  · exact ⟨_, rfl, rfl⟩

/-- Where a step inside a text leads: nowhere in particular, out of the text or on inside it. -/
private def Leads (depth : Nat) (m : Mode) (b : UInt8) : Step → Prop
  | .fault => ∃ q, lexByte (depth, m) b = some q ∧ q.1 = depth
  | .close => lexByte (depth, m) b = some (depth, .plain)
  | .go e _ => lexByte (depth, m) b = some (depth, e.mode)

private theorem leads_ofUnit {depth : Nat} {m : Mode} {b : UInt8}
    (h : lexByte (depth, m) b = some (depth, .text)) (first : Option Nat) (n : Nat) :
    Leads depth m b (Step.ofUnit first n) := by
  unfold Step.ofUnit
  cases first with
  | none =>
    simp only
    split_ifs
    · exact ⟨_, h, rfl⟩
    · exact h
    · exact h
  | some first =>
    simp only
    split_ifs
    · exact h
    · exact ⟨_, h, rfl⟩

private theorem leads_step (depth : Nat) (e : Escape) (b : UInt8) :
    Leads depth e.mode b (e.step b) := by
  cases e with
  | plain =>
    unfold Escape.step
    simp only
    split_ifs with hq hs hc
    · simp [Leads, Escape.mode, lexByte, hq]
    · subst hs
      rfl
    · exact exists_lexByte_text depth (.inl rfl) b
    · exact lexByte_text depth hq hs
  | slash =>
    unfold Escape.step
    simp only
    split_ifs
    all_goals first | rfl | exact exists_lexByte_text depth (.inr rfl) b
  | hex first left value =>
    unfold Escape.step
    cases hd : hexValue? (Char.ofNat b.toNat) with
    | none =>
      simp only
      exact exists_lexByte_text depth (.inl rfl) b
    | some d =>
      obtain ⟨hq, hs⟩ := isHexDigit_ne hd
      simp only
      split_ifs
      · exact leads_ofUnit (lexByte_text depth hq hs) first _
      · exact lexByte_text depth hq hs
  | awaitSlash first =>
    unfold Escape.step
    simp only
    split_ifs with hb
    · subst hb
      rfl
    · exact exists_lexByte_text depth (.inl rfl) b
  | awaitU first =>
    unfold Escape.step
    simp only
    split_ifs
    · rfl
    · exact exists_lexByte_text depth (.inr rfl) b

/-- Reading a text to its end leads out of it. Where reading stops, no bracket was passed. -/
private theorem quoted_places (depth : Nat) (e : Escape) (done s : Bytes) :
    match quoted e done s with
    | (.ok _, s') => ∃ c, s = c ++ s' ∧ lex (depth, e.mode) c = some (depth, .plain)
    | (.error _, s') => ∃ c q, s = c ++ s' ∧ lex (depth, e.mode) c = some q ∧ q.1 = depth := by
  induction s generalizing e done with
  | nil => exact ⟨[], _, rfl, rfl, rfl⟩
  | cons b s ih =>
    have hb := leads_step depth e b
    unfold quoted
    cases hstep : e.step b with
    | fault =>
      rw [hstep] at hb
      obtain ⟨q, hq, hd⟩ := hb
      exact ⟨[b], q, rfl, by rw [lex_cons, hq]; rfl, hd⟩
    | close =>
      rw [hstep] at hb
      have hb : lexByte (depth, e.mode) b = some (depth, .plain) := hb
      exact ⟨[b], rfl, by rw [lex_cons, hb]; rfl⟩
    | go e' out =>
      rw [hstep] at hb
      have hb : lexByte (depth, e.mode) b = some (depth, e'.mode) := hb
      have hrec := ih e' (out.reverse ++ done)
      simp only
      split at hrec
      · rename_i heq
        obtain ⟨c, hs, hc⟩ := hrec
        exact ⟨b :: c, by rw [hs]; rfl, by rw [lex_cons, hb]; exact hc⟩
      · rename_i heq
        obtain ⟨c, q, hs, hc, hd⟩ := hrec
        exact ⟨b :: c, q, by rw [hs]; rfl, by rw [lex_cons, hb]; exact hc, hd⟩

theorem LexesAt.textBody (s : Bytes) : LexesAt floor .text .plain textBody s := by
  have hplaces := quoted_places floor .plain [] s
  unfold Json.textBody
  rcases hq : quoted .plain [] s with ⟨e | b, s'⟩
  · rw [hq] at hplaces
    obtain ⟨c, q, hs, hc, hd⟩ := hplaces
    constructor
    · intro a t h
      simp only [hq] at h
      cases h
    · intro e' t h d _
      simp only [hq] at h
      cases h
      exact ⟨c, q, hs, hc, Nat.le_of_eq hd.symm⟩
  · rw [hq] at hplaces
    obtain ⟨c, hs, hc⟩ := hplaces
    constructor
    · intro a t h
      simp only [hq] at h
      split at h <;> cases h
      exact ⟨c, hs, hc⟩
    · intro e' t h d _
      simp only [hq] at h
      split at h <;> cases h
      exact ⟨c, _, hs, hc, Nat.le_refl _⟩

def SkipState.mode : SkipState → Mode
  | .plain | .hex _ => .text
  | .slash => .escape

/-- A text that is passed over to its end. -/
theorem passes_skipQuoted (depth : Nat) (e : SkipState) (s : Bytes) :
    Passes (depth, e.mode) (depth, .plain) (skipQuoted e : Reader Unit) s := by
  intro _ s' h
  induction s generalizing e with
  | nil => cases e <;> cases h
  | cons b t ih =>
    have hcons (e' : SkipState) (hb : lexByte (depth, e.mode) b = some (depth, e'.mode))
        (ht : skipQuoted e' t = (.ok (), s')) :
        ∃ c, b :: t = c ++ s' ∧ lex (depth, e.mode) c = some (depth, .plain) := by
      obtain ⟨c, rfl, hc⟩ := ih e' ht
      exact ⟨b :: c, rfl, by rw [lex_cons, hb]; exact hc⟩
    cases e with
    | plain =>
      unfold skipQuoted at h
      split_ifs at h with hq hs hc
      · cases h
        subst hq
        exact ⟨[byte '"'], rfl, rfl⟩
      · subst hs
        exact hcons .slash rfl h
      · cases h
      · exact hcons .plain (lexByte_text depth hq hs) h
    | slash =>
      unfold skipQuoted at h
      split_ifs at h
      · exact hcons (.hex 4) rfl h
      · exact hcons .plain rfl h
      · cases h
    | hex left =>
      unfold skipQuoted at h
      cases hd : hexValue? (Char.ofNat b.toNat) with
      | none =>
        rw [hd] at h
        cases h
      | some d =>
        obtain ⟨hq, hs⟩ := isHexDigit_ne hd
        simp only [hd, Option.isNone_some, Bool.false_eq_true, if_false] at h
        split_ifs at h
        · exact hcons .plain (lexByte_text depth hq hs) h
        · exact hcons (.hex (left - 1)) (lexByte_text depth hq hs) h

/-- A reader that passes over bytes of numbers only, whether it succeeds or not. -/
def Numeric (r : Reader α) (s : Bytes) : Prop :=
  ∃ c, s = c ++ (r s).2 ∧ ∀ b ∈ c, isNumberByte b = true

namespace Numeric

theorem of_snd_eq {r : Reader α} {s : Bytes} (h : (r s).2 = s) : Numeric r s :=
  ⟨[], by rw [h]; rfl, by simp⟩

theorem bind {r : Reader α} {g : α → Reader β} {s : Bytes} (hr : Numeric r s)
    (hg : ∀ a s', r s = (.ok a, s') → Numeric (g a) s') : Numeric (r >>= g) s := by
  obtain ⟨c, hs, hc⟩ := hr
  rcases hrs : r s with ⟨e | a, s'⟩
  · rw [hrs] at hs
    exact ⟨c, by rw [bind_of_error hrs]; exact hs, hc⟩
  · rw [hrs] at hs
    obtain ⟨c', hs', hc'⟩ := hg a s' hrs
    refine ⟨c ++ c', ?_, fun b hb => ?_⟩
    · rw [bind_of_ok hrs, List.append_assoc, ← hs']
      exact hs
    · rcases List.mem_append.mp hb with hb | hb
      · exact hc b hb
      · exact hc' b hb

private theorem advance {b : UInt8} (hb : isNumberByte b = true) (s : Bytes) :
    Numeric advance (b :: s) :=
  ⟨[b], rfl, by simpa using hb⟩

private theorem isNumberByte_of_isDigit {b : UInt8} (hb : isDigit b = true) :
    isNumberByte b = true := by
  simp [isNumberByte, hb]

private theorem digitRun (s : Bytes) : Numeric digitRun s :=
  ⟨s.takeWhile isDigit, List.takeWhile_append_dropWhile.symm,
    fun b hb => isNumberByte_of_isDigit (List.all_eq_true.mp List.all_takeWhile b hb)⟩

private theorem digitRun1 (s : Bytes) : Numeric digitRun1 s := by
  refine (digitRun s).bind fun ds s' _ => ?_
  split_ifs <;> exact of_snd_eq rfl

private theorem wholeDigits (s : Bytes) : Numeric wholeDigits s := by
  refine (digitRun1 s).bind fun ds s' _ => ?_
  split_ifs <;> exact of_snd_eq rfl

/-- A byte that may be passed over if it is next. -/
private theorem advance_of_head? {b : UInt8} {s : Bytes} (hb : isNumberByte b = true)
    (hs : s.head? = some b) : Numeric Json.advance s := by
  cases s with
  | nil => cases hs
  | cons x s =>
    obtain rfl := Option.some.inj hs
    exact advance hb s

private theorem fraction? (s : Bytes) : Numeric fraction? s := by
  refine (of_snd_eq rfl).bind fun s₀ s' h => ?_
  cases h
  split_ifs with hdot
  · refine (advance_of_head? (by decide) hdot).bind fun _ s₁ _ => ?_
    exact (digitRun1 s₁).bind fun _ _ _ => of_snd_eq rfl
  · exact of_snd_eq rfl

private theorem exponentSign (s : Bytes) : Numeric exponentSign s := by
  refine (of_snd_eq rfl).bind fun s₀ s' h => ?_
  cases h
  simp only
  split_ifs with hsign
  · refine Numeric.bind ?_ fun _ _ _ => of_snd_eq rfl
    rcases hsign with hsign | hsign <;> exact advance_of_head? (by decide) hsign
  · exact of_snd_eq rfl

private theorem exponentLetter (s : Bytes) : Numeric exponentLetter s := by
  refine (of_snd_eq rfl).bind fun s₀ s' h => ?_
  cases h
  simp only
  split_ifs with hletter
  · refine Numeric.bind ?_ fun _ _ _ => of_snd_eq rfl
    rcases hletter with hletter | hletter <;> exact advance_of_head? (by decide) hletter
  · exact of_snd_eq rfl

private theorem exponentValue (tooLarge : Bool) (n : Nat) (s : Bytes) :
    Numeric (exponentValue tooLarge n : Reader (Option Nat)) s := by
  induction s generalizing n with
  | nil => exact of_snd_eq rfl
  | cons b s ih =>
    unfold Numeric Json.exponentValue
    by_cases hb : isDigit b = true
    · simp only [hb, if_true]
      split_ifs
      · obtain ⟨c, hs, hc⟩ := ih (10 * n + (b.toNat - 0x30))
        exact ⟨b :: c, congrArg (b :: ·) hs, by simpa [isNumberByte_of_isDigit hb] using hc⟩
      · exact ⟨[b], rfl, by simpa using isNumberByte_of_isDigit hb⟩
      · obtain ⟨c, hs, hc⟩ := digitRun s
        exact ⟨b :: c, congrArg (b :: ·) hs, by simpa [isNumberByte_of_isDigit hb] using hc⟩
    · simp only [hb]
      exact of_snd_eq (r := fun s => (Except.ok (some n), s)) rfl

theorem skipNumber (s : Bytes) : Numeric skipNumber s := by
  have htail (s : Bytes) : Numeric (do
      let _ ← Json.wholeDigits
      let _ ← Json.fraction?
      if ← Json.exponentLetter then
        let _ ← Json.exponentSign
        let _ ← Json.digitRun1) s := by
    refine (wholeDigits s).bind fun _ s₁ _ => (fraction? s₁).bind fun _ s₂ _ => ?_
    refine (exponentLetter s₂).bind fun hasExponent s₃ _ => ?_
    split_ifs
    · exact (exponentSign s₃).bind fun _ s₄ _ => (digitRun1 s₄).bind fun _ _ _ => of_snd_eq rfl
    · exact of_snd_eq rfl
  unfold Json.skipNumber
  refine (of_snd_eq rfl).bind fun s₀ s' h => ?_
  cases h
  split_ifs with hminus
  · exact (advance_of_head? (by decide) hminus).bind fun _ s₁ _ => htail s₁
  · exact htail s

private theorem scaled (significand : Nat) (scale : Int) (s : Bytes) :
    Numeric (do
      if beyondDouble significand scale then MonadExcept.throw Fault.grammar
      return Number.real) s := by
  split_ifs <;> exact of_snd_eq rfl

/-- A number from its exponent on. -/
private theorem exponent (significand : Nat) (scale : Int) (s : Bytes) :
    Numeric (do
      let shrinking ← Json.exponentSign
      if ¬ ((← get).head?.any isDigit) then MonadExcept.throw Fault.grammar
      match ← (Json.exponentValue (¬ shrinking ∧ significand ≠ 0) 0 : Reader (Option Nat)) with
      | none => return Number.real
      | some e =>
        let exponent : Int := if shrinking then -e else e
        if beyondDouble significand (scale + exponent) then MonadExcept.throw Fault.grammar
        return Number.real) s := by
  refine (exponentSign s).bind fun shrinking s₁ _ => (of_snd_eq rfl).bind fun s₂ s' h => ?_
  cases h
  dsimp only
  split
  · exact of_snd_eq rfl
  · refine (exponentValue _ _ _).bind fun e s₃ _ => ?_
    cases e with
    | none => exact of_snd_eq rfl
    | some e => exact scaled _ _ _

theorem number (s : Bytes) : Numeric number s := by
  unfold Json.number
  refine (of_snd_eq rfl).bind fun s₀ s' h => ?_
  cases h
  dsimp only
  split_ifs with hminus
  · refine (advance_of_head? (by decide) hminus).bind fun _ s₁ _ => ?_
    refine (wholeDigits s₁).bind fun ds s₂ _ => (fraction? s₂).bind fun fraction s₃ _ => ?_
    refine (exponentLetter s₃).bind fun hasExponent s₄ _ => ?_
    split_ifs
    all_goals first | exact of_snd_eq rfl | exact exponent _ _ _
  · refine (wholeDigits s).bind fun ds s₂ _ => (fraction? s₂).bind fun fraction s₃ _ => ?_
    refine (exponentLetter s₃).bind fun hasExponent s₄ _ => ?_
    split_ifs
    all_goals first | exact of_snd_eq rfl | exact exponent _ _ _

private theorem lex_numeric {c : Bytes} (hc : ∀ b ∈ c, isNumberByte b = true) (depth : Nat) :
    lex (depth, .plain) c = some (depth, .plain) := by
  induction c with
  | nil => rfl
  | cons b c ih =>
    have hb : lexByte (depth, .plain) b = some (depth, .plain) := by
      simp [lexByte, plainByte, hc b (by simp)]
    rw [lex_cons, hb]
    exact ih fun x hx => hc x (by simp [hx])

theorem lexesAt {r : Reader α} {s : Bytes} (h : Numeric r s) : LexesAt floor .plain .plain r s := by
  obtain ⟨c, hs, hc⟩ := h
  constructor
  · intro a s' hr
    rw [hr] at hs
    exact ⟨c, hs, lex_numeric hc floor⟩
  · intro e s' hr d _
    rw [hr] at hs
    exact ⟨c, _, hs, lex_numeric hc floor, Nat.le_refl _⟩

end Numeric

private def wordMode (left : List Char) : Mode :=
  if left = [] then .plain else .word (left.map byte)

private theorem lexByte_word (c : Char) (left : List Char) (depth : Nat) (b : UInt8) :
    lexByte (depth, wordMode (c :: left)) b =
      if b = byte c then some (depth, wordMode left) else none := by
  unfold wordMode
  cases left <;> simp [lexByte]

theorem LexesAt.literalTail (left : List Char) (s : Bytes) :
    LexesAt floor (wordMode left) .plain (literal left) s := by
  induction left generalizing s with
  | nil => exact .pure () s
  | cons c left ih =>
    cases s with
    | nil =>
      constructor
      · intro a s' h
        cases h
      · intro e s' h
        cases h
        exact fun _ _ => ⟨[], _, rfl, rfl, Nat.le_refl _⟩
    | cons b s =>
      have hlit : literal (c :: left) (b :: s) =
          (if some b = some (byte c) then literal left else MonadExcept.throw .grammar) s := rfl
      by_cases hb : b = byte c
      · subst hb
        rw [if_pos rfl] at hlit
        exact .cons (by rw [lexByte_word, if_pos rfl]) hlit (ih s)
      · constructor
        · intro a s' h
          rw [hlit, if_neg (by simpa using hb)] at h
          cases h
        · intro e s' h d hd
          rw [lex_cons, lexByte_word, if_neg hb] at hd
          cases hd

/-- A literal from its first letter on. -/
theorem LexesAt.literal {b : UInt8} {word : List Char} (h : literalFrom b = some word) (s : Bytes) :
    LexesAt floor .plain .plain (literal word) (b :: s) := by
  unfold literalFrom at h
  split_ifs at h with h₁ h₂ h₃ <;> cases h
  · subst h₁
    exact .cons rfl rfl (.literalTail ['u', 'l', 'l'] s)
  · subst h₂
    exact .cons rfl rfl (.literalTail ['r', 'u', 'e'] s)
  · subst h₃
    exact .cons rfl rfl (.literalTail ['a', 'l', 's', 'e'] s)

namespace LexesAt

/-- A quoted text from its opening quote on. -/
theorem quotedText (s : Bytes) {g : String → Reader α}
    (hg : ∀ a s', LexesAt floor .plain .plain (g a) s') :
    LexesAt floor .plain .plain (do Json.advance; g (← Json.textBody)) (byte '"' :: s) :=
  (LexesAt.advance s rfl).bind fun _ s' h => by
    cases h
    exact (LexesAt.textBody s).bind fun a s' _ => hg a s'

theorem mismatch (s : Bytes) : LexesAt floor .plain .plain (mismatch : Reader α) s := by
  refine .peek_bind (.throw _ _) fun b t _ => ?_
  dsimp only
  split
  · exact (LexesAt.literal ‹_› t).bind fun _ s' _ => .throw _ s'
  · split_ifs with hnumber hquote hopen
    · exact (Numeric.number (b :: t)).lexesAt.bind fun _ s' _ => .throw _ s'
    · subst hquote
      exact quotedText t fun _ s' => .throw _ s'
    · exact .throw _ _
    · exact .throw _ _

theorem readText (s : Bytes) : LexesAt floor .plain .plain readText s := by
  refine .peek_bind (mismatch []) fun b t _ => ?_
  by_cases hb : b = byte '"'
  · subst hb
    exact quotedText t fun _ s' => .pure _ s'
  · rw [if_neg (by simpa using hb)]
    exact mismatch _

theorem readInt64 (s : Bytes) : LexesAt floor .plain .plain readInt64 s := by
  refine .peek_bind (.throw _ _) fun b t _ => ?_
  dsimp only
  split_ifs
  · refine (Numeric.number (b :: t)).lexesAt.bind fun n s' _ => ?_
    cases n with
    | whole n =>
      dsimp only
      split_ifs
      · exact .pure _ s'
      · exact .throw _ s'
    | real => exact .throw _ s'
  · exact mismatch _

theorem readBool (s : Bytes) : LexesAt floor .plain .plain readBool s := by
  refine .peek_bind (mismatch []) fun b t _ => ?_
  split_ifs with ht hf
  · obtain rfl := Option.some.inj ht
    exact (LexesAt.literal rfl t).bind fun _ s' _ => .pure _ s'
  · obtain rfl := Option.some.inj hf
    exact (LexesAt.literal rfl t).bind fun _ s' _ => .pure _ s'
  · exact mismatch _

theorem readOption {r : Reader Json} (hr : ∀ s, LexesAt floor .plain .plain r s) (s : Bytes) :
    LexesAt floor .plain .plain (readOption r) s := by
  refine .peek_bind (hr []) fun b t _ => ?_
  split_ifs with hn
  · obtain rfl := Option.some.inj hn
    exact (LexesAt.literal rfl t).bind fun _ s' _ => .pure _ s'
  · exact hr _

end LexesAt

end Turnstile.Json
