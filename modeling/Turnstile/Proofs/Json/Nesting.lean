import Turnstile.Json.Outline
import Turnstile.Json.Shape
import Turnstile.Proofs.Json.Places

/-! The places lists and records are read from and to, and values that are passed over. -/

namespace Turnstile.Json

variable {α β : Type} {floor : Nat} {m m' m'' : Mode}

namespace LexesAt

/-- A separator stands inside brackets. -/
private theorem separator {b : UInt8} (hb : b = byte ',' ∨ b = byte ':') (s : Bytes) :
    LexesAt (floor + 1) .plain .plain Json.advance (b :: s) := by
  rcases hb with rfl | rfl <;> exact .advance s rfl

theorem colon (s : Bytes) : LexesAt (floor + 1) .plain .plain colon s := by
  refine .peek_bind (.throw _ _) fun b t _ => ?_
  split_ifs with hb
  · obtain rfl := Option.some.inj hb
    exact separator (.inr rfl) t
  · exact .throw _ _

theorem hasItem (first : Bool) (s : Bytes) :
    LexesAt (floor + 1) .plain .plain (hasItem first) s := by
  refine .peek_bind (.throw _ _) fun b t _ => ?_
  dsimp only
  split_ifs with hclose hfirst hcomma
  · exact .pure _ _
  · exact .pure _ _
  · refine (separator (.inl hcomma) t).bind fun _ s' _ => ?_
    refine .peek_bind (.throw _ _) fun b' t' _ => ?_
    dsimp only
    split_ifs
    · exact .throw _ _
    · exact .pure _ _
  · exact .throw _ _

theorem memberName? (first : Bool) (s : Bytes) :
    LexesAt (floor + 1) .plain .plain (memberName? first) s := by
  have hname (s : Bytes) : LexesAt (floor + 1) .plain .plain (do
      if (← Json.peek) = some (byte '"') then
        Json.advance
        return some (← Json.textBody)
      else MonadExcept.throw Fault.grammar) s := by
    refine .peek_bind (.throw _ _) fun b t _ => ?_
    by_cases hb : b = byte '"'
    · subst hb
      exact quotedText t fun _ s' => .pure _ s'
    · rw [if_neg (by simpa using hb)]
      exact .throw _ _
  refine .peek_bind (.throw _ _) fun b t _ => ?_
  dsimp only
  split_ifs with hclose hfirst hcomma
  · exact .pure _ _
  · exact hname _
  · exact .throw _ _
  · obtain rfl := Classical.not_not.mp hcomma
    exact (separator (.inl rfl) t).bind fun _ s' _ => hname s'

theorem items {item : Reader α} (hitem : ∀ s, LexesAt (floor + 1) .plain .plain item s)
    (fuel : Nat) (first : Bool) (s : Bytes) :
    LexesAt (floor + 1) .plain .plain (items item fuel first) s := by
  induction fuel generalizing first s with
  | zero => exact .throw _ s
  | succ fuel ih =>
    refine (hasItem first s).bind fun more s' _ => ?_
    split_ifs
    · exact (hitem s').bind fun v s₂ _ => (ih false s₂).bind fun vs s₃ _ => .pure _ s₃
    · exact .pure _ s'

theorem members {value : Reader α} (hvalue : ∀ s, LexesAt (floor + 1) .plain .plain value s)
    (fuel : Nat) (first : Bool) (s : Bytes) :
    LexesAt (floor + 1) .plain .plain (members value fuel first) s := by
  induction fuel generalizing first s with
  | zero => exact .throw _ s
  | succ fuel ih =>
    refine (memberName? first s).bind fun name s' _ => ?_
    cases name with
    | none => exact .pure _ s'
    | some name =>
      exact (colon s').bind fun _ s₁ _ => (hvalue s₁).bind fun v s₂ _ =>
        (ih false s₂).bind fun vs s₃ _ => .pure _ s₃

end LexesAt

/-- A reader that passes over white space and at most one byte: a closing bracket if it succeeds, and
otherwise a comma. -/
def Closes (close : Reader Unit) : Prop :=
  ∀ s, ∃ ws c, s = ws ++ c ++ (close s).2 ∧ (∀ b ∈ ws, isSpace b = true) ∧ c.length ≤ 1 ∧
    ∀ depth, lex (depth + 1, .plain) c =
      some (match (close s).1 with | .ok _ => depth | .error _ => depth + 1, .plain)

/-- What follows the white space before a closing bracket. -/
private theorem closes_of_peek {close : Reader Unit} {g : Option UInt8 → Reader Unit}
    (hg : close = Json.peek >>= g)
    (hnone : ∃ e, g none [] = (.error e, []))
    (hsome : ∀ b t, ∃ c, b :: t = c ++ (g (some b) (b :: t)).2 ∧ c.length ≤ 1 ∧
      ∀ depth, lex (depth + 1, .plain) c =
        some (match (g (some b) (b :: t)).1 with | .ok _ => depth | .error _ => depth + 1, .plain)) :
    Closes close := by
  intro s
  have hrun : close s = g (s.dropWhile isSpace).head? (s.dropWhile isSpace) := by rw [hg]; rfl
  refine ⟨s.takeWhile isSpace, ?_⟩
  cases hs : s.dropWhile isSpace with
  | nil =>
    obtain ⟨e, he⟩ := hnone
    rw [hrun, hs, List.head?_nil, he]
    refine ⟨[], ?_, fun b => isSpace_of_mem_takeWhile, by simp, fun depth => rfl⟩
    simpa [hs] using (List.takeWhile_append_dropWhile (p := isSpace) (l := s)).symm
  | cons b t =>
    obtain ⟨c, hc, hlen, hlex⟩ := hsome b t
    rw [hrun, hs, List.head?_cons]
    refine ⟨c, ?_, fun b => isSpace_of_mem_takeWhile, hlen, hlex⟩
    rw [List.append_assoc, ← hc, ← hs, List.takeWhile_append_dropWhile]

theorem closes_closeRecord : Closes closeRecord := by
  refine closes_of_peek rfl ⟨_, rfl⟩ fun b t => ?_
  by_cases hb : b = byte '\x7d'
  · subst hb
    exact ⟨[byte '\x7d'], rfl, by simp, fun depth => rfl⟩
  · rw [if_neg (by simpa using hb)]
    exact ⟨[], rfl, by simp, fun depth => rfl⟩

/-- A record that is closed has been left. -/
theorem passes_closeRecord (s : Bytes) :
    Passes (floor + 1, .plain) (floor, .plain) closeRecord s := by
  intro _ s' h
  obtain ⟨ws, c, hs, hws, -, hlex⟩ := closes_closeRecord s
  rw [h] at hs hlex
  exact ⟨ws ++ c, hs, by rw [lex_of_append (lex_spaces hws _), hlex]⟩

theorem closes_closeList : Closes closeList := by
  refine closes_of_peek rfl ⟨_, rfl⟩ fun b t => ?_
  by_cases hb : b = byte ']'
  · subst hb
    exact ⟨[byte ']'], rfl, by simp, fun depth => rfl⟩
  · rw [if_neg (by simpa using hb)]
    by_cases hcomma : b = byte ','
    · subst hcomma
      exact ⟨[byte ','], rfl, by simp, fun depth => rfl⟩
    · rw [if_neg (by simpa using hcomma)]
      exact ⟨[], rfl, by simp, fun depth => rfl⟩

/-- One byte closes one bracket at most, and white space none, if the bytes make sense at all. -/
private theorem exists_lexByte {depth k : Nat} {m : Mode} {b : UInt8}
    (h : (lexByte (depth + 1 + k, m) b).isSome) :
    ∃ q, lexByte (depth + 1, m) b = some q ∧ depth ≤ q.1 ∧
      (isSpace b = true → q.1 = depth + 1) := by
  cases m with
  | plain =>
    simp only [lexByte, plainByte] at h ⊢
    split_ifs at h ⊢ with h₁ h₂ h₃ h₄ h₅
    · exact ⟨_, rfl, Nat.le_succ _, fun _ => rfl⟩
    · exact ⟨_, rfl, Nat.le_succ _, fun _ => rfl⟩
    · exact ⟨_, rfl, Nat.le_add_right depth 2, fun hb => by simp [hb] at h₁⟩
    · exact ⟨_, rfl, Nat.le_refl _, fun hb => by simp [hb] at h₁⟩
    · exact ⟨_, rfl, Nat.le_succ _, fun _ => rfl⟩
    · cases hw : literalFrom b with
      | none =>
        rw [hw] at h
        cases h
      | some word => exact ⟨_, rfl, Nat.le_succ _, fun _ => rfl⟩
  | word left =>
    cases left with
    | nil => cases h
    | cons c left =>
      simp only [lexByte] at h ⊢
      split_ifs at h ⊢
      · exact ⟨_, rfl, Nat.le_succ _, fun _ => rfl⟩
      · exact ⟨_, rfl, Nat.le_succ _, fun _ => rfl⟩
      · cases h
  | text =>
    simp only [lexByte]
    split_ifs <;> exact ⟨_, rfl, Nat.le_succ _, fun _ => rfl⟩
  | escape => exact ⟨_, rfl, Nat.le_succ _, fun _ => rfl⟩

private theorem exists_lex_spaces {ws : Bytes} (hws : ∀ b ∈ ws, isSpace b = true) {depth k : Nat}
    {m : Mode} (h : (lex (depth + 1 + k, m) ws).isSome) :
    ∃ m', lex (depth + 1, m) ws = some (depth + 1, m') := by
  induction ws generalizing m with
  | nil => exact ⟨m, rfl⟩
  | cons b ws ih =>
    obtain ⟨p, hp, hrest⟩ := exists_lexByte_of_cons h
    obtain ⟨⟨depth', m'⟩, hq, -, hspace⟩ := exists_lexByte (Option.isSome_of_eq_some hp)
    obtain rfl : depth' = depth + 1 := hspace (hws b (by simp))
    obtain rfl := Option.some.inj (hp.symm.trans (lexByte_add hq k))
    obtain ⟨m'', hlex⟩ := ih (fun x hx => hws x (by simp [hx])) hrest
    exact ⟨m'', by rw [lex_cons, hq]; exact hlex⟩

/-- A value between brackets. Where the inside fails, at most one closing bracket is passed over after
it, so the place is still not outside of the value. -/
theorem LexesAt.enclosed {b : UInt8} {t : Bytes} {inside r : Reader α} {close : Reader Unit}
    (hb : lexByte (floor, .plain) b = some (floor + 1, .plain))
    (hin : LexesAt (floor + 1) .plain .plain inside t) (hclose : Closes close)
    (hr : r (b :: t) = enclosed inside close t) : LexesAt floor .plain .plain r (b :: t) where
  ok := by
    intro a s' hok
    obtain ⟨s₁, hi, hc⟩ := ok_of_enclosed_eq_ok (hr.symm.trans hok)
    obtain ⟨c₁, rfl, hlex₁⟩ := hin.ok a s₁ hi
    obtain ⟨ws, c, hs, hws, -, hlex⟩ := hclose s₁
    rw [hc] at hs hlex
    refine ⟨b :: (c₁ ++ (ws ++ c)), by rw [hs]; simp, ?_⟩
    rw [lex_cons, hb, Option.bind_some, lex_of_append hlex₁, lex_of_append (lex_spaces hws _)]
    exact hlex floor
  error := by
    intro e s' herr d hd
    obtain ⟨p, hp, hd⟩ := exists_lexByte_of_cons hd
    obtain rfl := Option.some.inj (hp.symm.trans (lexByte_add hb d))
    have henclosed : Json.enclosed inside close t = (.error e, s') := hr.symm.trans herr
    unfold Json.enclosed at henclosed
    rcases hi : inside t with ⟨e' | a, s₁⟩
    · -- The closing bracket is looked for wherever the inside has stopped.
      simp only [hi] at henclosed
      obtain ⟨c₁, ⟨depth, m⟩, rfl, hlex₁, hq₁⟩ := hin.error e' s₁ hi d hd
      obtain ⟨n, rfl⟩ : ∃ n, depth = n + 1 := ⟨depth - 1, by simp only at hq₁; omega⟩
      rw [lex_of_append (lex_add hlex₁ d)] at hd
      obtain ⟨ws, c, hs, hws, hlen, -⟩ := hclose s₁
      have hend : (close s₁).2 = s' := (Prod.mk.inj henclosed).2
      rw [hend] at hs
      rw [hs, List.append_assoc] at hd
      obtain ⟨q₂, hq₂, hrest⟩ := exists_lex_of_append hd
      obtain ⟨m', hlex₂⟩ := exists_lex_spaces hws (Option.isSome_of_eq_some hq₂)
      obtain rfl := Option.some.inj (hq₂.symm.trans (lex_add hlex₂ d))
      have hinside : lex (floor, .plain) (b :: (c₁ ++ ws)) = some (n + 1, m') := by
        rw [lex_cons, hb, Option.bind_some, lex_of_append hlex₁, hlex₂]
      cases c with
      | nil => exact ⟨b :: (c₁ ++ ws), _, by simpa using hs, hinside, by simp only at hq₁ ⊢; omega⟩
      | cons x c =>
        obtain rfl : c = [] := List.length_eq_zero_iff.mp (by simpa using hlen)
        obtain ⟨p, hp, -⟩ := exists_lexByte_of_cons hrest
        obtain ⟨q, hq, hle, -⟩ := exists_lexByte (Option.isSome_of_eq_some hp)
        refine ⟨b :: (c₁ ++ ws) ++ [x], q, by simpa using hs, ?_, by simp only at hq₁ ⊢; omega⟩
        rw [lex_of_append hinside, lex_cons, hq]
        rfl
    · obtain ⟨c₁, rfl, hlex₁⟩ := hin.ok a s₁ hi
      obtain ⟨ws, c, hs, hws, -, hlex⟩ := hclose s₁
      rcases hc : close s₁ with ⟨e' | u, s₂⟩
      · simp only [hi, hc] at henclosed
        have hend : s₂ = s' := (Prod.mk.inj henclosed).2
        rw [hc] at hs hlex
        refine ⟨b :: (c₁ ++ (ws ++ c)), (floor + 1, .plain), by rw [hs, ← hend]; simp, ?_,
          Nat.le_succ floor⟩
        rw [lex_cons, hb, Option.bind_some, lex_of_append hlex₁, lex_of_append (lex_spaces hws _)]
        exact hlex floor
      · simp only [hi, hc] at henclosed
        cases henclosed

namespace LexesAt

theorem readList {item : Reader Json} (hitem : ∀ s, LexesAt (floor + 1) .plain .plain item s)
    (s : Bytes) : LexesAt floor .plain .plain (readList item) s := by
  refine .peek_bind (mismatch []) fun b t _ => ?_
  by_cases hb : b = byte '['
  · subst hb
    rw [if_pos rfl]
    refine (LexesAt.enclosed rfl (items hitem (t.length + 1) true t) closes_closeList rfl).bind
      fun vs s' _ => .pure (list vs) s'
  · rw [if_neg (by simpa using hb)]
    exact mismatch _

private theorem outlineWith {inner : Option (Reader Outline)}
    (hinner : ∀ r ∈ inner, ∀ s, LexesAt (floor + 1) .plain .plain r s) (s : Bytes) :
    LexesAt floor .plain .plain (outlineWith inner) s := by
  refine .peek_bind (.throw _ _) fun b t _ => ?_
  cases inner with
  | none =>
    dsimp only
    split
    · exact (LexesAt.literal ‹_› t).bind fun _ s' _ => .pure _ s'
    · split_ifs with hnumber hquote
      · exact (Numeric.number (b :: t)).lexesAt.bind fun _ s' _ => .pure _ s'
      · subst hquote
        exact quotedText t fun _ s' => .pure _ s'
      · exact .throw _ _
  | some inner =>
    have hinner := hinner inner rfl
    dsimp only
    split
    · exact (LexesAt.literal ‹_› t).bind fun _ s' _ => .pure _ s'
    · split_ifs with hnumber hquote hlist hrecord
      · exact (Numeric.number (b :: t)).lexesAt.bind fun _ s' _ => .pure _ s'
      · subst hquote
        exact quotedText t fun _ s' => .pure _ s'
      · subst hlist
        exact (LexesAt.enclosed rfl (items hinner (t.length + 1) true t) closes_closeList rfl).bind
          fun vs s' _ => .pure (Outline.list vs) s'
      · subst hrecord
        exact (LexesAt.enclosed rfl (members hinner (t.length + 1) true t) closes_closeRecord
          rfl).bind fun ms s' _ => .pure (Outline.record ms) s'
      · exact .throw _ _

theorem outline (depth : Nat) (s : Bytes) : LexesAt floor .plain .plain (outline depth) s := by
  induction depth generalizing floor s with
  | zero => exact outlineWith (fun r hr => by cases hr) s
  | succ depth ih =>
    refine outlineWith (fun r hr s => ?_) s
    obtain rfl := Option.some.inj hr
    exact ih s

end LexesAt

/-- Looking ahead finds the end or a byte that is not white space. -/
private theorem Passes.peek_bind {depth : Nat} {q : Place} {g : Option UInt8 → Reader β} {s : Bytes}
    (hnone : Passes (depth, .plain) q (g none) [])
    (hsome : ∀ b t, Passes (depth, .plain) q (g (some b)) (b :: t)) :
    Passes (depth, .plain) q (Json.peek >>= g) s := by
  refine (LexesAt.peek s).ok.bind fun a s' h => ?_
  cases h
  cases hs : s.dropWhile isSpace with
  | nil => exact hnone
  | cons b t => exact hsome b t

/-- A member name that is passed over with its colon, and then another reader. -/
private theorem passes_skipName {q : Place} {rest : Reader α}
    (hrest : ∀ s, Passes (floor + 1, .plain) q rest s) (s : Bytes) :
    Passes (floor + 1, .plain) q (do
      if (← Json.peek) = some (byte '"') then
        Json.advance
        skipQuoted .plain
        colon
      else MonadExcept.throw Fault.grammar
      rest) s := by
  refine .peek_bind ((Passes.throw _ _).bind fun _ s' _ => hrest s') fun b t => ?_
  by_cases hb : b = byte '"'
  · subst hb
    refine (Passes.advance t rfl).bind fun _ s₁ _ => ?_
    refine (passes_skipQuoted _ .plain s₁).bind fun _ s₂ _ => ?_
    exact (LexesAt.colon s₂).ok.bind fun _ s' _ => hrest s'
  · rw [if_neg (by simpa using hb)]
    exact (Passes.throw _ _).bind fun _ s' _ => hrest s'

/-- Inside brackets: their end and what follows it, or a comma where it belongs and what is next. -/
private theorem passes_more {close : UInt8} {q : Place} {rest next : Reader α}
    (hclose : lexByte (floor + 1, .plain) close = some (floor, .plain)) (first : Bool)
    (hrest : ∀ s, Passes (floor, .plain) q rest s)
    (hnext : ∀ s, Passes (floor + 1, .plain) q next s) (s : Bytes) :
    Passes (floor + 1, .plain) q (do
      let b ← Json.peek
      if b = some close then
        Json.advance
        rest
      else
        if ¬ first then
          if b = some (byte ',') then Json.advance else MonadExcept.throw Fault.grammar
        next) s := by
  refine .peek_bind ?_ fun b t => ?_
  · rw [if_neg nofun]
    split_ifs with hfirst hcomma
    · exact hnext []
    · cases hcomma
    · exact (Passes.throw _ _).bind fun _ s' _ => hnext s'
  · dsimp only
    split_ifs with hend hfirst hcomma
    · obtain rfl := Option.some.inj hend
      exact (Passes.advance t hclose).bind fun _ s' _ => hrest s'
    · exact hnext _
    · obtain rfl := Option.some.inj hcomma
      exact (Passes.advance t rfl).bind fun _ s' _ => hnext s'
    · exact (Passes.throw _ _).bind fun _ s' _ => hnext s'

/-- Whatever brackets are open are closed in the end. -/
private theorem passes_skipFrom (fuel : Nat) (e : Expect) (stack : List Bracket) (s : Bytes) :
    Passes (floor + stack.length, .plain) (floor, .plain) (skipFrom fuel e stack) s := by
  induction fuel generalizing e stack s with
  | zero => exact .throw _ s
  | succ fuel ih =>
    cases e with
    | value =>
      refine .peek_bind (.throw _ _) fun b t => ?_
      by_cases hlist : b = byte '['
      · subst hlist
        exact (Passes.advance t rfl).bind fun _ s' h => ih _ (.list :: stack) s'
      by_cases hrecord : b = byte '\x7b'
      · subst hrecord
        exact (Passes.advance t rfl).bind fun _ s' h => ih _ (.record :: stack) s'
      dsimp only
      rw [if_neg hlist, if_neg hrecord]
      split
      · exact (LexesAt.literal ‹_› t).ok.bind fun _ s' _ => ih _ stack s'
      · split_ifs with hnumber hquote
        · exact (Numeric.skipNumber (b :: t)).lexesAt.ok.bind fun _ s' _ => ih _ stack s'
        · subst hquote
          refine (Passes.advance t rfl).bind fun _ s₁ _ => ?_
          exact (passes_skipQuoted _ .plain s₁).bind fun _ s' _ => ih _ stack s'
        · exact (Passes.throw _ _).bind fun _ s' _ => ih _ stack s'
    | more first =>
      cases stack with
      | nil => exact .pure () s
      | cons bracket stack =>
        cases bracket with
        | record =>
          exact passes_more rfl first (ih (.more false) stack)
            (passes_skipName (ih .value (.record :: stack))) s
        | list => exact passes_more rfl first (ih (.more false) stack) (ih .value (.list :: stack)) s

/-- A value is passed over together with all of its brackets. -/
theorem passes_skipValue (s : Bytes) :
    Passes (floor, .plain) (floor, .plain) skipValue s :=
  fun a s' h => passes_skipFrom (2 * (s.length + 1)) .value [] s a s' h

end Turnstile.Json
