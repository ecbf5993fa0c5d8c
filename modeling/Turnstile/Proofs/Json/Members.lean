import Mathlib.Data.List.DropRight
import Turnstile.Json.Shape
import Turnstile.Proofs.Json.Nesting
import Turnstile.Proofs.Text.Utf8

/-! The members of a record, one at a time: where a name begins and ends, and what reading one more
member does. -/

namespace Turnstile.Json

variable {floor fuel : Nat} {first : Bool} {fields : List Field} {s s' : Bytes} {name : String}

/-- What one more member does to the values read so far: its name is looked up, and its value is read
by the field of that name or passed over. -/
inductive Takes (fields : List Field) (name : String) (s s' : Bytes) (vs : List (Option Json)) :
    List (Option Json) → Prop
  | known (i : Nat) (f : Field) (v : Json) : fields.findIdx? (fun f => f.name = name) = some i →
    fields[i]? = some f → f.name = name → f.read s = (.ok v, s') →
    Takes fields name s s' vs (vs.set i (some v))
  | unknown : fields.findIdx? (fun f => f.name = name) = none → skipValue s = (.ok (), s') →
    Takes fields name s s' vs vs

/-- Members are read one at a time, until there is no more. -/
theorem readMembers_succ_ok {vs ws : List (Option Json)}
    (h : readMembers fields (fuel + 1) first vs s = (.ok ws, s')) :
    (memberName? first s = (.ok none, s') ∧ ws = vs) ∨
    ∃ name s₁ s₂ s₃ vs', memberName? first s = (.ok (some name), s₁) ∧ colon s₁ = (.ok (), s₂) ∧
      Takes fields name s₂ s₃ vs vs' ∧ readMembers fields fuel false vs' s₃ = (.ok ws, s') := by
  unfold readMembers at h
  obtain ⟨name, s₁, hname, h⟩ := ok_of_bind_eq_ok h
  cases name with
  | none =>
    cases h
    exact .inl ⟨hname, rfl⟩
  | some name =>
    refine .inr ⟨name, s₁, ?_⟩
    cases hi : fields.findIdx? fun f => f.name = name with
    | none =>
      simp only [hi] at h
      obtain ⟨_, s₂, hcolon, h⟩ := ok_of_bind_eq_ok h
      obtain ⟨_, s₃, hskip, h⟩ := ok_of_bind_eq_ok h
      exact ⟨s₂, s₃, vs, hname, hcolon, .unknown hi hskip, h⟩
    | some i =>
      simp only [hi] at h
      split_ifs at h
      · obtain ⟨_, _, hthrow, -⟩ := ok_of_bind_eq_ok h
        cases hthrow
      · obtain ⟨_, s₂, hcolon, h⟩ := ok_of_bind_eq_ok h
        obtain ⟨v, s₃, hv, h⟩ := ok_of_bind_eq_ok h
        obtain ⟨hlt, hfound, -⟩ := List.findIdx?_eq_some_iff_getElem.mp hi
        have hf := List.getElem?_eq_getElem hlt
        rw [hf] at hv
        exact ⟨s₂, s₃, _, hname, hcolon, .known i _ v hi hf (of_decide_eq_true hfound) hv, h⟩

namespace Takes

variable {vs vs' : List (Option Json)}

theorem length_eq (h : Takes fields name s s' vs vs') : vs'.length = vs.length := by
  cases h with
  | known i f v => exact List.length_set
  | unknown => rfl

/-- The values of other fields stay. -/
theorem getD_of_ne {i : Nat} (h : Takes fields name s s' vs vs')
    (hi : fields.findIdx? (fun f => f.name = name) ≠ some i) : vs'.getD i none = vs.getD i none := by
  cases h with
  | known j f v hj =>
    have hne : j ≠ i := by
      rintro rfl
      exact hi hj
    simp [hne]
  | unknown => rfl

end Takes

/-- Nothing is read of a value of the wrong kind. -/
theorem mismatch_ne_ok {α : Type} {a : α} : (mismatch : Reader α) s ≠ (.ok a, s') := by
  intro h
  unfold mismatch at h
  rw [bind_of_ok (peek_apply s)] at h
  cases hs : s.dropWhile isSpace with
  | nil =>
    rw [hs] at h
    cases h
  | cons b t =>
    rw [hs] at h
    simp only [List.head?_cons] at h
    cases hw : literalFrom b with
    | some word =>
      rw [hw] at h
      obtain ⟨_, _, -, h⟩ := ok_of_bind_eq_ok h
      cases h
    | none =>
      rw [hw] at h
      simp only at h
      split_ifs at h
      · obtain ⟨_, _, -, h⟩ := ok_of_bind_eq_ok h
        cases h
      · obtain ⟨_, _, -, h⟩ := ok_of_bind_eq_ok h
        obtain ⟨_, _, -, h⟩ := ok_of_bind_eq_ok h
        cases h
      · cases h
      · cases h

theorem memberName?_dropWhile (first : Bool) (s : Bytes) :
    memberName? first (s.dropWhile isSpace) = memberName? first s := by
  have hpeek : peek (s.dropWhile isSpace) = peek s := by
    rw [peek_apply, peek_apply, List.dropWhile_idempotent]
  unfold memberName?
  rw [bind_apply, bind_apply, hpeek]

/-- White space before the members does not matter. -/
theorem readMembers_dropWhile {vs ws : List (Option Json)}
    (h : readMembers fields fuel first vs s = (.ok ws, s')) :
    readMembers fields fuel first vs (s.dropWhile isSpace) = (.ok ws, s') := by
  cases fuel with
  | zero => cases h
  | succ fuel =>
    unfold readMembers at h ⊢
    rw [bind_apply] at h ⊢
    rw [memberName?_dropWhile]
    exact h

/-- After a member there is a comma or the closing brace. -/
theorem exists_of_memberName? {n : Option String} (h : memberName? false s = (.ok n, s')) :
    ∃ b t, s.dropWhile isSpace = b :: t ∧ (b = byte ',' ∨ b = byte '\x7d') := by
  unfold memberName? at h
  rw [bind_of_ok (peek_apply s)] at h
  cases hs : s.dropWhile isSpace with
  | nil =>
    rw [hs] at h
    cases h
  | cons b t =>
    refine ⟨b, t, rfl, ?_⟩
    rw [hs] at h
    refine Classical.byContradiction fun hne => ?_
    obtain ⟨hcomma, hbrace⟩ := not_or.mp hne
    simp only [List.head?_cons] at h
    rw [if_neg hbrace, if_pos (by decide), if_pos hcomma] at h
    cases h

theorem exists_of_readMembers {vs ws : List (Option Json)}
    (h : readMembers fields fuel false vs s = (.ok ws, s')) :
    ∃ b t, s.dropWhile isSpace = b :: t ∧ (b = byte ',' ∨ b = byte '\x7d') := by
  cases fuel with
  | zero => cases h
  | succ fuel =>
    unfold readMembers at h
    obtain ⟨n, s₁, hname, -⟩ := ok_of_bind_eq_ok h
    exact exists_of_memberName? hname

/-- A name and its colon stay inside the record. -/
theorem exists_of_named {s₁ s₂ : Bytes} (hname : memberName? first s = (.ok (some name), s₁))
    (hcolon : colon s₁ = (.ok (), s₂)) :
    ∃ c, s = c ++ s₂ ∧ ∀ depth, lex (depth + 1, .plain) c = some (depth + 1, .plain) := by
  have hpasses : Passes (1, .plain) (1, .plain) (memberName? first) s :=
    (LexesAt.memberName? first s).ok
  have hpasses' : Passes (1, .plain) (1, .plain) colon s₁ := (LexesAt.colon s₁).ok
  obtain ⟨c₁, rfl, hc₁⟩ := hpasses _ _ hname
  obtain ⟨c₂, rfl, hc₂⟩ := hpasses' _ _ hcolon
  have hboth : lex (1, .plain) (c₁ ++ c₂) = some (1, .plain) := by rw [lex_of_append hc₁, hc₂]
  refine ⟨c₁ ++ c₂, by simp, fun depth => ?_⟩
  rw [Nat.add_comm depth 1]
  exact lex_add hboth depth

/-- A name where one is due. -/
private theorem exists_of_quotedName {r : Reader (Option String)}
    (hr : r = do
      if (← peek) = some (byte '"') then
        advance
        return some (← textBody)
      else throw Fault.grammar) (h : r s = (.ok (some name), s')) :
    ∃ c s₀, s = c ++ byte '"' :: s₀ ∧
      (∀ depth, lex (depth + 1, .plain) c = some (depth + 1, .plain)) ∧
      textBody s₀ = (.ok name, s') := by
  rw [hr, bind_of_ok (peek_apply s)] at h
  cases hs : s.dropWhile isSpace with
  | nil =>
    rw [hs] at h
    cases h
  | cons b t =>
    rw [hs, List.head?_cons] at h
    by_cases hb : b = byte '"'
    · subst hb
      rw [if_pos rfl, bind_of_ok (advance_apply _), List.tail_cons] at h
      obtain ⟨a, s₁, htext, h⟩ := ok_of_bind_eq_ok h
      cases h
      refine ⟨s.takeWhile isSpace, t, ?_, fun depth => lex_takeWhile_isSpace s _, htext⟩
      rw [← hs, List.takeWhile_append_dropWhile]
    · rw [if_neg (by simpa using hb)] at h
      cases h

/-- A name stands between quotes, after white space and at most a comma. -/
theorem exists_of_memberName?_some (h : memberName? first s = (.ok (some name), s')) :
    ∃ c s₀, s = c ++ byte '"' :: s₀ ∧
      (∀ depth, lex (depth + 1, .plain) c = some (depth + 1, .plain)) ∧
      textBody s₀ = (.ok name, s') := by
  unfold memberName? at h
  rw [bind_of_ok (peek_apply s)] at h
  cases hs : s.dropWhile isSpace with
  | nil =>
    rw [hs] at h
    cases h
  | cons b t =>
    rw [hs] at h
    simp only [List.head?_cons] at h
    have happend : s = s.takeWhile isSpace ++ b :: t := by
      rw [← hs, List.takeWhile_append_dropWhile]
    split_ifs at h with hbrace hfirst hcomma
    · cases h
    · obtain ⟨c, s₀, hc, hlex, htext⟩ := exists_of_quotedName rfl h
      refine ⟨s.takeWhile isSpace ++ c, s₀, ?_, fun depth => ?_, htext⟩
      · rw [List.append_assoc, ← hc]
        exact happend
      · rw [lex_of_append (lex_takeWhile_isSpace s _), hlex]
    · obtain ⟨_, _, hthrow, -⟩ := ok_of_bind_eq_ok h
      cases hthrow
    · obtain rfl := Classical.not_not.mp hcomma
      obtain ⟨c, s₀, rfl, hlex, htext⟩ := exists_of_quotedName rfl h
      refine ⟨s.takeWhile isSpace ++ byte ',' :: c, s₀, ?_, fun depth => ?_, htext⟩
      · rw [List.append_assoc]
        exact happend
      · rw [lex_of_append (lex_takeWhile_isSpace s _)]
        exact hlex depth

/-- Where no text has begun, there is no backslash before the next quote. -/
private theorem lex_of_quoted {depth : Nat} {m : Mode} {done b : Bytes} (hm : m.Outside)
    (h : quoted .plain done s = (.ok b, s')) (hs : (lex (depth, m) s).isSome) :
    ∃ c, b = done.reverse ++ c ∧ (lex (depth, m) c).isSome := by
  induction s generalizing depth m done with
  | nil => cases h
  | cons x s ih =>
    obtain ⟨⟨depth', m'⟩, hx, hrest⟩ := exists_lexByte_of_cons hs
    unfold quoted Escape.step at h
    rcases lexByte_outside hm hx with ⟨rfl, -⟩ | ⟨hq, hslash, hm'⟩
    · cases h
      exact ⟨[], by simp, rfl⟩
    · simp only [hq, hslash, if_false] at h
      split_ifs at h
      · cases h
      · obtain ⟨c, rfl, hc⟩ := ih hm' h hrest
        exact ⟨x :: c, by simp, by rw [lex_cons, hx]; exact hc⟩

/-- A name that is read where no text has begun is what stands there. -/
theorem lex_utf8_of_textBody {depth : Nat} (h : textBody s = (.ok name, s'))
    (hs : (lex (depth, .plain) s).isSome) : (lex (depth, .plain) (utf8 name)).isSome := by
  unfold textBody at h
  rcases hq : quoted .plain [] s with ⟨e | b, t⟩
  · rw [hq] at h
    cases h
  · rw [hq] at h
    simp only at h
    cases hname : ofUtf8? b with
    | none =>
      rw [hname] at h
      cases h
    | some n =>
      rw [hname] at h
      cases h
      obtain ⟨c, hb, hc⟩ := lex_of_quoted Mode.plain_outside hq hs
      rw [utf8_of_ofUtf8? hname, hb]
      exact hc

theorem ok_of_readAll {α : Type} {r : Reader α} {b : Bytes} {a : α} (h : readAll r b = .ok a) :
    ∃ rest, r b = (.ok a, rest) ∧ rest.all isSpace = true := by
  unfold readAll at h
  rcases hr : r b with ⟨e | a', rest⟩
  · rw [hr] at h
    cases h
  · rw [hr] at h
    simp only at h
    split_ifs at h with hrest
    · cases h
      exact ⟨rest, rfl, hrest⟩

/-- A record is read from a record or from a list. -/
theorem ok_of_readFields {l : List Json} (h : readFields fields s = (.ok l, s')) :
    (∃ t ws s₁, s.dropWhile isSpace = byte '\x7b' :: t ∧
      readMembers fields (t.length + 1) true (fields.map fun _ => none) t = (.ok ws, s₁) ∧
      complete fields ws = .ok l ∧ closeRecord s₁ = (.ok (), s')) ∨
    ∃ t s₁, s.dropWhile isSpace = byte '[' :: t ∧ readPositions fields true t = (.ok l, s₁) := by
  unfold readFields at h
  rw [bind_of_ok (peek_apply s)] at h
  cases hs : s.dropWhile isSpace with
  | nil =>
    rw [hs] at h
    exact absurd h mismatch_ne_ok
  | cons b t =>
    rw [hs] at h
    rw [List.head?_cons] at h
    by_cases hrecord : b = byte '\x7b'
    · subst hrecord
      rw [if_pos rfl, bind_of_ok (advance_apply _), bind_of_ok (bound_apply _)] at h
      obtain ⟨s₁, hinside, hclose⟩ := ok_of_enclosed_eq_ok h
      obtain ⟨ws, s₂, hmembers, hinside⟩ := ok_of_bind_eq_ok hinside
      cases hcomplete : complete fields ws with
      | error e =>
        rw [hcomplete] at hinside
        cases hinside
      | ok l' =>
        rw [hcomplete] at hinside
        cases hinside
        exact .inl ⟨t, ws, s₁, rfl, hmembers, hcomplete, hclose⟩
    by_cases hlist : b = byte '['
    · subst hlist
      rw [if_neg (by decide), if_pos rfl, bind_of_ok (advance_apply _)] at h
      obtain ⟨s₁, hinside, -⟩ := ok_of_enclosed_eq_ok h
      exact .inr ⟨t, s₁, rfl, hinside⟩
    · rw [if_neg (by simpa using hrecord), if_neg (by simpa using hlist)] at h
      exact absurd h mismatch_ne_ok

/-- The value of a field is what was read, or else what stands for a missing one. -/
theorem exists_of_complete {ws : List (Option Json)} {l : List Json}
    (h : complete fields ws = .ok l) {i : Nat} {f : Field} (hf : fields[i]? = some f) :
    ∃ v, l[i]? = some v ∧ (ws.getD i none).or f.missing = some v := by
  induction fields generalizing ws l i with
  | nil => cases hf
  | cons g fields ih =>
    have hhead : ws.head?.getD none = ws.getD 0 none := by cases ws <;> rfl
    unfold complete at h
    rw [hhead] at h
    cases hv : (ws.getD 0 none).or g.missing with
    | none =>
      rw [hv] at h
      cases h
    | some v =>
      rw [hv] at h
      cases hrest : complete fields ws.tail with
      | error e =>
        rw [hrest] at h
        cases h
      | ok l' =>
        rw [hrest] at h
        cases h
        cases i with
        | zero =>
          cases hf
          exact ⟨v, rfl, hv⟩
        | succ i =>
          obtain ⟨v', hl, hv'⟩ := ih hrest hf
          refine ⟨v', hl, ?_⟩
          rw [← hv']
          cases ws <;> rfl

theorem number_of_readInt64 {v : Json} (h : readInt64 s = (.ok v, s')) :
    ∃ b t n, s.dropWhile isSpace = b :: t ∧ beginsNumber b = true ∧
      number (b :: t) = (.ok (.whole n), s') ∧ v = .int n := by
  unfold readInt64 at h
  rw [bind_of_ok (peek_apply s)] at h
  cases hs : s.dropWhile isSpace with
  | nil =>
    rw [hs] at h
    cases h
  | cons b t =>
    rw [hs] at h
    simp only [List.head?_cons] at h
    by_cases hb : beginsNumber b = true
    · rw [if_pos hb] at h
      obtain ⟨n, s₁, hnumber, h⟩ := ok_of_bind_eq_ok h
      cases n with
      | whole n =>
        simp only at h
        split_ifs at h
        · cases h
          exact ⟨b, t, n, rfl, hb, hnumber, rfl⟩
        · cases h
      | real => cases h
    · rw [if_neg hb] at h
      exact absurd h mismatch_ne_ok

end Turnstile.Json
