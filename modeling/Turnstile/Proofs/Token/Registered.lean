import Turnstile.Proofs.Json.Members
import Turnstile.Token.Registered

/-! Reading registered claims goes on after a claim of the wrong kind, wherever that was given up. If
it was given up inside of a value, the end of the record is never found again. -/

namespace Turnstile.Registered

open Json

variable {floor depth : Nat} {s s' : Bytes} {v : Json} {r : Reader Json}

theorem lexesAt_instant (s : Bytes) : LexesAt floor .plain .plain instant s := by
  refine .peek_bind (.throw _ _) fun b t _ => ?_
  dsimp only
  split_ifs with hlist hrecord hnumber
  · subst hlist
    exact .enclosed rfl (.throw _ t) closes_closeList rfl
  · subst hrecord
    exact .enclosed rfl (.throw _ t) closes_closeRecord rfl
  · refine (Numeric.number (b :: t)).lexesAt.bind fun n s' _ => ?_
    cases n with
    | whole n => exact .pure _ s'
    | real => exact .pure _ s'
  · exact .mismatch _

theorem lexesAt_texts (s : Bytes) : LexesAt floor .plain .plain texts s :=
  (LexesAt.outline memberDepth s).bind fun _ s' _ => .pure _ s'

/-- Every claim is read as null where its reader gives up. -/
theorem exists_orNull {f : Field} (hf : f ∈ fields) :
    ∃ r, f.read = orNull r ∧ ∀ floor s, LexesAt floor .plain .plain r s := by
  simp only [fields, List.mem_cons, List.not_mem_nil, or_false] at hf
  rcases hf with rfl | rfl | rfl | rfl | rfl
  · exact ⟨_, rfl, fun _ => lexesAt_instant⟩
  · exact ⟨_, rfl, fun _ => lexesAt_instant⟩
  · exact ⟨_, rfl, fun _ => .readOption .readText⟩
  · exact ⟨_, rfl, fun _ => .readOption lexesAt_texts⟩
  · exact ⟨_, rfl, fun _ => .readOption lexesAt_texts⟩

theorem ok_of_orNull (h : orNull r s = (.ok v, s')) :
    r s = (.ok v, s') ∨ ∃ e, r s = (.error e, s') ∧ v = .null := by
  unfold orNull tried at h
  rw [bind_apply] at h
  rcases hr : r s with ⟨e | a, s₁⟩
  · rw [hr] at h
    cases h
    exact .inr ⟨e, rfl, rfl⟩
  · rw [hr] at h
    cases h
    exact .inl rfl

/-- A claim that is not null was read. -/
theorem ok_of_orNull_int {n : Int} (h : orNull r s = (.ok (.int n), s')) :
    r s = (.ok (.int n), s') := by
  rcases ok_of_orNull h with hok | ⟨e, -, hnull⟩
  · exact hok
  · cases hnull

/-- After the value of a member, known or unknown, the record has not been left. -/
theorem exists_place {name : String} {vs vs' : List (Option Json)}
    (h : Takes fields name s s' vs vs') (hs : (lex (floor + depth, .plain) s).isSome) :
    ∃ c q, s = c ++ s' ∧ lex (floor, .plain) c = some q ∧ floor ≤ q.1 := by
  cases h with
  | known i f v hi hf hname hv =>
    obtain ⟨r, hread, hr⟩ := exists_orNull (List.mem_of_getElem? hf)
    rw [hread] at hv
    rcases ok_of_orNull hv with hok | ⟨e, herror, -⟩
    · obtain ⟨c, rfl, hc⟩ := (hr floor s).ok v s' hok
      exact ⟨c, _, rfl, hc, Nat.le_refl _⟩
    · exact (hr floor s).error e s' herror depth hs
  | unknown hi hskip =>
    have hpasses : Passes (floor, .plain) (floor, .plain) skipValue s := passes_skipValue s
    obtain ⟨c, rfl, hc⟩ := hpasses () s' hskip
    exact ⟨c, _, rfl, hc, Nat.le_refl _⟩

/-- A place that the end of a record cannot be found from: inside of a member, or on the wrong side of
a quote. -/
inductive Astray : Place → Prop
  | inside (depth : Nat) : Astray (depth + 2, .plain)
  | text (depth : Nat) : Astray (depth, .text)

/-- Where a comma or a closing brace comes next, the first byte is neither of a text nor of a
literal. -/
private theorem exists_cons_of_next {b : UInt8} {t : Bytes} (hnext : s.dropWhile isSpace = b :: t)
    (hb : b = byte ',' ∨ b = byte '\x7d') :
    ∃ x u, s = x :: u ∧ x ≠ byte '"' ∧ x ≠ byte '\\' ∧ isLower x = false := by
  cases s with
  | nil => cases hnext
  | cons x u =>
    refine ⟨x, u, rfl, ?_⟩
    by_cases hx : isSpace x = true
    · simp only [isSpace, Bool.or_eq_true, decide_eq_true_eq] at hx
      rcases hx with ((rfl | rfl) | rfl) | rfl <;> decide
    · rw [List.dropWhile_cons_of_neg hx] at hnext
      cases hnext
      rcases hb with rfl | rfl <;> decide

/-- Where a comma or a closing brace comes next, either nothing has begun or a text has. -/
theorem plain_or_text {q p : Place} {b : UInt8} {t : Bytes} (hq : q.2.Proper)
    (hnext : s.dropWhile isSpace = b :: t) (hb : b = byte ',' ∨ b = byte '\x7d')
    (h : lex q s = some p) : q.2 = .plain ∨ lex (q.1, .text) s = some p := by
  obtain ⟨x, u, rfl, hquote, hslash, hlower⟩ := exists_cons_of_next hnext hb
  obtain ⟨depth, m⟩ := q
  rcases hq with hm | hm | hm
  · obtain rfl : m = .text := hm
    exact .inr h
  · obtain rfl : m = .escape := hm
    refine .inr ?_
    rw [lex_cons] at h ⊢
    have htext : lexByte (depth, .text) x = some (depth, .text) := by
      simp [lexByte, hquote, hslash]
    rw [htext]
    exact h
  · cases m with
    | plain => exact .inl rfl
    | word left =>
      cases left with
      | nil => cases h
      | cons c left =>
        -- A literal goes on with a letter only.
        have hc : isLower c = true := by
          simp only [Mode.Outside, List.all_cons, Bool.and_eq_true] at hm
          exact hm.1
        have hne : x ≠ c := by
          rintro rfl
          rw [hc] at hlower
          cases hlower
        rw [lex_cons] at h
        simp only [lexByte, hne, if_false] at h
        cases h
    | text => exact hm.elim
    | escape => exact hm.elim

theorem lex_name {f : Field} (hf : f ∈ fields) (depth : Nat) :
    lex (depth, .plain) (utf8 f.name) = none := by
  simp only [fields, List.mem_cons, List.not_mem_nil, or_false] at hf
  rcases hf with rfl | rfl | rfl | rfl | rfl <;> rfl

/-- Bytes read with no text begun keep a place inside of a text there. -/
private theorem lex_text {c : Bytes} {k k' : Nat} {p : Place}
    (hc : lex (k, .plain) c = some (k', .plain)) (h : lex (depth, .text) (c ++ s) = some p) :
    ∃ depth', lex (depth', .text) s = some p := by
  obtain ⟨⟨depth', m⟩, hq, -⟩ := exists_lex_of_append (Option.isSome_of_eq_some h)
  rw [lex_of_append hq] at h
  have hside : Opposite .plain m := lex_opposite (.inr ⟨Mode.plain_outside, rfl⟩) hc hq
  obtain rfl : m = .text := by
    rcases hside with ⟨hplain, -⟩ | ⟨-, htext⟩
    · cases hplain
    · exact htext
  exact ⟨depth', h⟩

/-- From the wrong side of a quote no claim is found, and nothing else ends the text. -/
private theorem text_of_takes {first : Bool} {name : String} {s₁ s₂ s₃ : Bytes}
    {vs vs' : List (Option Json)} {p : Place} (hname : memberName? first s = (.ok (some name), s₁))
    (hcolon : colon s₁ = (.ok (), s₂)) (htakes : Takes fields name s₂ s₃ vs vs')
    (h : lex (depth, .text) s = some p) : ∃ depth', lex (depth', .text) s₃ = some p := by
  have hunknown : ∀ f ∈ fields, f.name ≠ name := by
    obtain ⟨c, s₀, rfl, hc, htext⟩ := exists_of_memberName?_some hname
    obtain ⟨depth', h⟩ := lex_text (hc 0) h
    have hplain : lex (depth', .plain) s₀ = some p := h
    rintro f hf rfl
    have hsome := lex_utf8_of_textBody htext (Option.isSome_of_eq_some hplain)
    rw [lex_name hf] at hsome
    cases hsome
  cases htakes with
  | known i f v hi hf hfound hv => exact absurd hfound (hunknown f (List.mem_of_getElem? hf))
  | unknown hi hskip =>
    have hpasses : Passes (1, .plain) (1, .plain) skipValue s₂ := passes_skipValue s₂
    obtain ⟨c, rfl, hc⟩ := exists_of_named hname hcolon
    obtain ⟨c', rfl, hc'⟩ := hpasses _ _ hskip
    obtain ⟨d, h⟩ := lex_text (hc 0) h
    exact lex_text hc' h

/-- Between members, a place that is not right inside the record is astray. -/
theorem astray_of_next {q p : Place} {b : UInt8} {t : Bytes} (hq : q.2.Proper)
    (hne : q ≠ (1, .plain)) (hdepth : 1 ≤ q.1) (hnext : s.dropWhile isSpace = b :: t)
    (hb : b = byte ',' ∨ b = byte '\x7d') (h : lex q s = some p) :
    ∃ q', Astray q' ∧ lex q' s = some p := by
  rcases plain_or_text hq hnext hb h with hplain | htext
  · obtain ⟨depth, m⟩ := q
    obtain rfl : m = .plain := hplain
    obtain ⟨k, rfl⟩ : ∃ k, depth = k + 2 := by
      have hne : depth ≠ 1 := by
        rintro rfl
        exact hne rfl
      exact ⟨depth - 2, by simp only at hdepth; omega⟩
    exact ⟨_, .inside k, h⟩
  · exact ⟨_, .text q.1, htext⟩

/-- Members that are read to the end of the payload were not read from astray. -/
theorem not_astray {fuel : Nat} {first : Bool} {vs ws : List (Option Json)} {rest : Bytes}
    {q : Place} (hread : readMembers fields fuel first vs s = (.ok ws, s'))
    (hclose : closeRecord s' = (.ok (), rest)) (hrest : rest.all isSpace = true)
    (h : lex q s = some (0, .plain)) : ¬ Astray q := by
  have hspaces (depth : Nat) : lex (depth, .plain) rest = some (depth, .plain) :=
    lex_spaces (fun b hb => List.all_eq_true.mp hrest b hb) depth
  have hclosed (depth : Nat) : Passes (depth + 1, .plain) (depth, .plain) closeRecord s' :=
    passes_closeRecord s'
  have hnamed (depth : Nat) (first : Bool) (s : Bytes) :
      Passes (depth + 1, .plain) (depth + 1, .plain) (memberName? first) s :=
    (LexesAt.memberName? first s).ok
  intro hq
  induction fuel generalizing first vs s q with
  | zero => cases hread
  | succ fuel ih =>
    rcases readMembers_succ_ok hread with
      ⟨hnone, -⟩ | ⟨name, s₁, s₂, s₃, vs', hname, hcolon, htakes, hmore⟩
    · cases hq with
      | inside depth =>
        obtain ⟨c₁, rfl, hc₁⟩ := hnamed (depth + 1) first s _ _ hnone
        obtain ⟨c₂, rfl, hc₂⟩ := hclosed (depth + 1) _ _ hclose
        rw [lex_of_append hc₁, lex_of_append hc₂, hspaces] at h
        cases h
      | text depth =>
        obtain ⟨c₁, rfl, hc₁⟩ := hnamed 0 first s _ _ hnone
        obtain ⟨c₂, rfl, hc₂⟩ := hclosed 0 _ _ hclose
        obtain ⟨d₁, h⟩ := lex_text hc₁ h
        obtain ⟨d₂, h⟩ := lex_text hc₂ h
        rw [← List.append_nil rest] at h
        obtain ⟨d₃, h⟩ := lex_text (hspaces 0) h
        cases h
    · cases hq with
      | inside depth =>
        obtain ⟨c, rfl, hc⟩ := exists_of_named hname hcolon
        rw [lex_of_append (hc (depth + 1))] at h
        have hsome : (lex (depth + 2 + 0, .plain) s₂).isSome := Option.isSome_of_eq_some h
        obtain ⟨c', q, rfl, hc', hle⟩ := exists_place htakes hsome
        rw [lex_of_append hc'] at h
        obtain ⟨b, t, hnext, hb⟩ := exists_of_readMembers hmore
        have hne : q ≠ (1, .plain) := by
          rintro rfl
          simp only at hle
          omega
        have hproper : q.2.Proper := lex_proper Mode.plain_proper hc'
        obtain ⟨q', hq', h⟩ := astray_of_next hproper hne (by omega) hnext hb h
        exact ih hmore h hq'
      | text depth =>
        obtain ⟨depth', h⟩ := text_of_takes hname hcolon htakes h
        exact ih hmore h (.text depth')

end Turnstile.Registered
