import Turnstile.Json.Format
import Turnstile.Proofs.Json.Spacing

/-! Values as they are written inside a list or record, on one line or on several: each reader
reads its kind of value back, and a value of no interest is passed over. -/

namespace Turnstile.Json

/-- A reader that reads a value back, written as `w` has it, and leaves what follows it. -/
def ReadsAs (w : Json → List Char) (r : Reader Json) (v : Json) : Prop :=
  ∀ d rest, IsDelimiter d → r (charBytes (w v) ++ d :: rest) = (.ok v, d :: rest)

/-- A reader that reads a compact value back and leaves what follows it. -/
abbrev Reads := ReadsAs compact

def SkipsAs (w : Json → List Char) (v : Json) : Prop :=
  ∀ rest, skipValue (charBytes (w v) ++ rest) = (.ok (), rest)

abbrev Skips := SkipsAs compact

/-- A value on several lines as it stands after a colon. -/
def indented (n : Nat) (v : Json) : List Char :=
  ' ' :: pretty n v

theorem compact_text (s : String) : compact (text s) = quote s := rfl

private theorem compactItems_eq (v : Json) (vs : List Json) :
    compactItems (v :: vs) = compact v ++ Spacing.tight.moreEntries (vs.map compact) := by
  induction vs generalizing v with
  | nil => exact (List.append_nil _).symm
  | cons w ws ih => exact congrArg (compact v ++ ',' :: ·) (ih w)

theorem compact_list (vs : List Json) :
    compact (list vs) = Spacing.tight.entries '[' ']' (vs.map compact) := by
  cases vs with
  | nil => rfl
  | cons v vs =>
    have htext : compact (list (v :: vs)) = '[' :: (compactItems (v :: vs) ++ [']']) := rfl
    rw [htext, compactItems_eq, List.append_assoc]
    rfl

theorem compact_texts (l : List String) :
    compact (texts l) = Spacing.tight.entries '[' ']' (l.map quote) := by
  rw [texts, compact_list, List.map_map]
  rfl

private theorem prettyItems_eq (n : Nat) (v : Json) (vs : List Json) :
    prettyItems n (v :: vs) ++ newline n =
      newline (n + 1) ++ (pretty (n + 1) v ++
        (Spacing.lines n).moreEntries (vs.map (pretty (n + 1)))) := by
  induction vs generalizing v with
  | nil => exact List.append_assoc _ _ _
  | cons w ws ih =>
    have htext : prettyItems n (v :: w :: ws) =
        newline (n + 1) ++ pretty (n + 1) v ++ ',' :: prettyItems n (w :: ws) := rfl
    rw [htext, List.append_assoc, List.append_assoc, List.cons_append, ih]
    rfl

theorem pretty_list (n : Nat) (vs : List Json) :
    pretty n (list vs) = (Spacing.lines n).entries '[' ']' (vs.map (pretty (n + 1))) := by
  cases vs with
  | nil => rfl
  | cons v vs =>
    have htext : pretty n (list (v :: vs)) = '[' :: ((prettyItems n (v :: vs) ++ newline n) ++ [']']) :=
      rfl
    rw [htext, prettyItems_eq, List.append_assoc, List.append_assoc]
    rfl

theorem pretty_texts (n : Nat) (l : List String) :
    pretty n (texts l) = (Spacing.lines n).entries '[' ']' (l.map quote) := by
  rw [texts, pretty_list, List.map_map]
  rfl

theorem compact_int {n : Int} (hn : 0 ≤ n) : charBytes (int n).compact = digitBytes n.toNat := by
  obtain ⟨k, rfl⟩ := Int.eq_ofNat_of_zero_le hn
  have htext : (int (k : Int)).compact = Nat.toDigits 10 k := Nat.toList_repr
  rw [htext, charBytes_toDigits, Int.toNat_natCast]

theorem reads_text (s : String) : Reads readText (text s) := by
  intro d rest _
  exact readText_quote s (d :: rest)

theorem reads_option_text (s : String) : Reads (readOption readText) (text s) := by
  intro d rest hd
  have hsplit : charBytes (text s).compact ++ d :: rest =
      byte '"' :: (charBytes (s.toList.flatMap escape) ++ [byte '"'] ++ d :: rest) := by
    rw [compact_text, charBytes_quote, List.cons_append]
  have hpeek : peek (charBytes (text s).compact ++ d :: rest) =
      (.ok (some (byte '"')), charBytes (text s).compact ++ d :: rest) := by
    rw [hsplit]
    exact peek_cons (by decide) _
  unfold readOption
  rw [bind_of_ok hpeek, if_neg (by decide)]
  exact reads_text s d rest hd

theorem reads_bool (b : Bool) : Reads readBool (bool b) := by
  intro d rest _
  cases b <;> rfl

/-- A number that is not negative begins with a digit. -/
theorem peek_int {n : Int} (hn : 0 ≤ n) (s : Bytes) :
    ∃ b, isDigit b = true ∧
      peek (charBytes (int n).compact ++ s) = (.ok (some b), charBytes (int n).compact ++ s) := by
  rw [compact_int hn]
  cases hds : digitBytes n.toNat with
  | nil => exact absurd hds (digitBytes_ne_nil _)
  | cons b ds =>
    have hb : isDigit b = true := isDigit_of_mem_digitBytes (n := n.toNat) (by simp [hds])
    have hspace : isSpace b = false := by
      unfold isDigit at hb
      unfold isSpace
      simp only [Bool.and_eq_true, decide_eq_true_eq, UInt8.le_iff_toNat_le] at hb
      have hlow : (0x30 : UInt8).toNat = 48 := rfl
      simp only [Bool.or_eq_false_iff, decide_eq_false_iff_not]
      refine ⟨⟨⟨?_, ?_⟩, ?_⟩, ?_⟩
      all_goals
        rintro rfl
        exact absurd hb.1 (by decide)
    exact ⟨b, hb, peek_cons hspace _⟩

theorem number_int {n : Int} (hn : 0 ≤ n) (hmax : n ≤ int64Max) {d : UInt8} (hd : IsDelimiter d)
    (rest : Bytes) :
    number (charBytes (int n).compact ++ d :: rest) = (.ok (.whole n), d :: rest) := by
  have hlt : n.toNat < 1 <<< 64 := by
    have : (1 <<< 64 : Nat) = 18446744073709551616 := rfl
    unfold int64Max at hmax
    omega
  rw [compact_int hn, number_digitBytes hlt hd, Int.toNat_of_nonneg hn]

theorem reads_int {n : Int} (hn : 0 ≤ n) (hmax : n ≤ int64Max) : Reads readInt64 (int n) := by
  intro d rest hd
  obtain ⟨b, hb, hpeek⟩ := peek_int hn (d :: rest)
  have hbegin : beginsNumber b = true := by simp [beginsNumber, hb]
  unfold readInt64
  rw [bind_of_ok hpeek]
  simp only [hbegin, if_true]
  rw [bind_of_ok (number_int hn hmax hd rest)]
  simp [hmax]

theorem compact_neg (k : Nat) :
    charBytes (int (Int.negSucc k)).compact = byte '-' :: digitBytes (k + 1) := by
  have htext : (int (Int.negSucc k)).compact = '-' :: Nat.toDigits 10 (k + 1) := by
    have hrepr : (toString (Int.negSucc k)).toList = '-' :: (Nat.repr (k + 1)).toList := by
      simp [toString, Int.repr]
    rw [Nat.toList_repr] at hrepr
    exact hrepr
  rw [htext, charBytes_cons, charBytes_toDigits]
  rfl

/-- A written integer of 64 bits with sign is read back. -/
theorem reads_int64 {n : Int} (hmin : int64Min ≤ n) (hmax : n ≤ int64Max) :
    Reads readInt64 (int n) := by
  cases n with
  | ofNat k => exact reads_int (Int.natCast_nonneg k) hmax
  | negSucc k =>
    intro d rest hd
    have hk : k + 1 ≤ 1 <<< 63 := by
      have hpow : (1 <<< 63 : Nat) = 9223372036854775808 := rfl
      unfold int64Min at hmin
      omega
    have hbegin : beginsNumber (byte '-') = true := by decide
    have hnumber := number_neg_digitBytes (Nat.succ_ne_zero k) hk hd rest
    have hsame : -((k + 1 : Nat) : Int) = Int.negSucc k := rfl
    unfold readInt64
    rw [compact_neg, List.cons_append, bind_of_ok (peek_cons (by decide) _)]
    simp only [hbegin, if_true]
    rw [bind_of_ok hnumber]
    simp only
    rw [hsame, if_pos hmax]
    rfl

theorem charBytes_quote_append (s : String) (rest : Bytes) :
    charBytes (quote s) ++ rest =
      byte '"' :: (charBytes (s.toList.flatMap escape) ++ byte '"' :: rest) := by
  rw [charBytes_quote]
  simp

private theorem hasItem_quote (s : String) (rest : Bytes) :
    hasItem true (charBytes (quote s) ++ rest) = (.ok true, charBytes (quote s) ++ rest) := by
  rw [charBytes_quote_append]
  rfl

/-- After a comma the white space before the next item is passed over. -/
private theorem hasItem_comma {sp : Bytes} (hsp : Blank sp) (s : String) (rest : Bytes) :
    hasItem false (byte ',' :: (sp ++ (charBytes (quote s) ++ rest))) =
      (.ok true, charBytes (quote s) ++ rest) := by
  rw [charBytes_quote_append]
  unfold hasItem
  rw [bind_of_ok (peek_cons (by decide) _)]
  simp only
  rw [if_neg (by decide)]
  simp only [Bool.false_eq_true, if_false, if_true]
  rw [bind_of_ok (advance_apply _), List.tail_cons, (lenient_peek_bind _).append hsp]
  rfl

private theorem items_step {s s' s'' : Bytes} {first : Bool} {v : Json} {vs : List Json}
    {item : Reader Json} {fuel : Nat} {t : Bytes} (h : hasItem first s = (.ok true, s'))
    (hv : item s' = (.ok v, s'')) (hvs : items item fuel false s'' = (.ok vs, t)) :
    items item (fuel + 1) first s = (.ok (v :: vs), t) := by
  rw [items, bind_of_ok h, if_pos rfl, bind_of_ok hv, bind_of_ok hvs]
  rfl

private theorem items_end {item : Reader Json} {sp : Bytes} (hsp : Blank sp) (fuel : Nat)
    (first : Bool) (rest : Bytes) :
    items item (fuel + 1) first (sp ++ byte ']' :: rest) = (.ok [], byte ']' :: rest) := by
  have hend : hasItem first (sp ++ byte ']' :: rest) = (.ok false, byte ']' :: rest) := by
    rw [(lenient_hasItem first).append hsp]
    rfl
  rw [items, bind_of_ok hend]
  rfl

section

variable (σ : Spacing)

/-- Texts in a list are read one after another. -/
private theorem items_moreEntries (l : List String) {fuel : Nat} (hfuel : l.length < fuel)
    (rest : Bytes) :
    items readText fuel false (charBytes (σ.moreEntries (l.map quote)) ++ byte ']' :: rest) =
      (.ok (l.map text), byte ']' :: rest) := by
  induction l generalizing fuel with
  | nil =>
    obtain ⟨fuel, rfl⟩ : ∃ k, fuel = k + 1 := ⟨fuel - 1, by omega⟩
    exact items_end σ.close_blank fuel false rest
  | cons s l ih =>
    obtain ⟨fuel, rfl⟩ : ∃ k, fuel = k + 1 := ⟨fuel - 1, by omega⟩
    rw [List.map_cons, Spacing.charBytes_moreEntries_cons]
    exact items_step (hasItem_comma σ.before_blank s _) (readText_quote s _)
      (ih (by simp only [List.length_cons] at hfuel; omega))

/-- A list of texts is read back, wherever there is white space in it. -/
theorem readList_entries (l : List String) (rest : Bytes) :
    readList readText (charBytes (σ.entries '[' ']' (l.map quote)) ++ rest) =
      (.ok (texts l), rest) := by
  have hclose : closeList (byte ']' :: rest) = (.ok (), rest) := rfl
  obtain ⟨inside, hsplit, hitems⟩ : ∃ inside,
      charBytes (σ.entries '[' ']' (l.map quote)) ++ rest = byte '[' :: inside ∧
        items readText (inside.length + 1) true inside = (.ok (l.map text), byte ']' :: rest) := by
    cases l with
    | nil => exact ⟨byte ']' :: rest, rfl, items_end blank_nil _ true rest⟩
    | cons s l =>
      refine ⟨_, σ.charBytes_entries_cons (by decide) (by decide) _ _ _, ?_⟩
      have hlen := σ.length_le_moreEntries (l.map quote)
      have hfirst := (lenient_hasItem true).append σ.before_blank
        (charBytes (quote s) ++ (charBytes (σ.moreEntries (l.map quote)) ++ byte ']' :: rest))
      refine items_step (hfirst.trans (hasItem_quote s _)) (readText_quote s _)
        (items_moreEntries σ l ?_ rest)
      simp only [List.length_map] at hlen
      simp only [List.length_append, List.length_cons]
      omega
  unfold readList
  rw [hsplit, bind_of_ok (peek_cons (by decide) _), if_pos rfl, bind_of_ok (advance_apply _),
    List.tail_cons, bind_of_ok (bound_apply _), bind_of_ok (enclosed_of_ok hitems hclose)]
  rfl

end

theorem reads_texts (l : List String) : Reads (readList readText) (texts l) := by
  intro d rest _
  rw [compact_texts]
  exact readList_entries _ l _

/-- A way of writing from which texts, lists of texts, integers that are not negative and truth
values are read back. -/
structure ReadBack (w : Json → List Char) : Prop where
  text (s : String) : ReadsAs w readText (text s)
  texts (l : List String) : ReadsAs w (readList readText) (texts l)
  int {n : Int} (hn : 0 ≤ n) (hmax : n ≤ int64Max) : ReadsAs w readInt64 (int n)
  bool (b : Bool) : ReadsAs w readBool (bool b)

theorem readBack_compact : ReadBack compact :=
  ⟨reads_text, reads_texts, reads_int, reads_bool⟩

/-- A lenient reader also reads what is written after a blank. -/
theorem Lenient.readsAs_indented {r : Reader Json} (hr : Lenient r) {n : Nat} {v : Json}
    (h : ReadsAs (pretty n) r v) : ReadsAs (indented n) r v := by
  intro d rest hd
  have hblank : Blank [byte ' '] := by
    intro x hx
    obtain rfl := List.mem_singleton.mp hx
    decide
  exact (hr.append hblank _).trans (h d rest hd)

theorem readBack_indented (n : Nat) : ReadBack (indented n) where
  text s := lenient_readText.readsAs_indented (reads_text s)
  texts l := by
    refine (lenient_readList readText).readsAs_indented fun d rest _ => ?_
    rw [pretty_texts]
    exact readList_entries _ l _
  int hn hmax := lenient_readInt64.readsAs_indented (reads_int hn hmax)
  bool b := lenient_readBool.readsAs_indented fun d rest hd => by
    have htext : pretty n (.bool b) = compact (.bool b) := by cases b <;> rfl
    rw [htext]
    exact reads_bool b d rest hd

private theorem skipFrom_quote {sp : Bytes} (hsp : Blank sp) (s : String) (fuel : Nat)
    (stack : List Bracket) (rest : Bytes) :
    skipFrom (fuel + 1) .value stack (sp ++ (charBytes (quote s) ++ rest)) =
      skipFrom fuel (.more false) stack rest := by
  have hnumber : beginsNumber (byte '"') = false := by decide
  rw [(lenient_skipFrom_value fuel stack).append hsp, charBytes_quote_append, skipFrom,
    bind_of_ok (peek_cons (by decide) _)]
  simp only
  rw [if_neg (by decide), if_neg (by decide), show literalFrom (byte '"') = none by decide]
  simp only [hnumber, Bool.false_eq_true, if_false, if_true]
  rw [bind_of_ok (advance_apply _), List.tail_cons, bind_of_ok (skipQuoted_quote s rest)]

theorem skips_text (s : String) : Skips (text s) := by
  intro rest
  unfold skipValue
  rw [bind_of_ok (bound_apply _), Nat.mul_add, compact_text]
  exact skipFrom_quote blank_nil s _ [] rest

private theorem skipFrom_comma (fuel : Nat) (s : Bytes) :
    skipFrom (fuel + 1) (.more false) [.list] (byte ',' :: s) = skipFrom fuel .value [.list] s :=
  rfl

private theorem skipFrom_first_quote {sp : Bytes} (hsp : Blank sp) (s : String) (fuel : Nat)
    (rest : Bytes) :
    skipFrom (fuel + 1) (.more true) [.list] (sp ++ (charBytes (quote s) ++ rest)) =
      skipFrom fuel .value [.list] (charBytes (quote s) ++ rest) := by
  rw [(lenient_skipFrom_more fuel true .list []).append hsp, charBytes_quote]
  rfl

private theorem skipFrom_close {sp : Bytes} (hsp : Blank sp) (fuel : Nat) (first : Bool)
    (rest : Bytes) :
    skipFrom (fuel + 2) (.more first) [.list] (sp ++ byte ']' :: rest) = (.ok (), rest) := by
  rw [(lenient_skipFrom_more (fuel + 1) first .list []).append hsp]
  rfl

section

variable (σ : Spacing)

private theorem skipFrom_moreEntries (l : List String) {fuel : Nat}
    (hfuel : 2 * l.length + 2 ≤ fuel) (rest : Bytes) :
    skipFrom fuel (.more false) [.list]
      (charBytes (σ.moreEntries (l.map quote)) ++ byte ']' :: rest) = (.ok (), rest) := by
  induction l generalizing fuel with
  | nil =>
    obtain ⟨k, rfl⟩ : ∃ k, fuel = k + 2 := ⟨fuel - 2, by omega⟩
    exact skipFrom_close σ.close_blank k false rest
  | cons s l ih =>
    simp only [List.length_cons] at hfuel
    obtain ⟨k, rfl⟩ : ∃ k, fuel = k + 2 := ⟨fuel - 2, by omega⟩
    rw [List.map_cons, Spacing.charBytes_moreEntries_cons, skipFrom_comma,
      skipFrom_quote σ.before_blank]
    exact ih (by omega)

/-- A list of texts is passed over, wherever there is white space in it. -/
theorem skipValue_entries (l : List String) (rest : Bytes) :
    skipValue (charBytes (σ.entries '[' ']' (l.map quote)) ++ rest) = (.ok (), rest) := by
  have hopen (fuel : Nat) (s : Bytes) : skipFrom (fuel + 1) .value [] (byte '[' :: s) =
      skipFrom fuel (.more true) [.list] s := rfl
  unfold skipValue
  rw [bind_of_ok (bound_apply _), Nat.mul_add]
  cases l with
  | nil => exact (hopen _ _).trans (skipFrom_close blank_nil _ true rest)
  | cons s l =>
    have hlen := σ.length_le_moreEntries (l.map quote)
    rw [List.length_map] at hlen
    rw [List.map_cons, σ.charBytes_entries_cons (by decide) (by decide)]
    obtain ⟨k, hk, hle⟩ : ∃ k, 2 * (byte '[' :: (charBytes σ.before ++ (charBytes (quote s) ++
        (charBytes (σ.moreEntries (l.map quote)) ++ byte ']' :: rest)))).length + 2 * 1 = k + 3 ∧
          2 * l.length + 2 ≤ k := by
      simp only [List.length_append, List.length_cons]
      exact ⟨_, Nat.eq_add_of_sub_eq (by omega) rfl, by omega⟩
    rw [hk, hopen, skipFrom_first_quote σ.before_blank]
    exact (skipFrom_quote blank_nil s _ [.list] _).trans
      (skipFrom_moreEntries σ l hle rest)

end

theorem skips_texts (l : List String) : Skips (texts l) := by
  intro rest
  rw [compact_texts]
  exact skipValue_entries _ l rest

theorem skips_bool (b : Bool) : Skips (bool b) := by
  intro rest
  unfold skipValue
  rw [bind_of_ok (bound_apply _), Nat.mul_add]
  cases b <;> rfl

end Turnstile.Json
