import Turnstile.Proofs.Json.Written

/-! Written records: a record reads back into the values of its fields, whatever other members it
has and however it is laid out. -/

namespace Turnstile.Json

/-- How the members of a record, their values written as `w` has it, fill the values of some
fields: a member with the name of a field that has no value yet is read by that field, any other one
is passed over. -/
inductive FillsAs (w : Json → List Char) (fields : List Field) :
    List (String × Json) → List (Option Json) → List (Option Json) → Prop
  | nil (vs : List (Option Json)) : FillsAs w fields [] vs vs
  | known {k : String} {v : Json} {ms : List (String × Json)} {vs ws : List (Option Json)} (i : Nat)
      (f : Field) : fields.findIdx? (fun f => f.name = k) = some i → fields[i]? = some f →
    vs.getD i none = none → ReadsAs w f.read v → FillsAs w fields ms (vs.set i (some v)) ws →
    FillsAs w fields ((k, v) :: ms) vs ws
  | unknown {k : String} {v : Json} {ms : List (String × Json)} {vs ws : List (Option Json)} :
    fields.findIdx? (fun f => f.name = k) = none → SkipsAs w v → FillsAs w fields ms vs ws →
    FillsAs w fields ((k, v) :: ms) vs ws

/-- How the members of a compact record fill the values of some fields. -/
abbrev Fills := FillsAs compact

/-- A member, its value written as `w` has it. -/
def member (w : Json → List Char) (m : String × Json) : List Char :=
  quote m.1 ++ ':' :: w m.2

/-- A record, its values written as `w` has it. -/
def Spacing.record (σ : Spacing) (w : Json → List Char) (ms : List (String × Json)) : List Char :=
  σ.entries '\x7b' '\x7d' (ms.map (member w))

private theorem compactMembers_eq (m : String × Json) (ms : List (String × Json)) :
    compactMembers (m :: ms) =
      member compact m ++ Spacing.tight.moreEntries (ms.map (member compact)) := by
  induction ms generalizing m with
  | nil => exact (List.append_nil _).symm
  | cons m' ms ih =>
    have htext : compactMembers (m :: m' :: ms) =
        quote m.1 ++ ':' :: compact m.2 ++ ',' :: compactMembers (m' :: ms) := rfl
    rw [htext, ih]
    rfl

theorem compact_record (ms : List (String × Json)) :
    compact (record ms) = Spacing.tight.record compact ms := by
  cases ms with
  | nil => rfl
  | cons m ms =>
    have htext : compact (record (m :: ms)) = '\x7b' :: (compactMembers (m :: ms) ++ ['\x7d']) :=
      rfl
    rw [htext, compactMembers_eq, List.append_assoc]
    rfl

private theorem prettyMembers_eq (n : Nat) (m : String × Json) (ms : List (String × Json)) :
    prettyMembers n (m :: ms) ++ newline n =
      newline (n + 1) ++ (member (indented (n + 1)) m ++
        (Spacing.lines n).moreEntries (ms.map (member (indented (n + 1))))) := by
  induction ms generalizing m with
  | nil =>
    have htext : prettyMembers n [m] =
        newline (n + 1) ++ quote m.1 ++ [':', ' '] ++ pretty (n + 1) m.2 := rfl
    simp only [htext, member, indented, List.map_nil, Spacing.moreEntries, List.append_assoc,
      List.cons_append, List.nil_append]
    rfl
  | cons m' ms ih =>
    have htext : prettyMembers n (m :: m' :: ms) = newline (n + 1) ++ quote m.1 ++ [':', ' '] ++
        pretty (n + 1) m.2 ++ ',' :: prettyMembers n (m' :: ms) := rfl
    simp only [htext, List.append_assoc, List.cons_append, List.nil_append, ih]
    simp only [member, indented, List.map_cons, Spacing.moreEntries, List.append_assoc,
      List.cons_append]
    rfl

theorem pretty_record (n : Nat) (ms : List (String × Json)) :
    pretty n (record ms) = (Spacing.lines n).record (indented (n + 1)) ms := by
  cases ms with
  | nil => rfl
  | cons m ms =>
    have htext : pretty n (record (m :: ms)) =
        '\x7b' :: ((prettyMembers n (m :: ms) ++ newline n) ++ ['\x7d']) := rfl
    rw [htext, prettyMembers_eq, List.append_assoc, List.append_assoc]
    rfl

private theorem memberName?_quote (k : String) (rest : Bytes) :
    memberName? true (charBytes (quote k) ++ rest) = (.ok (some k), rest) := by
  unfold memberName?
  rw [charBytes_quote_append, bind_of_ok (peek_cons (by decide) _)]
  simp only
  rw [if_neg (by decide), if_neg (by decide), bind_of_ok (peek_cons (by decide) _), if_pos rfl,
    bind_of_ok (advance_apply _), List.tail_cons, bind_of_ok (textBody_quote k rest)]
  rfl

/-- After a comma the white space before the next name is passed over. -/
private theorem memberName?_comma {sp : Bytes} (hsp : Blank sp) (k : String) (rest : Bytes) :
    memberName? false (byte ',' :: (sp ++ (charBytes (quote k) ++ rest))) = (.ok (some k), rest) := by
  unfold memberName?
  rw [charBytes_quote_append, bind_of_ok (peek_cons (by decide) _)]
  simp only
  rw [if_neg (by decide), if_pos (by decide), if_neg (by decide), bind_of_ok (advance_apply _),
    List.tail_cons, (lenient_peek_bind _).append hsp, bind_of_ok (peek_cons (by decide) _),
    if_pos rfl, bind_of_ok (advance_apply _), List.tail_cons, bind_of_ok (textBody_quote k rest)]
  rfl

private theorem colon_cons (rest : Bytes) : colon (byte ':' :: rest) = (.ok (), rest) := rfl

section

variable {w : Json → List Char} {fields : List Field} (σ : Spacing)

private theorem charBytes_member (k : String) (v : Json) (rest : Bytes) :
    charBytes (member w (k, v)) ++ rest =
      charBytes (quote k) ++ byte ':' :: (charBytes (w v) ++ rest) := by
  have hcolon : String.utf8EncodeChar ':' = [byte ':'] := rfl
  rw [member, charBytes_append, charBytes_cons, hcolon, List.append_assoc]
  rfl

/-- One member and those after it, once its name is read. -/
private theorem readMembers_step {k : String} {v : Json} {ms : List (String × Json)}
    {vs ws : List (Option Json)} {fuel : Nat} {first : Bool} {s rest : Bytes}
    (hfills : FillsAs w fields ((k, v) :: ms) vs ws)
    (hname : memberName? first s = (.ok (some k), byte ':' :: (charBytes (w v) ++
      (charBytes (σ.moreEntries (ms.map (member w))) ++ byte '\x7d' :: rest))))
    (hmore : ∀ vs, FillsAs w fields ms vs ws → readMembers fields fuel false vs
      (charBytes (σ.moreEntries (ms.map (member w))) ++ byte '\x7d' :: rest) =
        (.ok ws, byte '\x7d' :: rest)) :
    readMembers fields (fuel + 1) first vs s = (.ok ws, byte '\x7d' :: rest) := by
  obtain ⟨d, t, hd, hsplit⟩ := σ.moreEntries_delimited (ms.map (member w)) .brace rest
  rw [readMembers, bind_of_ok hname]
  cases hfills with
  | known i f hi hf hvs hread hms =>
    have hnew : (vs.getD i none).isSome = false := by rw [hvs]; rfl
    simp only [hi, hf, hnew, Bool.false_eq_true, if_false, Option.map_some, Option.getD_some]
    rw [bind_of_ok (colon_cons _), hsplit, bind_of_ok (hread d t hd), ← hsplit]
    exact hmore _ hms
  | unknown hi hskip hms =>
    simp only [hi]
    rw [bind_of_ok (colon_cons _), bind_of_ok (hskip _)]
    exact hmore _ hms

private theorem readMembers_end {sp : Bytes} (hsp : Blank sp) (fuel : Nat) (first : Bool)
    (vs : List (Option Json)) (rest : Bytes) :
    readMembers fields (fuel + 1) first vs (sp ++ byte '\x7d' :: rest) =
      (.ok vs, byte '\x7d' :: rest) := by
  have hend : memberName? first (sp ++ byte '\x7d' :: rest) = (.ok none, byte '\x7d' :: rest) := by
    rw [(lenient_memberName? first).append hsp]
    rfl
  rw [readMembers, bind_of_ok hend]
  rfl

private theorem readMembers_moreEntries {ms : List (String × Json)} {vs ws : List (Option Json)}
    (hfills : FillsAs w fields ms vs ws) {fuel : Nat} (hfuel : ms.length < fuel) (rest : Bytes) :
    readMembers fields fuel false vs
      (charBytes (σ.moreEntries (ms.map (member w))) ++ byte '\x7d' :: rest) =
        (.ok ws, byte '\x7d' :: rest) := by
  induction ms generalizing vs fuel with
  | nil =>
    obtain ⟨fuel, rfl⟩ : ∃ k, fuel = k + 1 := ⟨fuel - 1, by omega⟩
    cases hfills
    exact readMembers_end σ.close_blank fuel false _ rest
  | cons m ms ih =>
    obtain ⟨k, v⟩ := m
    obtain ⟨fuel, rfl⟩ : ∃ k, fuel = k + 1 := ⟨fuel - 1, by omega⟩
    simp only [List.length_cons] at hfuel
    refine readMembers_step σ hfills ?_ fun vs h => ih h (by omega)
    rw [List.map_cons, Spacing.charBytes_moreEntries_cons, charBytes_member]
    exact memberName?_comma σ.before_blank k _

/-- A written record is read to its end, and gives what the values amount to that its members fill
in, wherever there is white space in it. -/
theorem readFields_record_append {ms : List (String × Json)} {ws : List (Option Json)}
    (hfills : FillsAs w fields ms (fields.map fun _ => none) ws) (rest : Bytes) :
    readFields fields (charBytes (σ.record w ms) ++ rest) = (complete fields ws, rest) := by
  obtain ⟨inside, hsplit, hmembers⟩ : ∃ inside,
      charBytes (σ.record w ms) ++ rest = byte '\x7b' :: inside ∧
        readMembers fields (inside.length + 1) true (fields.map fun _ => none) inside =
          (.ok ws, byte '\x7d' :: rest) := by
    cases ms with
    | nil =>
      cases hfills
      exact ⟨byte '\x7d' :: rest, rfl, readMembers_end blank_nil _ true _ rest⟩
    | cons m ms =>
      obtain ⟨k, v⟩ := m
      refine ⟨_, σ.charBytes_entries_cons (by decide) (by decide) _ _ _, ?_⟩
      have hlen := σ.length_le_moreEntries (ms.map (member w))
      rw [List.length_map] at hlen
      refine readMembers_step σ hfills ?_ fun vs h => readMembers_moreEntries σ h ?_ rest
      · rw [charBytes_member, (lenient_memberName? true).append σ.before_blank]
        exact memberName?_quote k _
      · simp only [List.length_append, List.length_cons]
        omega
  have hclose : closeRecord (byte '\x7d' :: rest) = (.ok (), rest) := rfl
  have hinside : (do
      let values ← readMembers fields (inside.length + 1) true (fields.map fun _ => none)
      complete fields values : Reader (List Json)) inside =
        (complete fields ws, byte '\x7d' :: rest) := by
    rw [bind_of_ok hmembers]
    cases complete fields ws <;> rfl
  unfold readFields
  rw [hsplit, bind_of_ok (peek_cons (by decide) _), if_pos rfl, bind_of_ok (advance_apply _),
    List.tail_cons, bind_of_ok (bound_apply _)]
  unfold enclosed
  simp only [hinside]
  cases complete fields ws <;> simp only [hclose]

end

/-- A compact record is read to its end, and gives what the values amount to that its members fill
in. -/
theorem readFields_record_eq {fields : List Field} {ms : List (String × Json)}
    {ws : List (Option Json)} (hfills : Fills fields ms (fields.map fun _ => none) ws) :
    readFields fields (charBytes (record ms).compact) = (complete fields ws, []) := by
  rw [compact_record]
  simpa using readFields_record_append Spacing.tight hfills []

/-- A written record is read into the values that its members fill in. -/
theorem readFields_record {fields : List Field} {ms : List (String × Json)}
    {ws : List (Option Json)} {l : List Json}
    (hfills : Fills fields ms (fields.map fun _ => none) ws)
    (hcomplete : complete fields ws = .ok l) :
    readFields fields (charBytes (record ms).compact) = (.ok l, []) := by
  rw [readFields_record_eq hfills, hcomplete]

/-- A written element is read back, also with white space in it and after it. -/
theorem Format.parse_record {α : Type} (f : Format α) (σ : Spacing) (w : Json → List Char) {a : α}
    (ws : List (Option Json)) {l : List Json}
    (hfills : FillsAs w f.fields (List.zip (f.fields.map (·.name)) (f.values a))
      (f.fields.map fun _ => none) ws)
    (hcomplete : complete f.fields ws = .ok l) (hbuild : f.build l = some a) {rest : Bytes}
    (hrest : Blank rest) :
    f.parse (charBytes (σ.record w (List.zip (f.fields.map (·.name)) (f.values a))) ++ rest) =
      .ok a := by
  have hfields := readFields_record_append σ hfills rest
  rw [hcomplete] at hfields
  have hall : rest.all isSpace = true := List.all_eq_true.mpr hrest
  unfold Format.parse Format.read readAll
  rw [bind_of_ok hfields, hbuild]
  simp only [pure_apply, hall, if_true]

/-- An element is read back from its compact text. -/
theorem Format.parse_write {α : Type} (f : Format α) {a : α} (ws : List (Option Json))
    {l : List Json}
    (hfills : Fills f.fields (List.zip (f.fields.map (·.name)) (f.values a))
      (f.fields.map fun _ => none) ws)
    (hcomplete : complete f.fields ws = .ok l) (hbuild : f.build l = some a) :
    f.parse (utf8 (f.write a)) = .ok a := by
  have hparse := f.parse_record Spacing.tight compact ws hfills hcomplete hbuild blank_nil
  unfold Format.write Format.toJson Json.toText
  rw [utf8_ofList, compact_record]
  simpa using hparse

/-- An element is read back from its text on several lines, the last of which is ended. -/
theorem Format.parse_toLines {α : Type} (f : Format α) {a : α} (ws : List (Option Json))
    {l : List Json}
    (hfills : FillsAs (indented 1) f.fields (List.zip (f.fields.map (·.name)) (f.values a))
      (f.fields.map fun _ => none) ws)
    (hcomplete : complete f.fields ws = .ok l) (hbuild : f.build l = some a) :
    f.parse (utf8 ((f.toJson a).toLines ++ "\n")) = .ok a := by
  have hblank : Blank (charBytes "\n".toList) := Spacing.blank_newline 0
  have hparse := f.parse_record (.lines 0) (indented 1) ws hfills hcomplete hbuild hblank
  unfold Format.toJson Json.toLines
  rw [utf8_eq_charBytes, String.toList_append, String.toList_ofList, charBytes_append,
    pretty_record]
  exact hparse

/-- A written record that lacks a member is refused. -/
theorem Format.parse_record_error {α : Type} (f : Format α) {ms : List (String × Json)}
    (ws : List (Option Json)) {e : Fault} (hfills : Fills f.fields ms (f.fields.map fun _ => none) ws)
    (hcomplete : complete f.fields ws = .error e) :
    f.parse (utf8 (record ms).toText) = .error e := by
  have hread : f.read (charBytes (record ms).compact) = (.error e, []) := by
    have hfields := readFields_record_eq hfills
    rw [hcomplete] at hfields
    unfold Format.read
    rw [bind_of_error hfields]
  unfold Format.parse Json.toText readAll
  rw [utf8_ofList, hread]

end Turnstile.Json
