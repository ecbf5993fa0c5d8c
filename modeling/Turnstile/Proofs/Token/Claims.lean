import Turnstile.Proofs.Json.Records
import Turnstile.Proofs.SortedSet
import Turnstile.Token.Claims
import Turnstile.Token.Header
import Turnstile.Token.Registered

/-! Claims and headers are read back from the text written for them, and the registered claims are
found in it. -/

namespace Turnstile

namespace Json

theorem textsIn_texts (l : List String) : (texts l).textsIn = l := by
  unfold texts textsIn
  induction l with
  | nil => rfl
  | cons s l ih => simpa [text?] using ih

end Json

open Json

/-- An expiry that can be written into a token and read back. -/
def ValidExpiry (expiry : Int) : Prop :=
  0 ≤ expiry ∧ expiry ≤ int64Max

theorem RefreshClaims.parse_write {c : RefreshClaims} (h : ValidExpiry c.expiry) :
    format.parse (utf8 (format.write c)) = .ok c := by
  refine Format.parse_write (l := format.values c) format [some (.text c.subject),
    some (.text c.email), some (.int c.expiry), some (.text c.tokenId)] ?_ rfl rfl
  refine .known 0 _ rfl rfl rfl (reads_text _) ?_
  refine .known 1 _ rfl rfl rfl (reads_text _) ?_
  refine .known 2 _ rfl rfl rfl (reads_int h.1 h.2) ?_
  exact .known 3 _ rfl rfl rfl (reads_text _) (.nil _)

namespace AccessClaims

variable {c : AccessClaims}

private theorem build_values (c : AccessClaims) : format.build (format.values c) = some c := by
  have hroles : SortedSet.ofList (texts c.roles.elems).textsIn = c.roles := by
    rw [textsIn_texts, SortedSet.ofList_elems]
  change some (⟨c.subject, c.email, .ofList (texts c.roles.elems).textsIn, c.expiry,
    c.superuser⟩ : AccessClaims) = some c
  rw [hroles]

/-- The members written for some claims fill all their fields, in any way of writing that is read
back. -/
private theorem fillsAs {w : Json → List Char} (hw : ReadBack w) (h : ValidExpiry c.expiry) :
    FillsAs w format.fields (List.zip (format.fields.map (·.name)) (format.values c))
      (format.fields.map fun _ => none)
      [some (.text c.subject), some (.text c.email), some (texts c.roles.elems),
        some (.int c.expiry), some (.bool c.superuser)] := by
  refine .known 0 _ rfl rfl rfl (hw.text _) ?_
  refine .known 1 _ rfl rfl rfl (hw.text _) ?_
  refine .known 2 _ rfl rfl rfl (hw.texts _) ?_
  refine .known 3 _ rfl rfl rfl (hw.int h.1 h.2) ?_
  exact .known 4 _ rfl rfl rfl (hw.bool _) (.nil _)

theorem parse_write (h : ValidExpiry c.expiry) : format.parse (utf8 (format.write c)) = .ok c :=
  Format.parse_write format _ (fillsAs readBack_compact h) rfl (build_values c)

/-- Claims printed on several lines are read back. -/
theorem parse_toLines (h : ValidExpiry c.expiry) :
    format.parse (utf8 ((format.toJson c).toLines ++ "\n")) = .ok c :=
  Format.parse_toLines format _ (fillsAs (readBack_indented 1) h) rfl (build_values c)

end AccessClaims

namespace Registered

private theorem reads_orNull {r : Reader Json} {v : Json} (h : Reads r v) : Reads (orNull r) v := by
  intro d rest hd
  unfold orNull
  rw [bind_of_ok (tried_of_ok (h d rest hd))]
  rfl

private theorem reads_instant {n : Int} (h : ValidExpiry n) : Reads instant (.int n) := by
  intro d rest hd
  obtain ⟨b, hb, hpeek⟩ := peek_int h.1 (d :: rest)
  have hbegin : beginsNumber b = true := by simp [beginsNumber, hb]
  have hlist : b ≠ byte '[' := by
    rintro rfl
    exact absurd hb (by decide)
  have hrecord : b ≠ byte '\x7b' := by
    rintro rfl
    exact absurd hb (by decide)
  unfold instant
  rw [bind_of_ok hpeek]
  simp only [hlist, hrecord, hbegin, if_false, if_true]
  rw [bind_of_ok (number_int h.1 h.2 hd rest)]
  simp [h.1]

private theorem parse_of_fills {v : Json} {ms : List (String × Json)} {expiry : Int} (sub : Json)
    (hv : v = .record ms)
    (h : Fills fields ms (fields.map fun _ => none)
      [some (.int expiry), none, some sub, none, none]) :
    parse (utf8 v.toText) = .ok ⟨expiry, false⟩ := by
  have hread : parse.read (charBytes v.compact) = (.ok ⟨expiry, false⟩, []) := by
    unfold parse.read
    rw [hv, bind_of_ok (readFields_record h rfl)]
    rfl
  unfold parse toText readAll
  rw [utf8_ofList, hread]
  rfl

theorem parse_refreshClaims {c : RefreshClaims} (h : ValidExpiry c.expiry) :
    parse (utf8 (RefreshClaims.format.write c)) = .ok ⟨c.expiry, false⟩ := by
  refine parse_of_fills (.text c.subject) rfl ?_
  refine .known 2 _ rfl rfl rfl (reads_orNull (reads_option_text _)) ?_
  refine .unknown rfl (skips_text _) ?_
  refine .known 0 _ rfl rfl rfl (reads_orNull (reads_instant h)) ?_
  exact .unknown rfl (skips_text _) (.nil _)

theorem parse_accessClaims {c : AccessClaims} (h : ValidExpiry c.expiry) :
    parse (utf8 (AccessClaims.format.write c)) = .ok ⟨c.expiry, false⟩ := by
  refine parse_of_fills (.text c.subject) rfl ?_
  refine .known 2 _ rfl rfl rfl (reads_orNull (reads_option_text _)) ?_
  refine .unknown rfl (skips_text _) ?_
  refine .unknown rfl (skips_texts _) ?_
  refine .known 0 _ rfl rfl rfl (reads_orNull (reads_instant h)) ?_
  exact .unknown rfl (skips_bool _) (.nil _)

end Registered

namespace Header

private theorem reads_choice {names : List String} {s : String} (h : s ∈ names) :
    Reads (readChoice names) (.text s) := by
  intro d rest hd
  have hpeek : peek (charBytes (Json.text s).compact ++ d :: rest) =
      (.ok (some (byte '"')), charBytes (Json.text s).compact ++ d :: rest) := by
    rw [compact, charBytes_quote, List.cons_append]
    exact peek_cons (by decide) _
  have hname : readChoice.readName names (charBytes (Json.text s).compact ++ d :: rest) =
      (.ok (.text s), d :: rest) := by
    unfold readChoice.readName
    rw [bind_of_ok (reads_text s d rest hd)]
    simp [h]
  unfold readChoice
  rw [bind_of_ok hpeek, if_neg (by decide), if_pos rfl, hname]

/-- An algorithm is read back from the header written for it. -/
theorem algorithm_toText (a : Algorithm) : algorithm (utf8 (toJson a).toText) = .ok a := by
  have hname : a.name ∈ Algorithm.all.map Algorithm.name := by
    cases a <;> decide
  have hof : Algorithm.ofName? a.name = some a := by
    cases a <;> rfl
  have hfills : Fills fields [("typ", .text "JWT"), ("alg", .text a.name)]
      (fields.map fun _ => none)
      [some (.text "JWT"), some (.text a.name), none, none, none, none, none, none, none, none] := by
    refine .known 0 _ rfl rfl rfl (reads_option_text _) ?_
    exact .known 1 _ rfl rfl rfl (reads_choice hname) (.nil _)
  have hread : algorithm.read (charBytes (toJson a).compact) = (.ok a, []) := by
    unfold algorithm.read toJson
    rw [bind_of_ok (readFields_record hfills rfl)]
    simp [hof]
  unfold algorithm toText readAll
  rw [utf8_ofList, hread]
  rfl

end Header

end Turnstile
