import Turnstile.Config.Secret
import Turnstile.Proofs.Config.Token
import Turnstile.Proofs.Text.Utf8

/-! The signing secret is the same at every start: the environment gives it, or else the secret file
holds it, and the file is written only when neither does. -/

namespace Turnstile.Secret

variable {env : Environment} {file : Option Bytes} {name fresh other : String} {r : Resolved}

/-- A variable that gives no secret: it is unset, empty or not UTF-8. -/
inductive Lacking (env : Environment) (name : String) : Prop
  | unset : env.entries.lookup name = none → Lacking env name
  | empty : env.entries.lookup name = some [] → Lacking env name
  | invalid {b : Bytes} : env.entries.lookup name = some b → ofUtf8? b = none → Lacking env name

/-- A file that holds no secret: it is absent, not UTF-8 or blank. -/
inductive Vacant : Option Bytes → Prop
  | absent : Vacant none
  | invalid {b : Bytes} : ofUtf8? b = none → Vacant (some b)
  | blank {b : Bytes} {text : String} : ofUtf8? b = some text →
    (∀ x ∈ text.toList, isBlank x = true) → Vacant (some b)

/-- A file holds a text that is this word, with blanks around it. -/
def Holds (file : Option Bytes) (word : String) : Prop :=
  ∃ b text, file = some b ∧ ofUtf8? b = some text ∧ word ≠ "" ∧
    Padded word.toList text.toList ∧ Stripped word.toList

theorem lacking_iff : Lacking env name ↔ (env.lookup name).filter (· ≠ "") = none := by
  have hempty : utf8 "" = [] := rfl
  unfold Environment.lookup
  constructor
  · rintro (h | h | ⟨h, hb⟩)
    · rw [h]
      rfl
    · rw [h, Option.bind_some, ← hempty, ofUtf8?_utf8]
      rfl
    · rw [h, Option.bind_some, hb]
      rfl
  · intro h
    cases hentry : env.entries.lookup name with
    | none => exact .unset hentry
    | some b =>
      cases hb : ofUtf8? b with
      | none => exact .invalid hentry hb
      | some s =>
        rw [hentry, Option.bind_some, hb] at h
        obtain rfl : s = "" := by simpa [Option.filter] using h
        exact .empty (by rw [hentry, ← utf8_of_ofUtf8? hb, hempty])

private theorem stored?_of_text {b : Bytes} {text : String} (h : ofUtf8? b = some text) :
    stored? (some b) = (some (trim text)).filter (· ≠ "") := by
  unfold stored?
  rw [Option.bind_some, h, Option.map_some]

theorem stored?_eq_none : stored? file = none ↔ Vacant file := by
  constructor
  · intro h
    cases file with
    | none => exact .absent
    | some b =>
      cases hb : ofUtf8? b with
      | none => exact .invalid hb
      | some text =>
        rw [stored?_of_text hb] at h
        have htrim : trimBlanks text.toList = [] := by
          simpa [Option.filter, trim] using h
        obtain ⟨left, right, hleft, hright, htext⟩ := padded_trimBlanks text.toList
        rw [htrim, List.append_nil] at htext
        exact .blank hb (htext ▸ List.forall_mem_append.mpr ⟨hleft, hright⟩)
  · rintro (_ | hb | ⟨hb, hblank⟩)
    · rfl
    · unfold stored?
      rw [Option.bind_some, hb]
      rfl
    · rw [stored?_of_text hb, trim, trimBlanks_eq_nil hblank]
      rfl

theorem holds_of_stored? {word : String} (h : stored? file = some word) : Holds file word := by
  cases file with
  | none => cases h
  | some b =>
    cases hb : ofUtf8? b with
    | none =>
      unfold stored? at h
      rw [Option.bind_some, hb] at h
      cases h
    | some text =>
      rw [stored?_of_text hb] at h
      obtain ⟨htrim, hword⟩ := Option.filter_eq_some_iff.mp h
      obtain rfl := Option.some.inj htrim
      refine ⟨b, text, rfl, hb, of_decide_eq_true hword, ?_, ?_⟩ <;>
        rw [trim, String.toList_ofList]
      · exact padded_trimBlanks _
      · exact stripped_trimBlanks _

/-- A text that is kept in a file as it stands. -/
structure Storable (s : String) : Prop where
  nonempty : s ≠ ""
  visible : ∀ x ∈ s.toList, isBlank x = false

theorem stored?_utf8 {s : String} (h : Storable s) : stored? (some (utf8 s)) = some s := by
  have htrim := trimBlanks_append (List.forall_mem_nil _) h.visible (List.forall_mem_nil _)
  rw [List.nil_append, List.append_nil] at htrim
  rw [stored?_of_text (ofUtf8?_utf8 s), trim, htrim, String.ofList_toList]
  simp [Option.filter, h.nonempty]

/-- The settings of the environment come first, then the file, then a fresh secret. -/
theorem resolve_eq (env : Environment) (file : Option Bytes) (fresh : String) :
    resolve env file fresh = match TokenConfig.secretSetting? env.lookup with
      | some s => ⟨s, file⟩
      | none => match stored? file with
        | some s => ⟨s, file⟩
        | none => ⟨fresh, some (utf8 fresh)⟩ := by
  unfold resolve
  rw [TokenConfig.secretSetting?_eq]
  cases (env.lookup "JWT_SECRET").filter (· ≠ "") with
  | some s => rfl
  | none => cases (env.lookup "AUTH_SECRET").filter (· ≠ "") <;> rfl

theorem lacking_both_iff : Lacking env "JWT_SECRET" ∧ Lacking env "AUTH_SECRET" ↔
    TokenConfig.secretSetting? env.lookup = none := by
  rw [lacking_iff, lacking_iff, TokenConfig.secretSetting?_eq, Option.or_eq_none_iff]

/-- Where a secret is found, and what becomes of the file. -/
inductive Found (env : Environment) (file : Option Bytes) (fresh : String) : Resolved → Prop
  | given {s : String} : TokenConfig.secretSetting? env.lookup = some s → s ≠ "" →
    Found env file fresh ⟨s, file⟩
  | kept {s : String} : TokenConfig.secretSetting? env.lookup = none → stored? file = some s →
    Found env file fresh ⟨s, file⟩
  | generated : TokenConfig.secretSetting? env.lookup = none → stored? file = none →
    Found env file fresh ⟨fresh, some (utf8 fresh)⟩

theorem found_resolve (env : Environment) (file : Option Bytes) (fresh : String) :
    Found env file fresh (resolve env file fresh) := by
  rw [resolve_eq]
  cases hset : TokenConfig.secretSetting? env.lookup with
  | some s =>
    have hs : s ≠ "" := by
      simpa using List.find?_some (p := fun s : String => decide (s ≠ "")) hset
    exact .given hset hs
  | none =>
    cases hstored : stored? file with
    | some s => exact .kept hset hstored
    | none => exact .generated hset hstored

namespace Found

variable (h : Found env file fresh r)

include h

theorem nonempty (hfresh : fresh ≠ "") : r.secret ≠ "" := by
  cases h with
  | given _ hs => exact hs
  | kept _ hstored =>
    obtain ⟨_, _, _, _, hs, _⟩ := holds_of_stored? hstored
    exact hs
  | generated _ _ => exact hfresh

/-- Settings are read with the secret that is found. -/
theorem getD_eq : (TokenConfig.secretSetting? env.lookup).getD r.secret = r.secret := by
  cases h with
  | given hset _ => rw [hset]; rfl
  | kept hset _ => rw [hset]; rfl
  | generated hset _ => rw [hset]; rfl

theorem resolve_again (hfresh : Storable fresh) (other : String) : resolve env r.file other = r := by
  rw [resolve_eq]
  cases h with
  | given hset _ => rw [hset]
  | kept hset hstored => simp only [hset, hstored]
  | generated hset _ => simp only [hset, stored?_utf8 hfresh]

theorem fileAfter_eq (hr : resolve env file fresh = r) :
    TokenConfig.fileAfter env file fresh = r.file := by
  unfold TokenConfig.fileAfter TokenConfig.usesFallback
  rw [hr]
  cases h with
  | given hset _ => rw [hset]; rfl
  | kept hset _ => rw [hset]; rfl
  | generated hset _ => rw [hset]; rfl

theorem changed_iff (hfresh : Storable fresh) : r.file ≠ file ↔
    (Lacking env "JWT_SECRET" ∧ Lacking env "AUTH_SECRET") ∧ Vacant file := by
  rw [lacking_both_iff, ← stored?_eq_none]
  cases h with
  | given hset _ => simp [hset]
  | kept _ hstored => simp [hstored]
  | generated hset hstored =>
    refine iff_of_true ?_ ⟨hset, hstored⟩
    rintro rfl
    cases hstored.symm.trans (stored?_utf8 hfresh)

theorem changed (hchanged : r.file ≠ file) : r.file = some (utf8 r.secret) := by
  cases h with
  | given _ _ => exact absurd rfl hchanged
  | kept _ _ => exact absurd rfl hchanged
  | generated _ _ => rfl

theorem holds (hlacking : Lacking env "JWT_SECRET" ∧ Lacking env "AUTH_SECRET")
    (hfile : ¬ Vacant file) : Holds file r.secret := by
  rw [lacking_both_iff] at hlacking
  rw [← stored?_eq_none] at hfile
  cases h with
  | given hset _ => cases hset.symm.trans hlacking
  | kept _ hstored => exact holds_of_stored? hstored
  | generated _ hstored => exact absurd hstored hfile

end Found

theorem storable_ofChoices {choices : List Nat} (h : choices ≠ []) :
    Storable (ofChoices choices) where
  nonempty he := by
    have hlist : (ofChoices choices).toList = [] := by rw [he]; rfl
    simp [ofChoices, h] at hlist
  visible x hx := by
    have hsymbols : alphabet.all (fun x => !isBlank x) = true := by decide
    have hmem : x ∈ alphabet := by
      unfold ofChoices at hx
      rw [String.toList_ofList] at hx
      obtain ⟨n, -, rfl⟩ := List.mem_map.mp hx
      have hn : n % alphabet.length < alphabet.length := Nat.mod_lt _ (by decide)
      rw [List.getD_eq_getElem _ _ hn]
      exact List.getElem_mem hn
    simpa using List.all_eq_true.mp hsymbols x hmem

/-- What is found holds for good. -/
structure Stable (env : Environment) (file : Option Bytes) (fresh : String) (r : Resolved) :
    Prop where
  nonempty : r.secret ≠ ""
  /-- Another look finds the same and leaves the file alone, whatever it would have generated. -/
  again : ∀ other, resolve env r.file other = r
  /-- The settings are read with this secret, and not refused for want of one. -/
  settings : ∀ c, TokenConfig.fromEnvironment env file fresh = .ok c → c.secret = r.secret
  not_refused : TokenConfig.fromEnvironment env file fresh ≠ .error .emptySecret
  /-- They are the same afterwards, and leave the same in the file. -/
  settings_again : ∀ other, TokenConfig.fromEnvironment env r.file other =
    TokenConfig.fromEnvironment env file fresh
  settings_file : TokenConfig.fileAfter env file fresh = r.file
  /-- The file changes only for want of a secret, and then holds just this one. -/
  changed_iff : r.file ≠ file ↔
    (Lacking env "JWT_SECRET" ∧ Lacking env "AUTH_SECRET") ∧ Vacant file
  changed : r.file ≠ file → r.file = some (utf8 r.secret)
  /-- What the file holds is kept. -/
  kept : Lacking env "JWT_SECRET" ∧ Lacking env "AUTH_SECRET" → ¬ Vacant file → Holds file r.secret

/-- In every environment, and whatever the secret file holds, a secret is found that stays. -/
theorem stable (env : Environment) (file : Option Bytes) (choices : List Nat)
    (h : choices.length = length) :
    Stable env file (ofChoices choices) (resolve env file (ofChoices choices)) := by
  have hfresh : Storable (ofChoices choices) :=
    storable_ofChoices fun hnil => by
      rw [hnil] at h
      cases h
  have hfound := found_resolve env file (ofChoices choices)
  have hagain := hfound.resolve_again hfresh
  have hnonempty := hfound.nonempty hfresh.nonempty
  refine ⟨hnonempty, hagain, fun c hc => ?_, ?_, fun other => ?_, hfound.fileAfter_eq rfl,
    hfound.changed_iff hfresh, hfound.changed, hfound.holds⟩
  · exact (TokenConfig.fromLookup_eq_ok.mp hc).2.1.trans hfound.getD_eq
  · exact TokenConfig.fromLookup_ne_emptySecret (hfound.getD_eq.symm ▸ hnonempty)
  · unfold TokenConfig.fromEnvironment
    rw [hagain]

/-- Of two variables without a secret and a blank file nothing is taken: a secret is generated, and
found again in the file. -/
theorem stable_blank_file :
    let env : Environment := ⟨[("JWT_SECRET", []), ("AUTH_SECRET", [0xff])]⟩
    let file : Option Bytes := some (utf8 " \n")
    let choices := List.range 64
    let r := resolve env file (ofChoices choices)
    choices.length = length ∧ Vacant file ∧ r.file = some (utf8 r.secret) ∧
      (resolve env r.file "other").secret = r.secret ∧ Stable env file (ofChoices choices) r := by
  intro env file choices r
  have hstable : Stable env file (ofChoices choices) r := stable env file choices rfl
  have hlacking : Lacking env "JWT_SECRET" ∧ Lacking env "AUTH_SECRET" :=
    ⟨.empty rfl, .invalid rfl (by decide)⟩
  have hvacant : Vacant file := .blank (ofUtf8?_utf8 " \n") (by simp [isBlank])
  have hchanged := hstable.changed_iff.mpr ⟨hlacking, hvacant⟩
  exact ⟨rfl, hvacant, hstable.changed hchanged, congrArg Resolved.secret (hstable.again "other"),
    hstable⟩

end Turnstile.Secret
