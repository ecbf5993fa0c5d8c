import Mathlib.Data.List.Forall2
import Turnstile.Proofs.Except
import Turnstile.Proofs.Text.Integer
import Turnstile.Proofs.Token.Codec

/-! Reading the settings that tokens are signed with: what is read can be used as it stands, whatever
can be used is read from its spellings, and any other lifetime or algorithm is refused. -/

namespace Turnstile.TokenConfig

variable {text : String} {n : Int} {a : Algorithm} {c : TokenConfig}

/-- The upper case of a character is some capital letter or digit: of all characters, these are the
capital or digit itself, its small letter, and the long `ſ` for an `S`. -/
def Capitalizes (x capital : Char) : Prop :=
  x = capital ∨ x = capital.toLower ∨ x = 'ſ' ∧ capital = 'S'

/-- A text names an algorithm in any mix of cases, with blanks around the name. -/
def Names (text : String) (a : Algorithm) : Prop :=
  ∃ word, Padded word text.toList ∧ List.Forall₂ Capitalizes word a.name.toList

/-- A visible character that is its own upper case, and nothing but ASCII in lower case. -/
structure Capital (x : Char) : Prop where
  upper : x.toUpper = x
  short : x ≠ 'ſ' ∧ x.toLower ≠ 'ſ'
  visible : isBlank x = false ∧ isBlank x.toLower = false

private theorem capital_of_mem_name (ha : a.isSymmetric = true) :
    ∀ x ∈ a.name.toList, Capital x := by
  -- The names are made of few characters, each of which is looked at.
  have hfew : a.name.toList ⊆ ['H', 'S', '1', '2', '3', '4', '5', '6', '8'] := by
    cases a with
    | hs256 | hs384 | hs512 => simp [Algorithm.name]
    | _ => exact absurd ha (by decide)
  intro x hx
  have hmem := hfew hx
  simp only [List.mem_cons, List.not_mem_nil, or_false] at hmem
  rcases hmem with rfl | rfl | rfl | rfl | rfl | rfl | rfl | rfl | rfl <;>
    exact ⟨by decide, by decide, by decide⟩

theorem toNat_toUpper (x : Char) :
    x.toUpper.toNat = if 97 ≤ x.toNat ∧ x.toNat ≤ 122 then x.toNat - 32 else x.toNat := by
  unfold Char.toUpper Char.toNat
  split <;> grind [UInt32.toNat_add, UInt32.le_iff_toNat_le]

theorem toNat_toLower (x : Char) :
    x.toLower.toNat = if 65 ≤ x.toNat ∧ x.toNat ≤ 90 then x.toNat + 32 else x.toNat := by
  unfold Char.toLower Char.toNat
  split <;> grind [UInt32.toNat_add, UInt32.le_iff_toNat_le]

theorem toUpper_eq_iff {x capital : Char} (h : capital.toUpper = capital) :
    x.toUpper = capital ↔ x = capital ∨ x = capital.toLower := by
  have hcapital := toNat_toUpper capital
  rw [h] at hcapital
  simp only [← Char.toNat_inj, toNat_toUpper, toNat_toLower]
  grind

theorem upperChar_eq_iff {x capital : Char} (h : Capital capital) :
    upperChar x = capital ↔ Capitalizes x capital := by
  unfold upperChar Capitalizes
  by_cases hlong : x = 'ſ'
  · subst hlong
    simp [h.short.1.symm, h.short.2.symm, eq_comm]
  · simp [hlong, toUpper_eq_iff h.upper]

theorem Capitalizes.not_blank {x capital : Char} (hx : Capitalizes x capital)
    (h : Capital capital) : isBlank x = false := by
  rcases hx with rfl | rfl | ⟨rfl, -⟩
  · exact h.visible.1
  · exact h.visible.2
  · rfl

private theorem map_upperChar_eq_iff {word name : List Char} (h : ∀ x ∈ name, Capital x) :
    word.map upperChar = name ↔ List.Forall₂ Capitalizes word name := by
  induction name generalizing word with
  | nil => simp
  | cons capital name ih =>
    obtain ⟨hcapital, hname⟩ := List.forall_mem_cons.mp h
    cases word with
    | nil => simp
    | cons x word =>
      rw [List.map_cons, List.cons_eq_cons, upperChar_eq_iff hcapital, ih hname,
        List.forall₂_cons]

private theorem not_blank_of_capitalizes {word name : List Char} (h : ∀ x ∈ name, Capital x)
    (hword : List.Forall₂ Capitalizes word name) : ∀ x ∈ word, isBlank x = false := by
  induction hword with
  | nil => simp
  | cons hx _ ih =>
    obtain ⟨hcapital, hname⟩ := List.forall_mem_cons.mp h
    exact List.forall_mem_cons.mpr ⟨hx.not_blank hcapital, ih hname⟩

theorem ofName?_eq_some {s : String} : Algorithm.ofName? s = some a ↔ s = a.name := by
  constructor
  · intro h
    have hname := List.find?_some (p := fun a : Algorithm => a.name = s) h
    exact (of_decide_eq_true hname).symm
  · rintro rfl
    cases a <;> decide

/-- The algorithms that a text may name are the symmetric ones. -/
theorem parseAlgorithm_eq_ok :
    parseAlgorithm text = .ok a ↔ a.isSymmetric = true ∧ Names text a := by
  have hname {s : List Char} : Algorithm.ofName? (String.ofList s) = some a ↔ s = a.name.toList := by
    rw [ofName?_eq_some, ← String.toList_inj, String.toList_ofList]
  unfold parseAlgorithm
  constructor
  · intro h
    cases hfound : Algorithm.ofName? (String.ofList ((trimBlanks text.toList).map upperChar)) with
    | none =>
      rw [hfound] at h
      cases h
    | some b =>
      rw [hfound] at h
      dsimp only at h
      split at h
      · rename_i hsymmetric
        cases h
        have hword := (map_upperChar_eq_iff (capital_of_mem_name hsymmetric)).mp (hname.mp hfound)
        exact ⟨hsymmetric, _, padded_trimBlanks _, hword⟩
      · cases h
  · rintro ⟨hsymmetric, word, hpadded, hword⟩
    have hcapital := capital_of_mem_name hsymmetric
    have htrim : trimBlanks text.toList = word :=
      hpadded.trimBlanks_eq (not_blank_of_capitalizes hcapital hword)
    have hfound := hname.mpr ((map_upperChar_eq_iff hcapital).mpr hword)
    simp only [htrim, hfound, hsymmetric, if_true]

/-- A text spells an integer, with blanks around it. -/
def Writes (text : String) (n : Int) : Prop :=
  ∃ word, Padded word text.toList ∧ Spells word n

theorem parseMinutes_eq_ok {setting : String} {default : Int} :
    parseMinutes setting default (some text) = .ok n ↔
      Writes text n ∧ int64Min ≤ n ∧ n ≤ int64Max := by
  unfold parseMinutes
  constructor
  · intro h
    cases hread : int64? (trimBlanks text.toList) with
    | none => simp [hread] at h
    | some m =>
      simp only [hread] at h
      cases h
      obtain ⟨hspells, hrange⟩ := int64?_eq_some.mp hread
      exact ⟨⟨_, padded_trimBlanks _, hspells⟩, hrange⟩
  · rintro ⟨⟨word, hpadded, hspells⟩, hrange⟩
    have htrim : trimBlanks text.toList = word := hpadded.trimBlanks_eq hspells.not_blank
    simp only [htrim, int64?_eq_some.mpr ⟨hspells, hrange⟩]

theorem checkLifetime_eq_ok {setting : String} :
    checkLifetime setting n = .ok () ↔ 1 ≤ n ∧ n ≤ maxLifetimeMinutes := by
  unfold checkLifetime
  split <;> simp_all

theorem validate_eq_ok : c.validate = .ok () ↔
    c.secret ≠ "" ∧ c.algorithm.isSymmetric = true ∧
      (1 ≤ c.accessMinutes ∧ c.accessMinutes ≤ maxLifetimeMinutes) ∧
      1 ≤ c.refreshMinutes ∧ c.refreshMinutes ≤ maxLifetimeMinutes := by
  unfold validate
  by_cases hsecret : c.secret = ""
  · rw [if_pos hsecret]
    exact iff_of_false (fun h => nomatch h) fun h => h.1 hsecret
  by_cases hsymmetric : c.algorithm.isSymmetric = true
  · rw [if_neg hsecret, if_neg (not_not_intro hsymmetric)]
    by_cases haccess : 1 ≤ c.accessMinutes ∧ c.accessMinutes ≤ maxLifetimeMinutes
    · rw [checkLifetime_eq_ok.mpr haccess]
      refine Iff.trans checkLifetime_eq_ok ⟨fun h => ⟨hsecret, hsymmetric, haccess, h⟩, ?_⟩
      exact fun h => h.2.2.2
    · refine iff_of_false (fun h => ?_) fun h => haccess h.2.2.1
      obtain ⟨_, hchecked, -⟩ := exists_of_bind_eq_ok h
      exact haccess (checkLifetime_eq_ok.mp hchecked)
  · rw [if_neg hsecret, if_pos hsymmetric]
    exact iff_of_false (fun h => nomatch h) fun h => hsymmetric h.2.1

/-- A setting that is there is written down, and one that is not has its default. -/
def Gives {α : Type} (written : String → α → Prop) (default : α) : Option String → α → Prop
  | none, x => x = default
  | some text, x => written text x

theorem gives_iff {α : Type} {written : String → α → Prop} {default x : α}
    {setting : Option String} (h : setting = some text) :
    Gives written default setting x ↔ written text x := by
  rw [h, Gives]

private def givenAlgorithm : Option String → Except Misconfigured Algorithm
  | none => .ok .hs256
  | some text => parseAlgorithm text

private theorem givenAlgorithm_eq_ok {setting : Option String} :
    givenAlgorithm setting = .ok a ↔ a.isSymmetric = true ∧ Gives Names .hs256 setting a := by
  cases setting with
  | none =>
    refine ⟨fun h => ?_, fun h => congrArg Except.ok h.2.symm⟩
    cases h
    exact ⟨rfl, rfl⟩
  | some text => exact parseAlgorithm_eq_ok

private theorem parseMinutes_eq_ok_of_range {name : String} {default : Int}
    {setting : Option String} (hn : 1 ≤ n ∧ n ≤ maxLifetimeMinutes) :
    parseMinutes name default setting = .ok n ↔ Gives Writes default setting n := by
  cases setting with
  | none => exact ⟨fun h => (Except.ok.inj h).symm, fun h => congrArg Except.ok h.symm⟩
  | some text =>
    have hrange : int64Min ≤ n ∧ n ≤ int64Max := by
      unfold int64Min int64Max
      unfold maxLifetimeMinutes at hn
      omega
    exact parseMinutes_eq_ok.trans (and_iff_left hrange)

private theorem fromLookup_eq {lookup : String → Option String} {fallback : String} :
    fromLookup lookup fallback = (do
      let algorithm ← givenAlgorithm (lookup "JWT_ALGORITHM")
      let access ← parseMinutes accessSetting defaultAccessMinutes (lookup accessSetting)
      let refresh ← parseMinutes refreshSetting defaultRefreshMinutes (lookup refreshSetting)
      let config : TokenConfig :=
        ⟨(secretSetting? lookup).getD fallback, algorithm, access, refresh⟩
      config.validate
      return config) := by
  unfold fromLookup
  cases lookup "JWT_ALGORITHM" <;> rfl

/-- The settings that are read are those that are given and valid. -/
theorem fromLookup_eq_ok {lookup : String → Option String} {fallback : String} :
    fromLookup lookup fallback = .ok c ↔
      c.validate = .ok () ∧ c.secret = (secretSetting? lookup).getD fallback ∧
        Gives Names .hs256 (lookup "JWT_ALGORITHM") c.algorithm ∧
        Gives Writes defaultAccessMinutes (lookup accessSetting) c.accessMinutes ∧
        Gives Writes defaultRefreshMinutes (lookup refreshSetting) c.refreshMinutes := by
  rw [fromLookup_eq]
  constructor
  · intro h
    obtain ⟨algorithm, halgorithm, h⟩ := exists_of_bind_eq_ok h
    obtain ⟨access, haccess, h⟩ := exists_of_bind_eq_ok h
    obtain ⟨refresh, hrefresh, h⟩ := exists_of_bind_eq_ok h
    obtain ⟨_, hvalid, h⟩ := exists_of_bind_eq_ok h
    cases h
    obtain ⟨-, -, haccessRange, hrefreshRange⟩ := validate_eq_ok.mp hvalid
    exact ⟨hvalid, rfl, (givenAlgorithm_eq_ok.mp halgorithm).2,
      (parseMinutes_eq_ok_of_range haccessRange).mp haccess,
      (parseMinutes_eq_ok_of_range hrefreshRange).mp hrefresh⟩
  · rintro ⟨hvalid, hsecret, halgorithm, haccess, hrefresh⟩
    obtain ⟨-, hsymmetric, haccessRange, hrefreshRange⟩ := validate_eq_ok.mp hvalid
    rw [givenAlgorithm_eq_ok.mpr ⟨hsymmetric, halgorithm⟩,
      (parseMinutes_eq_ok_of_range haccessRange).mpr haccess,
      (parseMinutes_eq_ok_of_range hrefreshRange).mpr hrefresh, ← hsecret]
    change (c.validate >>= fun _ => pure c) = .ok c
    rw [hvalid]
    rfl

private theorem givenAlgorithm_error {setting : Option String} {e : Misconfigured}
    (h : givenAlgorithm setting = .error e) : e ≠ .emptySecret := by
  cases setting with
  | none => cases h
  | some text =>
    change parseAlgorithm text = .error e at h
    unfold parseAlgorithm at h
    rintro rfl
    split at h
    · cases h
    · split at h <;> cases h

private theorem parseMinutes_error {name : String} {default : Int} {setting : Option String}
    {e : Misconfigured} (h : parseMinutes name default setting = .error e) : e ≠ .emptySecret := by
  cases setting with
  | none => cases h
  | some text =>
    unfold parseMinutes at h
    dsimp only at h
    rintro rfl
    split at h <;> cases h

private theorem checkLifetime_error {name : String} {e : Misconfigured}
    (h : checkLifetime name n = .error e) : e ≠ .emptySecret := by
  unfold checkLifetime at h
  rintro rfl
  split at h <;> cases h

private theorem validate_error {e : Misconfigured} (hsecret : c.secret ≠ "")
    (h : c.validate = .error e) : e ≠ .emptySecret := by
  unfold validate at h
  rw [if_neg hsecret] at h
  by_cases hsymmetric : c.algorithm.isSymmetric = true
  · rw [if_neg (not_not_intro hsymmetric)] at h
    rcases error_of_bind_eq_error h with h | ⟨_, -, h⟩
    · exact checkLifetime_error h
    · exact checkLifetime_error h
  · rw [if_pos hsymmetric] at h
    cases h
    exact nofun

/-- Where there is a secret, the settings are not refused for want of one. -/
theorem fromLookup_ne_emptySecret {lookup : String → Option String} {fallback : String}
    (h : (secretSetting? lookup).getD fallback ≠ "") :
    fromLookup lookup fallback ≠ .error .emptySecret := by
  rw [fromLookup_eq]
  intro he
  rcases error_of_bind_eq_error he with he | ⟨algorithm, -, he⟩
  · exact givenAlgorithm_error he rfl
  rcases error_of_bind_eq_error he with he | ⟨access, -, he⟩
  · exact parseMinutes_error he rfl
  rcases error_of_bind_eq_error he with he | ⟨refresh, -, he⟩
  · exact parseMinutes_error he rfl
  rcases error_of_bind_eq_error he with he | ⟨_, -, he⟩
  · exact validate_error h he rfl
  · cases he

/-- A secret is the first of two settings that is there and not empty, or else the fallback. -/
inductive SecretFrom (lookup : String → Option String) (fallback : String) : String → Bool → Prop
  | first {s : String} : lookup "JWT_SECRET" = some s → s ≠ "" →
    SecretFrom lookup fallback s false
  | second {s : String} : (∀ t, lookup "JWT_SECRET" = some t → t = "") →
    lookup "AUTH_SECRET" = some s → s ≠ "" → SecretFrom lookup fallback s false
  | fallback : (∀ t, lookup "JWT_SECRET" = some t → t = "") →
    (∀ t, lookup "AUTH_SECRET" = some t → t = "") → SecretFrom lookup fallback fallback true

theorem secretSetting?_eq (lookup : String → Option String) :
    secretSetting? lookup =
      ((lookup "JWT_SECRET").filter (· ≠ "")).or ((lookup "AUTH_SECRET").filter (· ≠ "")) := by
  have hlist : ["JWT_SECRET", "AUTH_SECRET"].filterMap lookup =
      (lookup "JWT_SECRET").toList ++ (lookup "AUTH_SECRET").toList := by
    cases hfirst : lookup "JWT_SECRET" <;> cases hsecond : lookup "AUTH_SECRET" <;>
      simp [hfirst, hsecond]
  have hfind (setting : Option String) :
      setting.toList.find? (· ≠ "") = setting.filter (· ≠ "") := by
    cases setting with
    | none => rfl
    | some s => by_cases hs : s = "" <;> simp [hs, Option.filter]
  unfold secretSetting?
  rw [hlist, List.find?_append, hfind, hfind]

theorem secretFrom (lookup : String → Option String) (fallback : String) :
    SecretFrom lookup fallback ((secretSetting? lookup).getD fallback) (usesFallback lookup) := by
  have hempty {setting : Option String} (h : setting.filter (· ≠ "") = none) :
      ∀ t, setting = some t → t = "" := by
    rintro t rfl
    simpa using h
  unfold usesFallback
  rw [secretSetting?_eq]
  cases hfirst : (lookup "JWT_SECRET").filter (· ≠ "") with
  | some s =>
    obtain ⟨hlookup, hs⟩ := Option.filter_eq_some_iff.mp hfirst
    exact .first hlookup (of_decide_eq_true hs)
  | none =>
    cases hsecond : (lookup "AUTH_SECRET").filter (· ≠ "") with
    | some s =>
      obtain ⟨hlookup, hs⟩ := Option.filter_eq_some_iff.mp hsecond
      exact .second (hempty hfirst) hlookup (of_decide_eq_true hs)
    | none => exact .fallback (hempty hfirst) (hempty hsecond)

/-- Settings that are read without a secret to fall back on have theirs from the two variables, and
are read the same with any fallback. -/
theorem fromLookup_of_empty {lookup : String → Option String} (h : fromLookup lookup "" = .ok c)
    (fallback : String) :
    SecretFrom lookup fallback c.secret false ∧ fromLookup lookup fallback = .ok c := by
  obtain ⟨hvalid, hsecret, hgiven⟩ := fromLookup_eq_ok.mp h
  obtain ⟨hnonempty, -⟩ := validate_eq_ok.mp hvalid
  cases hset : secretSetting? lookup with
  | none =>
    rw [hset] at hsecret
    exact absurd hsecret hnonempty
  | some s =>
    have hfallback : c.secret = (secretSetting? lookup).getD fallback := by
      rw [hsecret, hset]
      rfl
    have hused : usesFallback lookup = false := by
      unfold usesFallback
      rw [hset]
      rfl
    refine ⟨?_, fromLookup_eq_ok.mpr ⟨hvalid, hfallback, hgiven⟩⟩
    rw [hfallback, ← hused]
    exact secretFrom lookup fallback

/-- A codec keeps the lifetimes of valid settings. -/
theorem ofConfig_eq (h : c.validate = .ok ()) :
    Codec.ofConfig c = ⟨c.secret, c.algorithm, c.accessMinutes, c.refreshMinutes⟩ := by
  obtain ⟨-, -, haccess, hrefresh⟩ := validate_eq_ok.mp h
  have hkeep {minutes : Int} (h : 1 ≤ minutes ∧ minutes ≤ maxLifetimeMinutes) :
      Codec.clampLifetime minutes = minutes := by
    unfold Codec.clampLifetime
    omega
  unfold Codec.ofConfig
  rw [hkeep haccess, hkeep hrefresh]

/-- Settings that tokens can be signed with as they stand: they are valid, the codec made of them has
just their lifetimes, and it signs everything. -/
structure Usable (c : TokenConfig) : Prop where
  valid : c.validate = .ok ()
  access : (Codec.ofConfig c).accessLifetime = c.accessMinutes * nanosPerMinute
  refresh : (Codec.ofConfig c).refreshLifetime = c.refreshMinutes * nanosPerMinute
  signs : ∀ payload, ∃ token, (Codec.ofConfig c).sign payload = .ok token

theorem usable_of_validate (h : c.validate = .ok ()) : c.Usable where
  valid := h
  access := by rw [ofConfig_eq h, Codec.accessLifetime]
  refresh := by rw [ofConfig_eq h, Codec.refreshLifetime]
  signs := by
    obtain ⟨-, hsymmetric, -⟩ := validate_eq_ok.mp h
    exact Codec.exists_sign hsymmetric

/-- Reading settings is sound and complete. Settings that are read are usable, their secret comes from
where it should, and no other fallback changes them unless it is needed. Valid settings are read from
all their spellings, without a fallback. A lifetime that spells no number of minutes in the range, or
the name of no symmetric algorithm, is an error. -/
theorem reading_sound_complete (lookup : String → Option String) (fallback : String) :
    (∀ c, fromLookup lookup fallback = .ok c →
      c.Usable ∧ SecretFrom lookup fallback c.secret (usesFallback lookup) ∧
        (usesFallback lookup = false → ∀ other, fromLookup lookup other = .ok c)) ∧
    (∀ (c : TokenConfig) (algorithm access refresh : String), c.validate = .ok () →
      lookup "JWT_SECRET" = some c.secret →
      lookup "JWT_ALGORITHM" = some algorithm → Names algorithm c.algorithm →
      lookup "ACCESS_TOKEN_EXPIRE_MINUTES" = some access → Writes access c.accessMinutes →
      lookup "REFRESH_TOKEN_EXPIRE_MINUTES" = some refresh → Writes refresh c.refreshMinutes →
      fromLookup lookup fallback = .ok c ∧ usesFallback lookup = false) ∧
    (∀ minutes, lookup "ACCESS_TOKEN_EXPIRE_MINUTES" = some minutes ∨
        lookup "REFRESH_TOKEN_EXPIRE_MINUTES" = some minutes →
      (∀ n, Writes minutes n → ¬ (1 ≤ n ∧ n ≤ 5256000)) →
      ∃ e, fromLookup lookup fallback = .error e) ∧
    ∀ algorithm, lookup "JWT_ALGORITHM" = some algorithm →
      ¬ Names algorithm .hs256 ∧ ¬ Names algorithm .hs384 ∧ ¬ Names algorithm .hs512 →
      ∃ e, fromLookup lookup fallback = .error e := by
  refine ⟨fun c h => ?_, fun c algorithm access refresh hvalid hsecret halgorithm hnames haccess
    hwrites hrefresh hwrites' => ?_, fun minutes hminutes hrange => exists_error_of_ne_ok fun c h => ?_,
    fun algorithm halgorithm hnot => exists_error_of_ne_ok fun c h => ?_⟩
  · obtain ⟨hvalid, hsecret, hgiven⟩ := fromLookup_eq_ok.mp h
    refine ⟨usable_of_validate hvalid, hsecret ▸ secretFrom lookup fallback, fun hused other => ?_⟩
    refine fromLookup_eq_ok.mpr ⟨hvalid, ?_, hgiven⟩
    obtain ⟨s, hs⟩ := Option.isSome_iff_exists.mp (Option.isNone_eq_false_iff.mp hused)
    rw [hsecret, hs]
    rfl
  · obtain ⟨hnonempty, -⟩ := validate_eq_ok.mp hvalid
    have hset : secretSetting? lookup = some c.secret := by
      rw [secretSetting?_eq, hsecret]
      simp [Option.filter, hnonempty]
    refine ⟨fromLookup_eq_ok.mpr ⟨hvalid, by rw [hset]; rfl, ?_, ?_, ?_⟩, ?_⟩
    · exact (gives_iff halgorithm).mpr hnames
    · exact (gives_iff haccess).mpr hwrites
    · exact (gives_iff hrefresh).mpr hwrites'
    · unfold usesFallback
      rw [hset]
      rfl
  · obtain ⟨hvalid, -, -, haccess, hrefresh⟩ := fromLookup_eq_ok.mp h
    obtain ⟨-, -, haccessRange, hrefreshRange⟩ := validate_eq_ok.mp hvalid
    rcases hminutes with hset | hset
    · exact hrange _ ((gives_iff hset).mp haccess) haccessRange
    · exact hrange _ ((gives_iff hset).mp hrefresh) hrefreshRange
  · obtain ⟨hvalid, -, hgiven, -⟩ := fromLookup_eq_ok.mp h
    obtain ⟨-, hsymmetric, -⟩ := validate_eq_ok.mp hvalid
    have hnames : Names algorithm c.algorithm := (gives_iff halgorithm).mp hgiven
    obtain ⟨h256, h384, h512⟩ := hnot
    cases hc : c.algorithm with
    | hs256 => exact h256 (hc ▸ hnames)
    | hs384 => exact h384 (hc ▸ hnames)
    | hs512 => exact h512 (hc ▸ hnames)
    | _ =>
      rw [hc] at hsymmetric
      exact absurd hsymmetric (by decide)

/-- Settings are read in mixed case and between blanks, and one minute too many or the name of an
asymmetric algorithm is an error. -/
theorem reading_sound_complete_mixed_case :
    let given (name : String) : Option String :=
      [("JWT_SECRET", "s"), ("JWT_ALGORITHM", "\thS512 "),
        ("ACCESS_TOKEN_EXPIRE_MINUTES", toString (5 : Int)),
        ("REFRESH_TOKEN_EXPIRE_MINUTES", " +0060\n")].lookup name
    let long (name : String) : Option String :=
      [("REFRESH_TOKEN_EXPIRE_MINUTES", "5256001")].lookup name
    let asymmetric (name : String) : Option String := [("JWT_ALGORITHM", "rs256")].lookup name
    let c : TokenConfig := ⟨"s", .hs512, 5, 60⟩
    (c.validate = .ok () ∧ Names "\thS512 " .hs512 ∧ Writes (toString (5 : Int)) 5 ∧
      Writes " +0060\n" 60) ∧
    (fromLookup given "other" = .ok c ∧ usesFallback given = false ∧ c.Usable) ∧
    (∃ e, fromLookup long "other" = .error e) ∧ ∃ e, fromLookup asymmetric "other" = .error e := by
  intro given long asymmetric c
  have hnames : Names "\thS512 " .hs512 := (parseAlgorithm_eq_ok.mp (by decide)).2
  have haccess : Writes (toString (5 : Int)) 5 :=
    ⟨_, ⟨[], [], by simp, by simp, (List.append_nil _).symm⟩, spells_toString 5⟩
  have hrefresh : Writes " +0060\n" 60 := by
    have hread : parseMinutes refreshSetting 0 (some " +0060\n") = .ok 60 := by decide
    exact (parseMinutes_eq_ok.mp hread).1
  have hlong : ∀ n, Writes "5256001" n → ¬ (1 ≤ n ∧ n ≤ 5256000) := by
    intro n hn hrange
    have hread : parseMinutes refreshSetting 0 (some "5256001") = .ok 5256001 := by decide
    have hn : parseMinutes refreshSetting 0 (some "5256001") = .ok n :=
      parseMinutes_eq_ok.mpr ⟨hn, by unfold int64Min; omega, by unfold int64Max; omega⟩
    obtain rfl : 5256001 = n := Except.ok.inj (hread.symm.trans hn)
    omega
  have hunnamed (a : Algorithm) (ha : a.isSymmetric = true) : ¬ Names "rs256" a := by
    intro hname
    have hread : parseAlgorithm "rs256" = .error (.asymmetricSetting "rs256") := by decide
    cases hread.symm.trans (parseAlgorithm_eq_ok.mpr ⟨ha, hname⟩)
  obtain ⟨hread, hused⟩ := (reading_sound_complete given "other").2.1 c _ _ _ rfl rfl rfl hnames rfl
    haccess rfl hrefresh
  refine ⟨⟨rfl, hnames, haccess, hrefresh⟩, ⟨hread, hused, ?_⟩, ?_, ?_⟩
  · exact ((reading_sound_complete given "other").1 c hread).1
  · exact (reading_sound_complete long "other").2.2.1 "5256001" (.inr rfl) hlong
  · exact (reading_sound_complete asymmetric "other").2.2.2 "rs256" rfl
      ⟨hunnamed _ rfl, hunnamed _ rfl, hunnamed _ rfl⟩

end Turnstile.TokenConfig
