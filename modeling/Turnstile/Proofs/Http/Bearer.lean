import Turnstile.Http.Headers
import Turnstile.Proofs.Service.FreshAccess
import Turnstile.Proofs.Text.Blank
import Turnstile.Proofs.Token.Spelling

/-! Blanks around a token make no other token of it, and a token once logged out stays out however it
is written. -/

namespace Turnstile

open Program

namespace Http

theorem headerText?_utf8 {s : String}
    (h : ∀ x ∈ s.toList, 0x20 ≤ x.toNat ∧ x.toNat < 0x7f ∨ x = '\t') :
    headerText? (utf8 s) = some s := by
  have hascii : ∀ x ∈ s.toList, x.toNat < 0x80 := by
    intro x hx
    rcases h x hx with hrange | rfl
    · omega
    · decide
  have hnat : ∀ x ∈ s.toList, x.toNat.toUInt8.toNat = x.toNat := fun x hx =>
    Nat.mod_eq_of_lt (Nat.lt_trans (hascii x hx) (by decide))
  have hall : (utf8 s).all (fun b => (0x20 ≤ b && b < 0x7f) || b = 0x09) = true := by
    rw [utf8_eq_charBytes, charBytes_of_ascii hascii, List.all_map, List.all_eq_true]
    intro x hx
    rcases h x hx with ⟨hlow, hhigh⟩ | rfl
    · have hle : (0x20 : UInt8) ≤ x.toNat.toUInt8 :=
        UInt8.le_iff_toNat_le.mpr (by rw [hnat x hx]; exact hlow)
      have hlt : x.toNat.toUInt8 < (0x7f : UInt8) :=
        UInt8.lt_iff_toNat_lt.mpr (by rw [hnat x hx]; exact hhigh)
      simp [hle, hlt]
    · rfl
  have hchars : (utf8 s).map (fun b => Char.ofNat b.toNat) = s.toList := by
    rw [utf8_eq_charBytes, charBytes_of_ascii hascii, List.map_map]
    conv_rhs => rw [← List.map_id s.toList]
    refine List.map_congr_left fun x hx => ?_
    simp only [Function.comp_apply, hnat x hx, Char.ofNat_toNat, id_eq]
  unfold headerText?
  rw [if_pos hall, hchars, String.ofList_toList]

/-- Headers whose first `Authorization` line carries a token after the scheme, with any spaces and
tabs around it. -/
def Headers.Bears (h : Headers) (token : String) : Prop :=
  ∃ left right : List Char, (∀ x ∈ left ++ right, x = ' ' ∨ x = '\t') ∧
    h.first? "authorization" =
      some (utf8 ("Bearer " ++ String.ofList left ++ token ++ String.ofList right))

private theorem isBlank_of_space {x : Char} (h : x = ' ' ∨ x = '\t') : isBlank x = true := by
  rcases h with rfl | rfl <;> rfl

/-- The bearer of a token of visible characters is understood, however the token is set off. -/
theorem bearerToken_of_bears {h : Headers} {token : String} (hb : h.Bears token)
    (hvisible : ∀ x ∈ token.toList, 0x20 < x.toNat ∧ x.toNat < 0x7f) (hne : token ≠ "") :
    bearerToken h = .ok token := by
  obtain ⟨left, right, hblank, hline⟩ := hb
  let value := "Bearer " ++ String.ofList left ++ token ++ String.ofList right
  have hvalue : value.toList = "Bearer ".toList ++ (left ++ token.toList ++ right) := by
    simp [value]
  have hscheme : "Bearer ".toList.all (fun x => 0x20 ≤ x.toNat && x.toNat < 0x7f) = true := by
    decide
  have htext : headerText? (utf8 value) = some value := by
    apply headerText?_utf8
    intro x hx
    rw [hvalue] at hx
    have hspace (hx : x ∈ left ++ right) : 0x20 ≤ x.toNat ∧ x.toNat < 0x7f ∨ x = '\t' :=
      (hblank x hx).imp_left fun heq => by
        subst heq
        decide
    rcases List.mem_append.mp hx with hx | hx
    · exact .inl (by simpa using List.all_eq_true.mp hscheme x hx)
    rcases List.mem_append.mp hx with hx | hx
    · rcases List.mem_append.mp hx with hx | hx
      · exact hspace (List.mem_append_left _ hx)
      · exact .inl ⟨Nat.le_of_lt (hvisible x hx).1, (hvisible x hx).2⟩
    · exact hspace (List.mem_append_right _ hx)
  have htrim : trimBlanks (left ++ token.toList ++ right) = token.toList := by
    apply trimBlanks_append
    · exact fun x hx => isBlank_of_space (hblank x (List.mem_append_left _ hx))
    · exact fun x hx => isBlank_of_visible (hvisible x hx)
    · exact fun x hx => isBlank_of_space (hblank x (List.mem_append_right _ hx))
  have hbegins : "Bearer ".toList.isPrefixOf value.toList = true :=
    List.isPrefixOf_iff_prefix.mpr (hvalue ▸ List.prefix_append _ _)
  have hdrop : trimBlanks (value.toList.drop "Bearer ".toList.length) = token.toList := by
    rw [hvalue, List.drop_left, htrim]
  have hnil : token.toList ≠ [] := fun heq => hne (String.toList_eq_nil_iff.mp heq)
  unfold bearerToken
  rw [hline, Option.bind_some, htext]
  simp only [hbegins, hdrop, hnil, ne_eq, not_false_eq_true, and_self, if_true,
    String.ofList_toList]

end Http

/-- A recognised token is understood, however it is set off. -/
theorem Codec.Recognises.bearerToken {c : Codec} {token : String} {h : Http.Headers}
    (ht : c.Recognises token) (hb : h.Bears token) : Http.bearerToken h = .ok token := by
  obtain ⟨s, rfl, hs⟩ := ht.exists_signs
  exact Http.bearerToken_of_bears hb (Segments.visible_text hs.urlSafe) s.text_ne_empty

variable {c : Codec} {ids : Nat → String} {entropy : Nat → Draw} {w₀ w₁ w w' : World MemoryStore}
  {h : Past}

/-- After a logout the access token is denied until it expires, as far as clocks reach. -/
private theorem deniedUntil_of_logout {access token : String} {issued : Option String}
    (hstart : 0 ≤ w₀.clock)
    (hr : Runs (MemoryStore.setting ids entropy) ((Operation.logout access token).program c) w₀
      (.ok issued) w₁) (hs : Serves c ids entropy w₁ h w) :
    ∃ claims, c.decodeAccessAnyAge access = .ok claims ∧
      DeniedUntil (blacklistKey access) (min (Nanos.ofSeconds claims.expiry) (lastInstant + 1)) w := by
  rcases Operation.runs_program hr with ⟨-, hnone⟩ | ⟨a, claims, t, t', ha, hclaims, hd⟩
  · cases hnone
  · obtain rfl : access = a := Option.some.inj ha
    let limit : Nanos := min (Nanos.ofSeconds claims.expiry) (lastInstant + 1)
    have hmax : limit ≤ Nanos.ofMillis int64Max :=
      Int.le_trans (Int.min_le_right _ _) (by decide)
    have hlimit : limit ≤ Nanos.ofSeconds claims.expiry := Int.min_le_left _ _
    have hfar : limit ≤ w₀.clock + Nanos.ofMillis int64Max :=
      Int.le_trans hmax (Int.le_add_of_nonneg_left hstart)
    have hdenied : DeniedUntil (blacklistKey access) limit w₁ := .of_denies hd hmax hlimit hfar
    refine ⟨claims, hclaims, hdenied.serves hclaims hmax hlimit ?_ hs⟩
    exact Int.le_trans hfar (Int.add_le_add_right hr.clock_le _)

/-- A denied token passes a check only if it expires while the check runs. -/
private theorem expires_of_checkAccess {access : String} {claims claims' : AccessClaims}
    (hclaims : c.decodeAccessAnyAge access = .ok claims)
    (hd : DeniedUntil (blacklistKey access) (min (Nanos.ofSeconds claims.expiry) (lastInstant + 1)) w)
    (hr : Runs (MemoryStore.setting ids entropy) (c.checkAccess access) w (.ok claims') w')
    (hlast : w'.clock ≤ lastInstant) :
    w.clock < Nanos.ofSeconds claims'.expiry ∧ Nanos.ofSeconds claims'.expiry ≤ w'.clock := by
  obtain ⟨t, ht, -, ⟨e, he, -⟩ | ⟨_, u, htu, hu, hok, hres⟩⟩ := Codec.runs_checkAccess hr
  · cases he
  · rw [Codec.decodeAccess_of_anyAge hclaims] at hok
    split_ifs at hok with hexpired
    obtain rfl := Except.ok.inj hok
    have hfresh : t < Nanos.ofSeconds claims.expiry :=
      Nanos.seconds_lt_iff.mp (Int.not_le.mp hexpired)
    have hlate : Nanos.ofSeconds claims.expiry ≤ u := by
      by_contra hlt
      have hbefore : u < min (Nanos.ofSeconds claims.expiry) (lastInstant + 1) :=
        Int.lt_min.mpr ⟨Int.not_le.mp hlt, Int.lt_add_one_of_le (Int.le_trans hu hlast)⟩
      rw [hd.isRevoked (Int.le_trans ht htu) hbefore] at hres
      cases hres
    split_ifs at hres
    obtain rfl := Except.ok.inj hres
    exact ⟨Int.lt_of_le_of_lt ht hfresh, Int.le_trans hlate hu⟩

namespace Codec

/-- A token has one spelling. What a codec recognises consists of three segments of URL-safe symbols,
the first naming the codec's algorithm and the last being the one text of the signature; so what is
before the last dot tells tokens apart, and spaces or tabs around a token in a header do not. Nothing
that says what a token says that was logged out passes a check made at one instant, nor one that takes
time, unless the token expires while it runs. -/
theorem one_spelling (c : Codec) :
    (∀ token, c.Recognises token →
      ∃ s, token = s.text ∧ token.toList.count '.' = 2 ∧ c.Signs s) ∧
    (∀ token other, c.Recognises token → c.Recognises other →
      signedPart? token = signedPart? other → token = other) ∧
    (∀ token h, c.Recognises token → Http.Headers.Bears h token →
      Http.bearerToken h = .ok token) ∧
    ∀ ids entropy w₀ w₁ w history access refresh issued, 0 ≤ w₀.clock →
      Runs (MemoryStore.setting ids entropy) ((Operation.logout access refresh).program c) w₀
        (.ok issued) w₁ →
      Serves c ids entropy w₁ history w →
      ∀ token, signedPart? token = signedPart? access →
        (∀ t, w.clock ≤ t → t ≤ lastInstant → ∃ e w',
          (c.checkAccess token).run ((MemoryStore.model ids).host entropy) (w.atTime t) =
            (some (.error e), w')) ∧
        ∀ claims w', Runs (MemoryStore.setting ids entropy) (c.checkAccess token) w (.ok claims) w' →
          w'.clock ≤ lastInstant →
          w.clock < Nanos.ofSeconds claims.expiry ∧ Nanos.ofSeconds claims.expiry ≤ w'.clock := by
  refine ⟨fun token ht => ?_, fun _ _ => Recognises.eq, fun _ _ => Recognises.bearerToken, ?_⟩
  · obtain ⟨s, rfl, hs⟩ := ht.exists_signs
    exact ⟨s, rfl, Segments.count_dot_text hs.urlSafe, hs⟩
  · intro ids entropy w₀ w₁ w history access refresh issued hstart hr hs token hsame
    have hexpires {w : World MemoryStore} {history : Past} (hs : Serves c ids entropy w₁ history w)
        {claims : AccessClaims} {w' : World MemoryStore}
        (hcheck : Runs (MemoryStore.setting ids entropy) (c.checkAccess token) w (.ok claims) w')
        (hlast : w'.clock ≤ lastInstant) :
        w.clock < Nanos.ofSeconds claims.expiry ∧ Nanos.ofSeconds claims.expiry ≤ w'.clock := by
      obtain ⟨claims', hclaims, hd⟩ := deniedUntil_of_logout hstart hr hs
      -- What passes has been recognised, so it is the token that was logged out.
      obtain ⟨t, -, -, ⟨e, he, -⟩ | ⟨_, -, -, -, hok, -⟩⟩ := runs_checkAccess hcheck
      · cases he
      · have heq : token = access :=
          Recognises.eq (.access t (.inr ⟨_, hok⟩)) (.anyAge (.inr ⟨_, hclaims⟩)) hsame
        subst heq
        exact expires_of_checkAccess hclaims hd hcheck hlast
    refine ⟨fun t ht hlast => ?_, fun _ _ => hexpires hs⟩
    have hrun := run_checkAccess (c := c) ids entropy (w.atTime t) token
    cases hdecode : c.decodeAccess t token with
    | error e =>
      rw [World.atTime_clock, hdecode] at hrun
      exact ⟨e, _, hrun⟩
    | ok claims =>
      rw [World.atTime_clock, hdecode] at hrun
      cases hlisted : ((w.atTime t).store.isRevoked t (blacklistKey token)).1 with
      | true =>
        rw [hlisted] at hrun
        exact ⟨.tokenRevoked, _, hrun⟩
      | false =>
        rw [hlisted] at hrun
        obtain ⟨hbefore, hafter⟩ := hexpires (.wait hs ht) (runs_of_run hrun) hlast
        exact absurd (Int.lt_of_lt_of_le hbefore hafter) (Int.lt_irrefl _)

/-- A token that is logged out is understood with blanks around it, and refused. -/
theorem one_spelling_after_logout :
    ∃ access token w₁, Runs (MemoryStore.setting serialId fun _ => .replicate 16 0)
        ((Operation.logout access token).program (.ofConfig (.withSecret "secret")))
        ⟨{ refreshTokens := Table.insert {} "ada"
            (recordOf (.ofConfig (.withSecret "secret")) 0 "ada" token) }, 0, 0⟩ (.ok none) w₁ ∧
      Http.bearerToken [("Authorization", utf8 ("Bearer " ++ "\t " ++ access ++ " "))] =
        .ok access ∧
      ∃ e w', (checkAccess (.ofConfig (.withSecret "secret")) access).run
        ((MemoryStore.model serialId).host fun _ => .replicate 16 0) (w₁.atTime 0) =
          (some (.error e), w') := by
  let c : Codec := .ofConfig (.withSecret "secret")
  let p : Principal := ⟨"ada", "ada@example.com", .empty⟩
  let draw : Draw := .replicate 16 0
  have hc : c.Clamped := ofConfig_clamped _
  obtain ⟨access, haccess⟩ : ∃ access, c.encodeAccess (c.accessClaims 0 p) = .ok access :=
    exists_sign rfl _
  obtain ⟨token, htoken⟩ : ∃ token, c.encodeRefresh (c.refreshClaims 0 draw p) = .ok token :=
    exists_sign rfl _
  have hany : c.decodeAccessAnyAge access = .ok (c.accessClaims 0 p) :=
    decodeAccessAnyAge_encodeAccess (accessClaims_validExpiry hc (by decide) (by decide) _) haccess
  have hrefresh : c.decodeRefresh 0 token = .ok (c.refreshClaims 0 draw p) := by
    rw [decodeRefresh_encodeRefresh
      (refreshClaims_validExpiry hc (by decide) (by decide) _ _) htoken]
    rfl
  have hlogout := runs_of_run (run_logout serialId (fun _ => draw)
    ⟨{ refreshTokens := Table.insert {} "ada" (c.recordOf 0 "ada" token) }, 0, 0⟩ hrefresh rfl rfl
    (show (0 : Int) < 2592000000000000 by decide) rfl hany rfl)
  obtain ⟨-, -, hbearer, hout⟩ := one_spelling c
  refine ⟨access, token, _, hlogout, ?_, ?_⟩
  · apply hbearer _ _ (.anyAge (.inr ⟨_, hany⟩))
    have hname : Http.lowerName "Authorization" = "authorization" := by decide +kernel
    have htab : String.ofList ['\t', ' '] = "\t " := by decide
    have hspace : String.ofList [' '] = " " := by decide
    exact ⟨['\t', ' '], [' '], by simp, by simp [Http.Headers.first?, hname, htab, hspace]⟩
  · exact (hout _ _ _ _ _ _ _ _ _ (Int.le_refl 0) hlogout .start access rfl).1 0 (Int.le_refl 0)
      (by decide)

end Codec

end Turnstile
