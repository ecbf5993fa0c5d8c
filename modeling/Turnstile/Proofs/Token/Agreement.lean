import Turnstile.Proofs.Token.Codec
import Turnstile.Proofs.Token.Registered

/-! The two readings of a payload agree: the expiry among its registered claims is the expiry of the
claims asked for. -/

namespace Turnstile

open Json

/-- Fields with an expiry among them, in its place, and a text in front of all. -/
structure Dated (fields : List Field) (place : Nat) : Prop where
  text : ∃ name rest, fields = required name readText :: rest
  lexes : ∀ f ∈ fields, ∀ s, LexesAt 0 .plain .plain f.read s
  found : fields.findIdx? (fun f => f.name = "exp") = some place
  read : fields[place]? = some (required "exp" readInt64)

namespace Dated

variable {fields : List Field} {place : Nat} {name : String} {s sA sR : Bytes}
  {vsA vsA' vsR vsR' : List (Option Json)}

/-- A value that is read is a whole value. -/
private theorem exists_value (hd : Dated fields place) (h : Takes fields name s sA vsA vsA') :
    ∃ c, s = c ++ sA ∧ lex (0, .plain) c = some (0, .plain) := by
  cases h with
  | known i f v hi hf hname hv => exact (hd.lexes f (List.mem_of_getElem? hf) s).ok v sA hv
  | unknown hi hskip => exact passes_skipValue s () sA hskip

/-- An integer that is read as an instant is read as an integer. -/
private theorem readInt64_of_instant {n : Int} {v : Json}
    (hR : Registered.orNull Registered.instant s = (.ok (.int n), sR))
    (hA : readInt64 s = (.ok v, sA)) : v = .int n := by
  obtain ⟨b, t, m, hs, hb, hnumber, rfl⟩ := number_of_readInt64 hA
  have hR := Registered.ok_of_orNull_int hR
  have hlist : b ≠ byte '[' := by
    rintro rfl
    cases hb
  have hrecord : b ≠ byte '\x7b' := by
    rintro rfl
    cases hb
  unfold Registered.instant at hR
  rw [bind_of_ok (peek_apply s), hs] at hR
  simp only [List.head?_cons, hlist, hrecord, hb, if_false, if_true] at hR
  rw [bind_of_ok hnumber] at hR
  simp only at hR
  split_ifs at hR
  · cases hR
    rfl
  · cases hR

/-- Reading one more member keeps the two expiries the same. -/
private theorem takes_agree (hd : Dated fields place) (hplace : place < vsA.length)
    (hA : Takes fields name s sA vsA vsA') (hR : Takes Registered.fields name s sR vsR vsR')
    (h : ∀ n, vsR.getD 0 none = some (.int n) → vsA.getD place none = some (.int n)) (n : Int)
    (hn : vsR'.getD 0 none = some (.int n)) : vsA'.getD place none = some (.int n) := by
  have hfound : Registered.fields.findIdx? (fun f => f.name = "exp") = some 0 := rfl
  by_cases hname : name = "exp"
  · subst hname
    cases hA with
    | unknown hi =>
      rw [hd.found] at hi
      cases hi
    | known i f v hi hf _ hv =>
      obtain rfl := Option.some.inj (hd.found.symm.trans hi)
      obtain rfl := Option.some.inj (hd.read.symm.trans hf)
      cases hR with
      | unknown hi =>
        rw [hfound] at hi
        cases hi
      | known i f v' hi' hf' _ hv' =>
        obtain rfl := Option.some.inj (hfound.symm.trans hi')
        obtain rfl : Registered.claim "exp" Registered.instant = f := Option.some.inj hf'
        obtain rfl : v' = .int n := by
          cases vsR with
          | nil => cases hn
          | cons x vsR => exact Option.some.inj hn
        rw [readInt64_of_instant hv' hv, List.getD_eq_getElem?_getD, List.getElem?_set_self hplace]
        rfl
  · have hneA : fields.findIdx? (fun f => f.name = name) ≠ some place := by
      intro hi
      obtain ⟨hlt, hf, -⟩ := List.findIdx?_eq_some_iff_getElem.mp hi
      have hread := hd.read
      rw [List.getElem?_eq_getElem hlt] at hread
      rw [Option.some.inj hread] at hf
      exact hname (of_decide_eq_true hf).symm
    have hneR : Registered.fields.findIdx? (fun f => f.name = name) ≠ some 0 := by
      intro hi
      obtain ⟨hlt, hf, -⟩ := List.findIdx?_eq_some_iff_getElem.mp hi
      exact hname (of_decide_eq_true hf).symm
    rw [hA.getD_of_ne hneA]
    rw [hR.getD_of_ne hneR] at hn
    exact h n hn

/-- After the value of a member both readings are at the same place, but for white space. -/
private theorem ends_agree (hd : Dated fields place) {fuel : Nat} {wsA wsR : List (Option Json)}
    {tA tR rest : Bytes} (hA : Takes fields name s sA vsA vsA')
    (hR : Takes Registered.fields name s sR vsR vsR')
    (hmoreA : readMembers fields fuel false vsA' sA = (.ok wsA, tA))
    (hmoreR : readMembers Registered.fields fuel false vsR' sR = (.ok wsR, tR))
    (hclose : closeRecord tR = (.ok (), rest)) (hrest : rest.all isSpace = true)
    (hs : lex (1, .plain) s = some (0, .plain)) :
    sR.dropWhile isSpace = sA.dropWhile isSpace ∧
      lex (1, .plain) (sA.dropWhile isSpace) = some (0, .plain) := by
  obtain ⟨bA, uA, hnextA, hbA⟩ := exists_of_readMembers hmoreA
  obtain ⟨bR, uR, hnextR, hbR⟩ := exists_of_readMembers hmoreR
  obtain ⟨cA, hsA, hcA⟩ := hd.exists_value hA
  have hsome : (lex (0 + 1, .plain) s).isSome := Option.isSome_of_eq_some hs
  obtain ⟨cR, ⟨depth, m⟩, hsR, hcR, -⟩ := Registered.exists_place hR hsome
  have hinA : lex (1, .plain) cA = some (1, .plain) := lex_add hcA 1
  have hinR : lex (1, .plain) cR = some (depth + 1, m) := lex_add hcR 1
  have hplace : ((depth + 1, m) : Place) = (1, .plain) := by
    refine Classical.byContradiction fun hne => ?_
    rw [hsR, lex_of_append hinR] at hs
    obtain ⟨q, hq, hs⟩ := Registered.astray_of_next (lex_proper Mode.plain_proper hinR) hne
      (Nat.le_add_left 1 depth) hnextR hbR hs
    exact Registered.not_astray hmoreR hclose hrest hs hq
  obtain ⟨rfl, rfl⟩ : depth = 0 ∧ m = .plain := by simpa using hplace
  constructor
  · rw [← beyond_value hcR hnextR hbR, ← hsR, hsA, beyond_value hcA hnextA hbA]
  · rw [hsA, lex_of_append hinA, ← List.takeWhile_append_dropWhile (p := isSpace) (l := sA),
      lex_of_append (lex_takeWhile_isSpace sA 1)] at hs
    exact hs

/-- Members that both readings read to the end of the payload have the same expiry. -/
private theorem members_agree (hd : Dated fields place) {fuel : Nat} {first : Bool}
    {wsA wsR : List (Option Json)} {rest : Bytes} (hplace : place < vsA.length)
    (hA : readMembers fields fuel first vsA s = (.ok wsA, sA))
    (hR : readMembers Registered.fields fuel first vsR s = (.ok wsR, sR))
    (hclose : closeRecord sR = (.ok (), rest)) (hrest : rest.all isSpace = true)
    (hs : lex (1, .plain) s = some (0, .plain))
    (h : ∀ n, vsR.getD 0 none = some (.int n) → vsA.getD place none = some (.int n)) (n : Int)
    (hn : wsR.getD 0 none = some (.int n)) : wsA.getD place none = some (.int n) := by
  induction fuel generalizing first vsA vsR s with
  | zero => cases hA
  | succ fuel ih =>
    rcases readMembers_succ_ok hA with
      ⟨hnoneA, rfl⟩ | ⟨name, s₁, s₂, s₃, vsA', hnameA, hcolonA, htakesA, hmoreA⟩
    · rcases readMembers_succ_ok hR with ⟨-, rfl⟩ | ⟨_, _, _, _, _, hnameR, -⟩
      · exact h n hn
      · rw [hnoneA] at hnameR
        cases hnameR
    · rcases readMembers_succ_ok hR with
        ⟨hnoneR, -⟩ | ⟨_, _, _, t₃, vsR', hnameR, hcolonR, htakesR, hmoreR⟩
      · rw [hnameA] at hnoneR
        cases hnoneR
      · cases hnameA.symm.trans hnameR
        cases hcolonA.symm.trans hcolonR
        obtain ⟨c, rfl, hc⟩ := exists_of_named hnameA hcolonA
        rw [lex_of_append (hc 0)] at hs
        obtain ⟨hend, hs⟩ := hd.ends_agree htakesA htakesR hmoreA hmoreR hclose hrest hs
        have hmoreR := readMembers_dropWhile hmoreR
        rw [hend] at hmoreR
        refine ih ?_ (readMembers_dropWhile hmoreA) hmoreR hs
          (takes_agree hd hplace htakesA htakesR h)
        rw [htakesA.length_eq]
        exact hplace

private theorem passes_readMembers (hd : Dated fields place) (fuel : Nat) (first : Bool)
    (vs : List (Option Json)) (s : Bytes) :
    Passes (1, .plain) (1, .plain) (readMembers fields fuel first vs) s := by
  intro ws s' h
  induction fuel generalizing first vs s with
  | zero => cases h
  | succ fuel ih =>
    rcases readMembers_succ_ok h with
      ⟨hnone, -⟩ | ⟨name, s₁, s₂, s₃, vs', hname, hcolon, htakes, hmore⟩
    · exact (LexesAt.memberName? first s).ok _ _ hnone
    · obtain ⟨c₁, rfl, hc₁⟩ := exists_of_named hname hcolon
      obtain ⟨c₂, rfl, hc₂⟩ := hd.exists_value htakes
      obtain ⟨c₃, rfl, hc₃⟩ := ih false vs' s₃ hmore
      have hin : lex (1, .plain) c₂ = some (1, .plain) := lex_add hc₂ 1
      exact ⟨c₁ ++ (c₂ ++ c₃), by simp, by rw [lex_of_append (hc₁ 0), lex_of_append hin, hc₃]⟩

/-- A text is no instant. -/
private theorem instant_ne_of_readText {n : Int} {v : Json} (hA : readText s = (.ok v, sA)) :
    Registered.orNull Registered.instant s ≠ (.ok (.int n), sR) := by
  intro hR
  have hR := Registered.ok_of_orNull_int hR
  unfold readText at hA
  unfold Registered.instant at hR
  rw [bind_of_ok (peek_apply s)] at hA hR
  cases hs : s.dropWhile isSpace with
  | nil =>
    rw [hs] at hR
    cases hR
  | cons b t =>
    rw [hs, List.head?_cons] at hA hR
    by_cases hb : b = byte '"'
    · subst hb
      exact mismatch_ne_ok hR
    · rw [if_neg (by simpa using hb)] at hA
      exact mismatch_ne_ok hA

/-- The bytes of a record that is read come to their end outside of all brackets. -/
private theorem lex_of_record (hd : Dated fields place) {fuel : Nat} {first : Bool}
    {vs ws : List (Option Json)} {s' rest : Bytes}
    (hmembers : readMembers fields fuel first vs s = (.ok ws, s'))
    (hclose : closeRecord s' = (.ok (), rest)) (hrest : rest.all isSpace = true) :
    lex (1, .plain) s = some (0, .plain) := by
  have hclosed : Passes (1, .plain) (0, .plain) closeRecord s' := passes_closeRecord s'
  obtain ⟨c₁, rfl, hc₁⟩ := hd.passes_readMembers _ _ _ _ _ _ hmembers
  obtain ⟨c₂, rfl, hc₂⟩ := hclosed _ _ hclose
  rw [lex_of_append hc₁, lex_of_append hc₂]
  exact lex_spaces (fun b hb => List.all_eq_true.mp hrest b hb) 0

/-- A registered expiry is not one that is filled in. -/
private theorem expiry_of_complete {ws : List (Option Json)} {l : List Json} {n : Int}
    (h : complete Registered.fields ws = .ok l) (hn : l[0]? = some (.int n)) :
    ws.getD 0 none = some (.int n) := by
  have hfield : Registered.fields[0]? = some (Registered.claim "exp" Registered.instant) := rfl
  obtain ⟨v, hv, hor⟩ := exists_of_complete h hfield
  obtain rfl := Option.some.inj (hv.symm.trans hn)
  cases hws : ws.getD 0 none with
  | none =>
    rw [hws] at hor
    cases hor
  | some v =>
    rw [hws] at hor
    exact hor

/-- A payload that both readings accept has the same expiry for both. -/
theorem readFields_agree (hd : Dated fields place) {payload restA restR : Bytes}
    {lA lR : List Json} (hA : readFields fields payload = (.ok lA, restA))
    (hrestA : restA.all isSpace = true)
    (hR : readFields Registered.fields payload = (.ok lR, restR))
    (hrestR : restR.all isSpace = true) {n : Int} (hn : lR[0]? = some (.int n)) :
    lA[place]? = some (.int n) := by
  rcases ok_of_readFields hA with ⟨t, wsA, sA, ht, hmembersA, hcompleteA, hcloseA⟩ | ⟨t, sA, ht, hA⟩
  · rcases ok_of_readFields hR with
      ⟨t', wsR, sR, ht', hmembersR, hcompleteR, hcloseR⟩ | ⟨t', sR, ht', -⟩
    · cases ht.symm.trans ht'
      obtain ⟨hplace, -⟩ := List.getElem?_eq_some_iff.mp hd.read
      have hs := hd.lex_of_record hmembersA hcloseA hrestA
      have hwsA := hd.members_agree (by simpa using hplace) hmembersA hmembersR hcloseR hrestR hs
        nofun n (expiry_of_complete hcompleteR hn)
      obtain ⟨v, hv, hor⟩ := exists_of_complete hcompleteA hd.read
      rw [hwsA] at hor
      rw [hv, ← hor]
      rfl
    · cases ht.symm.trans ht'
  · rcases ok_of_readFields hR with ⟨t', wsR, sR, ht', -⟩ | ⟨t', sR, ht', hR⟩
    · cases ht.symm.trans ht'
    · cases ht.symm.trans ht'
      obtain ⟨name, rest, rfl⟩ := hd.text
      obtain ⟨more, s₁, hmore, hA⟩ := ok_of_bind_eq_ok hA
      obtain ⟨more', s₁', hmore', hR⟩ := ok_of_bind_eq_ok hR
      cases hmore.symm.trans hmore'
      cases more with
      | false => cases hA
      | true =>
        obtain ⟨v, s₂, htext, -⟩ := ok_of_bind_eq_ok hA
        obtain ⟨v', s₂', hinstant, hR⟩ := ok_of_bind_eq_ok hR
        obtain ⟨vs, s₃, -, hR⟩ := ok_of_bind_eq_ok hR
        cases hR
        cases hn
        exact absurd hinstant (instant_ne_of_readText htext)

end Dated

/-- The claims of an access token have the expiry that is registered. -/
theorem AccessClaims.dated : Dated AccessClaims.format.fields 3 where
  text := ⟨_, _, rfl⟩
  lexes := by
    intro f hf s
    simp only [AccessClaims.format, List.mem_cons, List.not_mem_nil, or_false] at hf
    rcases hf with rfl | rfl | rfl | rfl | rfl
    · exact .readText s
    · exact .readText s
    · exact .readList .readText s
    · exact .readInt64 s
    · exact .readBool s
  found := rfl
  read := rfl

private theorem AccessClaims.getElem?_of_build {l : List Json} {claims : AccessClaims}
    (h : AccessClaims.format.build l = some claims) : l[3]? = some (.int claims.expiry) := by
  simp only [AccessClaims.format] at h
  split at h
  · cases h
    rfl
  · cases h

/-- Both readings of a payload find the same expiry. -/
theorem AccessClaims.expiry_of_parse {payload : Bytes} {claims : AccessClaims}
    {registered : Registered.Claims} (h : AccessClaims.format.parse payload = .ok claims)
    (hr : Registered.parse payload = .ok registered) : registered.expiry = claims.expiry := by
  obtain ⟨restA, hread, hrestA⟩ := ok_of_readAll h
  obtain ⟨restR, hreadR, hrestR⟩ := ok_of_readAll hr
  obtain ⟨lA, sA, hA, hbuild⟩ := ok_of_bind_eq_ok hread
  obtain ⟨lR, sR, hR, hregistered⟩ := ok_of_bind_eq_ok hreadR
  have hclaims : sA = restA ∧ AccessClaims.format.build lA = some claims := by
    cases hb : AccessClaims.format.build lA with
    | none =>
      simp only [hb] at hbuild
      cases hbuild
    | some a =>
      simp only [hb] at hbuild
      cases hbuild
      exact ⟨rfl, rfl⟩
  have hexpiry : sR = restR ∧ lR[0]? = some (.int registered.expiry) := by
    split at hregistered
    · cases hregistered
      exact ⟨rfl, rfl⟩
    · cases hregistered
  obtain ⟨rfl, hbuilt⟩ := hclaims
  obtain ⟨rfl, hexpiry⟩ := hexpiry
  have hsame := dated.readFields_agree hA hrestA hR hrestR hexpiry
  rw [getElem?_of_build hbuilt] at hsame
  exact (Json.int.inj (Option.some.inj hsame)).symm

namespace Codec

variable {c : Codec} {token : String} {claims : AccessClaims}

/-- Only the age can be wrong with a token that is good at any age. -/
private theorem decode_of_anyAge (h : c.decodeAccessAnyAge token = .ok claims)
    (expired : Int → Bool) : c.decode AccessClaims.format expired token =
      if expired claims.expiry then .error .tokenExpired else .ok claims := by
  unfold decodeAccessAnyAge decode at h
  unfold decode
  cases hp : c.payload? token with
  | none =>
    simp only [hp] at h
    cases h
  | some payload =>
    cases hc : AccessClaims.format.parse payload with
    | error e =>
      simp only [hp, hc] at h
      cases h
    | ok claims' =>
      cases hr : Registered.parse payload with
      | error e =>
        simp only [hp, hc, hr] at h
        cases h
      | ok registered =>
        have hexpiry := AccessClaims.expiry_of_parse hc hr
        simp only [hp, hc, hr] at h ⊢
        cases ha : registered.hasAudience with
        | true =>
          rw [ha] at h
          cases h
        | false =>
          rw [ha] at h
          cases h
          rw [hexpiry]
          cases expired claims.expiry <;> rfl

/-- A token that is good at any age is good until the second of its expiry. -/
theorem decodeAccess_of_anyAge (h : c.decodeAccessAnyAge token = .ok claims) (now : Nanos) :
    c.decodeAccess now token =
      if claims.expiry ≤ now.seconds then .error .tokenExpired else .ok claims :=
  decodeAt_of_decode (decode_of_anyAge h) now

end Codec

end Turnstile
