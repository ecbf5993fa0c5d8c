import Turnstile.Proofs.Postgres.Course

/-! Verification comes before every write: the order of the statements that a refresh and a logout
send, and what they end with. -/

namespace Turnstile.Postgres

variable {sent : List Sent}

/-- Statements that delete no refresh record, and clear the deny-list only after a new entry. -/
structure Orderly (rest : List Sent) : Prop where
  spends_none : ∀ x ∈ rest, ¬ x.statement.Begins "DELETE FROM refresh_tokens "
  denied : ∀ before x after, rest = before ++ x :: after →
    x.statement.Begins "DELETE FROM revoked_tokens " →
    ∃ y ∈ before, y.statement.Begins "INSERT INTO revoked_tokens " ∧ y.Succeeds

theorem Renews.orderly {rest : List Sent} {failure : Option AuthError} (h : Renews rest failure) :
    Orderly rest := by
  have hinsert : ∀ x ∈ rest, x.statement.Begins "INSERT INTO refresh_tokens " := by
    cases h with
    | unsigned e => simp
    | stored hx _ => simpa using hx
  refine ⟨fun x hx => (hinsert x hx).not_begins (by decide), ?_⟩
  rintro before x after rfl hx
  exact absurd hx ((hinsert x (by simp)).not_begins (by decide))

theorem Denies.orderly {Expired : Prop} {rest : List Sent} {failure : Option AuthError}
    (h : Denies Expired rest failure) : Orderly rest := by
  cases h with
  | expired _ => exact ⟨by simp, by simp⟩
  | @refused x e hx _ =>
    refine ⟨by simpa using hx.not_begins (by decide), fun before y after hrest hy => ?_⟩
    obtain rfl : y = x := List.mem_singleton.mp (hrest ▸ by simp)
    exact absurd hy (hx.not_begins (by decide))
  | @denied x y _ hx hok hy _ =>
    refine ⟨?_, fun before z after hrest hz => ?_⟩
    · simpa using ⟨hx.not_begins (by decide), hy.not_begins (by decide)⟩
    · cases before with
      | nil =>
        obtain ⟨rfl, -⟩ := List.cons.inj hrest
        exact absurd hz (hx.not_begins (by decide))
      | cons x' before =>
        obtain ⟨rfl, -⟩ := List.cons.inj hrest
        exact ⟨x, List.mem_cons_self, hx, hok⟩

/-- Where a statement stands that was sent: among the looks, at the deletion, or after it. -/
theorem split_cases {looks rest before after : List Sent} {d x : Sent}
    (h : looks ++ d :: rest = before ++ x :: after) :
    x ∈ looks ∨ (before = looks ∧ x = d ∧ after = rest) ∨
      ∃ mid, before = looks ++ d :: mid ∧ rest = mid ++ x :: after := by
  rcases List.append_eq_append_iff.mp h with ⟨as, rfl, has⟩ | ⟨bs, rfl, hbs⟩
  · cases as with
    | nil =>
      obtain ⟨rfl, rfl⟩ := List.cons.inj has
      exact .inr (.inl ⟨List.append_nil _, rfl, rfl⟩)
    | cons y mid =>
      obtain ⟨rfl, hrest⟩ := List.cons.inj has
      exact .inr (.inr ⟨mid, rfl, hrest⟩)
  · cases bs with
    | nil =>
      obtain ⟨rfl, rfl⟩ := List.cons.inj hbs
      exact .inr (.inl ⟨(List.append_nil _).symm, rfl, rfl⟩)
    | cons y bs =>
      obtain ⟨rfl, -⟩ := List.cons.inj hbs
      exact .inl (by simp)

/-- The order that a refresh and a logout keep to. Before the first deletion they only look; a refresh
record is deleted once at most, when it has been checked; only if it was there, something is inserted;
and entries are cleared from the deny-list only after one has been stored. -/
structure Guarded (Checked : List Sent → Statement → Prop) (sent : List Sent) : Prop where
  looks_first : ∀ x ∈ sent.takeWhile fun x => ¬ x.statement.Begins "DELETE ", x.Looks
  once : (sent.filter fun x => x.statement.Begins "DELETE FROM refresh_tokens ").length ≤ 1
  checked : ∀ before x after, sent = before ++ x :: after →
    x.statement.Begins "DELETE FROM refresh_tokens " → Checked before x.statement
  spent : ∀ before x after, sent = before ++ x :: after → x.statement.Begins "INSERT " →
    ∃ y ∈ before, y.Spends
  denied : ∀ before x after, sent = before ++ x :: after →
    x.statement.Begins "DELETE FROM revoked_tokens " →
    ∃ y ∈ before, y.statement.Begins "INSERT INTO revoked_tokens " ∧ y.Succeeds

variable {Checked : List Sent → Statement → Prop} {Writes : List Sent → Option AuthError → Prop}
  {failure : Option AuthError}

/-- What was sent so far keeps to the order as well. -/
theorem Guarded.of_append {rest : List Sent} (h : Guarded Checked (sent ++ rest)) :
    Guarded Checked sent where
  looks_first x hx := h.looks_first x (by
    rw [List.takeWhile_append]
    split_ifs
    · exact List.mem_append_left _ ((List.takeWhile_prefix _).subset hx)
    · exact hx)
  once := by
    have honce := h.once
    rw [List.filter_append, List.length_append] at honce
    omega
  checked before x after hsent :=
    h.checked before x (after ++ rest) (by simp [hsent])
  spent before x after hsent :=
    h.spent before x (after ++ rest) (by simp [hsent])
  denied before x after hsent :=
    h.denied before x (after ++ rest) (by simp [hsent])

theorem guarded_of_looks (hlooks : ∀ x ∈ sent, x.Looks) : Guarded Checked sent where
  looks_first x hx := hlooks x ((List.takeWhile_prefix _).subset hx)
  once := by
    have hnone : ∀ x ∈ sent, ¬ x.statement.Begins "DELETE FROM refresh_tokens " :=
      fun x hx => (hlooks x hx).not_begins (by decide)
    rw [List.filter_eq_nil_iff.mpr (by simpa using hnone)]
    exact Nat.zero_le _
  checked before x after hsent hx :=
    absurd hx ((hlooks x (by simp [hsent])).not_begins (by decide))
  spent before x after hsent hx :=
    absurd hx ((hlooks x (by simp [hsent])).not_begins (by decide))
  denied before x after hsent hx :=
    absurd hx ((hlooks x (by simp [hsent])).not_begins (by decide))

theorem guarded_of_deletion {looks rest : List Sent} {d : Sent} (hlooks : ∀ x ∈ looks, x.Looks)
    (hdelete : d.statement.Begins "DELETE FROM refresh_tokens ")
    (hchecked : Checked looks d.statement) (hrest : Orderly rest) (hspent : rest ≠ [] → d.Spends) :
    Guarded Checked (looks ++ d :: rest) where
  looks_first := by
    have hnone : ∀ x ∈ looks, ¬ x.statement.Begins "DELETE " :=
      fun x hx => (hlooks x hx).not_begins (by decide)
    have hd : d.statement.Begins "DELETE " :=
      (show "DELETE ".toList <+: "DELETE FROM refresh_tokens ".toList by decide).trans hdelete
    rw [List.takeWhile_append_of_pos (by simpa using hnone), List.takeWhile_cons_of_neg (by simpa),
      List.append_nil]
    exact hlooks
  once := by
    have hlooked : ∀ x ∈ looks, ¬ x.statement.Begins "DELETE FROM refresh_tokens " :=
      fun x hx => (hlooks x hx).not_begins (by decide)
    rw [List.filter_append, List.filter_cons_of_pos (by simpa),
      List.filter_eq_nil_iff.mpr (by simpa using hlooked),
      List.filter_eq_nil_iff.mpr (by simpa using hrest.spends_none)]
    exact Nat.le_refl 1
  checked before x after hsent hx := by
    rcases split_cases hsent with hlook | ⟨rfl, rfl, -⟩ | ⟨mid, -, rfl⟩
    · exact absurd hx ((hlooks x hlook).not_begins (by decide))
    · exact hchecked
    · exact absurd hx (hrest.spends_none x (by simp))
  spent before x after hsent hx := by
    rcases split_cases hsent with hlook | ⟨-, rfl, -⟩ | ⟨mid, rfl, rfl⟩
    · exact absurd hx ((hlooks x hlook).not_begins (by decide))
    · exact absurd hx (hdelete.not_begins (by decide))
    · exact ⟨d, by simp, hspent (by simp)⟩
  denied before x after hsent hx := by
    rcases split_cases hsent with hlook | ⟨-, rfl, -⟩ | ⟨mid, rfl, rfl⟩
    · exact absurd hx ((hlooks x hlook).not_begins (by decide))
    · exact absurd hx (hdelete.not_begins (by decide))
    · obtain ⟨y, hy, hdenied⟩ := hrest.denied mid x after rfl hx
      exact ⟨y, by simp [hy], hdenied⟩

namespace Course

theorem guarded (horderly : ∀ rest failure, Writes rest failure → Orderly rest)
    (h : Course Checked Writes sent failure) : Guarded Checked sent := by
  have hnil : Orderly [] := ⟨by simp, by simp⟩
  cases h with
  | stopped e hlooks => exact guarded_of_looks hlooks
  | failed e hlooks hchecked =>
    exact guarded_of_deletion hlooks (deleteRecord_begins _ _) hchecked hnil (by simp)
  | lost hlooks hchecked hnone =>
    exact guarded_of_deletion hlooks (deleteRecord_begins _ _) hchecked hnil (by simp)
  | won hlooks hchecked hspent hwrites =>
    exact guarded_of_deletion hlooks (deleteRecord_begins _ _) hchecked (horderly _ _ hwrites)
      fun _ => ⟨deleteRecord_begins _ _, _, rfl, hspent⟩

/-- When there was no record to delete, nothing else is sent. -/
theorem of_lost (horderly : ∀ rest failure, Writes rest failure → Orderly rest)
    (h : Course Checked Writes sent failure) {before after : List Sent} {x : Sent} {found : Reply}
    (hsent : sent = before ++ x :: after)
    (hx : x.statement.Begins "DELETE FROM refresh_tokens ") (hreply : x.reply = .ok found)
    (hnone : found.affected = 0) : after = [] ∧ failure = some .invalidRefreshToken := by
  have hlook {looks : List Sent} (hlooks : ∀ x ∈ looks, x.Looks) : x ∉ looks :=
    fun hmem => (hlooks x hmem).not_begins (by decide) hx
  cases h with
  | stopped e hlooks => exact absurd (by simp [hsent]) (hlook hlooks)
  | failed e hlooks hchecked =>
    rcases split_cases hsent with hmem | ⟨-, rfl, -⟩ | ⟨mid, -, hmid⟩
    · exact absurd hmem (hlook hlooks)
    · cases hreply
    · simp at hmid
  | lost hlooks hchecked _ =>
    rcases split_cases hsent with hmem | ⟨-, -, rfl⟩ | ⟨mid, -, hmid⟩
    · exact absurd hmem (hlook hlooks)
    · exact ⟨rfl, rfl⟩
    · simp at hmid
  | won hlooks hchecked hspent hwrites =>
    rcases split_cases hsent with hmem | ⟨-, rfl, -⟩ | ⟨mid, -, rfl⟩
    · exact absurd hmem (hlook hlooks)
    · obtain rfl := Except.ok.inj hreply
      exact absurd hnone (Nat.ne_of_gt hspent)
    · exact absurd hx ((horderly _ _ hwrites).spends_none x (by simp))

/-- A refresh succeeds exactly if the new record is stored. -/
theorem renewed_iff (h : Course Checked Renews sent failure) : failure = none ↔
      ∃ x ∈ sent, x.statement.Begins "INSERT INTO refresh_tokens " ∧ x.Succeeds := by
  have hfails {xs : List Sent} {e : AuthError}
      (hnone : ∀ x ∈ xs, ¬ x.statement.Begins "INSERT INTO refresh_tokens ") :
      some e = none ↔
        ∃ x ∈ xs, x.statement.Begins "INSERT INTO refresh_tokens " ∧ x.Succeeds :=
    iff_of_false (by simp) fun ⟨x, hx, hinsert, _⟩ => hnone x hx hinsert
  have hbefore {looks : List Sent} {userId tokenHash : String} {reply : Except DbError Reply}
      (hlooks : ∀ x ∈ looks, x.Looks) :
      ∀ x ∈ looks ++ [⟨deleteRecord userId tokenHash, reply⟩],
        ¬ x.statement.Begins "INSERT INTO refresh_tokens " := by
    refine List.forall_mem_append.mpr ⟨fun x hx => (hlooks x hx).not_begins (by decide), ?_⟩
    simpa using (deleteRecord_begins userId tokenHash).not_begins (by decide)
  cases h with
  | stopped e hlooks => exact hfails fun x hx => (hlooks x hx).not_begins (by decide)
  | failed e hlooks hchecked => exact hfails (hbefore hlooks)
  | lost hlooks hchecked _ => exact hfails (hbefore hlooks)
  | won hlooks hchecked _ hwrites =>
    cases hwrites with
    | unsigned e => exact hfails (hbefore hlooks)
    | @stored x _ hinsert hok =>
      rw [hok]
      constructor
      · exact fun h => ⟨x, by simp, hinsert, h⟩
      · rintro ⟨y, hy, hy', hok⟩
        rw [List.append_cons] at hy
        rcases List.mem_append.mp hy with hy | hy
        · exact absurd hy' (hbefore hlooks y hy)
        · exact List.mem_singleton.mp hy ▸ hok

/-- A logout succeeds exactly if the record was deleted, nothing failed, and the access token has been
put on the deny-list unless it had expired. -/
theorem ended_iff {Expired : Prop}
    (hsucceed : ∀ looks statement, Checked looks statement → ∀ x ∈ looks, x.Succeeds)
    (h : Course Checked (Denies Expired) sent failure) : failure = none ↔
      (∃ x ∈ sent, x.Spends) ∧ (∀ x ∈ sent, x.Succeeds) ∧
        ((∃ x ∈ sent, x.statement.Begins "INSERT INTO revoked_tokens ") ∨ Expired) := by
  have hlook {looks : List Sent} (hlooks : ∀ x ∈ looks, x.Looks) : ∀ x ∈ looks, ¬ x.Spends :=
    fun x hx hspends => (hlooks x hx).not_begins (by decide) hspends.1
  cases h with
  | stopped e hlooks =>
    exact iff_of_false (by simp) fun ⟨⟨x, hx, hspends⟩, _⟩ => hlook hlooks x hx hspends
  | failed e hlooks hchecked =>
    refine iff_of_false (by simp) fun ⟨_, hall, _⟩ => ?_
    obtain ⟨reply, hreply⟩ := hall _ (List.mem_append_right _ (List.mem_singleton.mpr rfl))
    cases hreply
  | lost hlooks hchecked hnone =>
    refine iff_of_false (by simp) ?_
    rintro ⟨⟨x, hx, hspends⟩, -⟩
    rcases List.mem_append.mp hx with hx | hx
    · exact hlook hlooks x hx hspends
    · obtain rfl := List.mem_singleton.mp hx
      obtain ⟨-, reply, hreply, hpos⟩ := hspends
      obtain rfl := Except.ok.inj hreply
      exact Nat.ne_of_gt hpos hnone
  | @won looks rest userId tokenHash found _ hlooks hchecked hspent hwrites =>
    have hspends : ∃ x ∈ looks ++ ⟨deleteRecord userId tokenHash, .ok found⟩ :: rest, x.Spends :=
      ⟨_, List.mem_append_right _ List.mem_cons_self, deleteRecord_begins _ _, _, rfl, hspent⟩
    have hrest : (∀ x ∈ looks ++ ⟨deleteRecord userId tokenHash, .ok found⟩ :: rest, x.Succeeds) ↔
        ∀ x ∈ rest, x.Succeeds := by
      rw [List.forall_mem_append, List.forall_mem_cons]
      exact ⟨fun h => h.2.2, fun h => ⟨hsucceed _ _ hchecked, ⟨found, rfl⟩, h⟩⟩
    rw [hrest, and_iff_right hspends]
    cases hwrites with
    | expired hexpired => simp [hexpired]
    | @refused x e hx hfailed =>
      exact iff_of_false (by simp) fun ⟨hall, _⟩ => hfailed (hall x List.mem_cons_self)
    | @denied x y _ hx hstored _ hcleared =>
      have hinserted : ∃ z ∈ looks ++ ⟨deleteRecord userId tokenHash, .ok found⟩ :: [x, y],
          z.statement.Begins "INSERT INTO revoked_tokens " := ⟨x, by simp, hx⟩
      rw [hcleared, and_iff_left (.inl hinserted)]
      simp [hstored]

end Course

end Turnstile.Postgres
