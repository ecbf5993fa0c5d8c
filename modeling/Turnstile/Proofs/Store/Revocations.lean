import Turnstile.Proofs.Table
import Turnstile.Store.Memory

/-! The deadlines on the deny-list of a store in memory. Whether a key is on the list and how much time
it has left are read off the same deadline. The two agree at every instant but the deadline itself. -/

namespace Turnstile

namespace MemoryStore

variable (s : MemoryStore) (t : Nanos) (key k : String)

theorem get?_revocations_revoke (ttl : Nat) : (s.revoke t key ttl).revocations.get? k =
    if k = key ∧ ttl ≠ 0 then some (t + ttl) else s.revocations.get? k := by
  unfold revoke
  by_cases httl : ttl = 0
  · simp [httl]
  · simp [httl]

theorem get?_revocations_isRevoked :
    (s.isRevoked t key).2.revocations.get? k = s.revocations.get? k ∨
      ((s.isRevoked t key).2.revocations.get? k = none ∧
        ∃ deadline, s.revocations.get? k = some deadline ∧ deadline ≤ t) := by
  unfold isRevoked
  cases hget : s.revocations.get? key with
  | none => exact .inl rfl
  | some deadline =>
    by_cases hle : deadline ≤ t
    · by_cases hk : k = key
      · subst hk
        exact .inr ⟨by simp [hle], deadline, hget, hle⟩
      · exact .inl (by simp [hle, hk])
    · exact .inl (by simp [hle])

/-- A key is on the list until its deadline. -/
theorem isRevoked_iff : (s.isRevoked t key).1 = true ↔
    ∃ deadline, s.revocations.get? key = some deadline ∧ t < deadline := by
  unfold isRevoked
  cases hget : s.revocations.get? key with
  | none => simp
  | some deadline =>
    by_cases hle : deadline ≤ t
    · simp [hle, Int.not_lt.mpr hle]
    · simp [hle, Int.not_le.mp hle]

variable {s key} in
theorem isRevoked_congr {s' : MemoryStore}
    (h : s'.revocations.get? key = s.revocations.get? key) (t : Nanos) :
    (s'.isRevoked t key).1 = (s.isRevoked t key).1 := by
  rw [Bool.eq_iff_iff, isRevoked_iff, isRevoked_iff, h]

/-- Dropping an entry past its deadline changes no later answer. -/
theorem isRevoked_isRevoked {t u : Nanos} (h : t ≤ u) (key k : String) (s : MemoryStore) :
    ((s.isRevoked t k).2.isRevoked u key).1 = (s.isRevoked u key).1 := by
  rcases s.get?_revocations_isRevoked t k key with hsame | ⟨hnone, deadline, hsome, hle⟩
  · exact isRevoked_congr hsame u
  · have hpast : deadline ≤ u := Int.le_trans hle h
    unfold isRevoked at hnone ⊢
    simp [hnone, hsome, hpast]

theorem isRevoked_revoke {key k : String} (h : key ≠ k) (t u : Nanos) (ttl : Nat)
    (s : MemoryStore) : ((s.revoke t k ttl).isRevoked u key).1 = (s.isRevoked u key).1 := by
  apply isRevoked_congr
  rw [get?_revocations_revoke, if_neg fun hk => h hk.1]

/-- The time left is counted down to the deadline, which is included. -/
theorem revocationTtl_eq_some (left : Nat) : s.revocationTtl t key = some left ↔
    s.revocations.get? key = some (t + left) := by
  unfold revocationTtl
  cases hget : s.revocations.get? key with
  | none => simp
  | some deadline =>
    have hcount : (t ≤ deadline ∧ (deadline - t).toNat = left) ↔ deadline = t + left := by
      unfold Nanos at *
      omega
    simpa using hcount

theorem isSome_revocationTtl : (s.revocationTtl t key).isSome = true ↔
    ∃ deadline, s.revocations.get? key = some deadline ∧ t ≤ deadline := by
  simp only [Option.isSome_iff_exists, revocationTtl_eq_some]
  constructor
  · rintro ⟨left, hget⟩
    exact ⟨t + left, hget, Int.le_add_of_nonneg_right (Int.natCast_nonneg left)⟩
  · rintro ⟨deadline, hget, hle⟩
    refine ⟨(deadline - t).toNat, ?_⟩
    rw [hget, Int.toNat_of_nonneg (Int.sub_nonneg_of_le hle), Int.add_comm, Int.sub_add_cancel]

variable {s key} in
theorem revocationTtl_congr {s' : MemoryStore}
    (h : s'.revocations.get? key = s.revocations.get? key) (t : Nanos) :
    s'.revocationTtl t key = s.revocationTtl t key := by
  unfold revocationTtl
  rw [h]

variable {s t key} in
theorem revocationTtl_of_none (h : s.revocations.get? key = none) :
    s.revocationTtl t key = none := by
  unfold revocationTtl
  rw [h]
  rfl

variable {s t key} in
theorem revocationTtl_of_past {deadline : Nanos} (h : s.revocations.get? key = some deadline)
    (hpast : deadline < t) : s.revocationTtl t key = none := by
  unfold revocationTtl
  simp [h, Int.not_le.mpr hpast]

/-- Asking drops an entry that has reached its deadline, and no other. -/
theorem isRevoked_of_reached (h : s.revocations.get? key = some t) :
    (s.isRevoked t key).1 = false ∧ (s.isRevoked t key).2.revocations.get? key = none := by
  unfold isRevoked
  simp [h]

end MemoryStore

namespace Revocations

inductive Query where
  | put (key : String) (ttl : Nat)
  | present (key : String)
  | timeLeft (key : String)

def Query.effect (t : Nanos) (s : MemoryStore) : Query → MemoryStore
  | put key ttl => s.revoke t key ttl
  | present key => (s.isRevoked t key).2
  | timeLeft _ => s

/-- The stores that come about when an empty deny-list is used, with the questions asked so far, the
latest first. Time may pass between them. -/
inductive Reaches : List (Nanos × Query) → Nanos → MemoryStore → Prop
  | start {s : MemoryStore} (t : Nanos) : s.revocations = {} → Reaches [] t s
  | wait {h : List (Nanos × Query)} {t u : Nanos} {s : MemoryStore} :
    Reaches h t s → t ≤ u → Reaches h u s
  | ask {h : List (Nanos × Query)} {t : Nanos} {s : MemoryStore} (q : Query) :
    Reaches h t s → Reaches ((t, q) :: h) t (q.effect t s)

/-- Deadlines by key, of which none is ever dropped. -/
abbrev Ledger := String → Option Nanos

def Query.record (t : Nanos) (ledger : Ledger) : Query → Ledger
  | put k ttl => fun key => if key = k ∧ ttl ≠ 0 then some (t + ttl) else ledger key
  | present _ => ledger
  | timeLeft _ => ledger

variable {h : List (Nanos × Query)} {s : MemoryStore} {t : Nanos} {ledger : Ledger}

/-- At an instant, a store holds the deadlines of a ledger, less some that have been reached. -/
def Tracks (t : Nanos) (s : MemoryStore) (ledger : Ledger) : Prop :=
  ∀ key, s.revocations.get? key = ledger key ∨
    (s.revocations.get? key = none ∧ ∃ deadline, ledger key = some deadline ∧ deadline ≤ t)

namespace Tracks

theorem of_empty (hempty : s.revocations = {}) (t : Nanos) : Tracks t s fun _ => none := by
  intro key
  rw [hempty]
  exact .inl rfl

theorem mono {u : Nanos} (h : Tracks t s ledger) (htu : t ≤ u) : Tracks u s ledger := by
  intro key
  refine (h key).imp_right fun ⟨hnone, deadline, hset, hle⟩ => ?_
  exact ⟨hnone, deadline, hset, Int.le_trans hle htu⟩

/-- A store goes on tracking a ledger, whatever is asked. -/
theorem effect (h : Tracks t s ledger) (q : Query) :
    Tracks t (q.effect t s) (q.record t ledger) := by
  intro key
  cases q with
  | put k ttl =>
    simp only [Query.effect, Query.record, MemoryStore.get?_revocations_revoke]
    by_cases hk : key = k ∧ ttl ≠ 0
    · simp only [if_pos hk, true_or]
    · simp only [if_neg hk]
      exact h key
  | present k =>
    rcases s.get?_revocations_isRevoked t k key with hsame | ⟨hnone, deadline, hget, hle⟩
    · simp only [Query.effect, hsame]
      exact h key
    · -- The entry that is dropped was the one of the ledger, and it has been reached.
      rcases h key with hset | ⟨hgone, -⟩
      · exact .inr ⟨hnone, deadline, hset.symm.trans hget, hle⟩
      · cases hgone.symm.trans hget
  | timeLeft k => exact h key

end Tracks

def deadline? (key : String) : List (Nanos × Query) → Option Nanos
  | [] => none
  | (t, .put k ttl) :: h => if key = k ∧ ttl ≠ 0 then some (t + ttl) else deadline? key h
  | (_, .present _) :: h => deadline? key h
  | (_, .timeLeft _) :: h => deadline? key h

theorem deadline?_cons (q : Query) : (fun key => deadline? key ((t, q) :: h)) =
    q.record t fun key => deadline? key h := by
  cases q <;> rfl

/-- The deadlines last set are on the list, or they have passed and were dropped. -/
theorem Reaches.kept (hr : Reaches h t s) : Tracks t s fun key => deadline? key h := by
  induction hr with
  | start t hempty => exact Tracks.of_empty hempty t
  | wait _ htu ih => exact ih.mono htu
  | ask q _ ih =>
    rw [deadline?_cons]
    exact ih.effect q

/-- At an instant, a key has time left exactly if it is on the list. It is then the positive time to
the deadline, and no question about who is on the list changes it. -/
structure Agree (s : MemoryStore) (now : Nanos) (key : String) : Prop where
  present : (s.revocationTtl now key).isSome = true ↔ (s.isRevoked now key).1 = true
  positive : ∀ left, s.revocationTtl now key = some left →
    0 < left ∧ s.revocations.get? key = some (now + left)
  unmoved : ∀ k, (s.isRevoked now k).2.revocationTtl now key = s.revocationTtl now key

theorem agree_of_ne {now : Nanos} {key : String} (hne : s.revocations.get? key ≠ some now) :
    Agree s now key where
  present := by
    rw [s.isSome_revocationTtl, s.isRevoked_iff]
    constructor
    · rintro ⟨deadline, hget, hle⟩
      exact ⟨deadline, hget, Int.lt_iff_le_and_ne.mpr ⟨hle, fun heq => hne (heq ▸ hget)⟩⟩
    · rintro ⟨deadline, hget, hlt⟩
      exact ⟨deadline, hget, Int.le_of_lt hlt⟩
  positive left hleft := by
    have hget := (s.revocationTtl_eq_some now key left).mp hleft
    refine ⟨Nat.pos_of_ne_zero ?_, hget⟩
    rintro rfl
    exact hne (by rw [hget, Int.ofNat_zero, Int.add_zero])
  unmoved k := by
    rcases s.get?_revocations_isRevoked now k key with hsame | ⟨hnone, deadline, hget, hle⟩
    · exact MemoryStore.revocationTtl_congr hsame now
    · -- What was dropped had no time left before either.
      have hpast : deadline < now := Int.lt_iff_le_and_ne.mpr ⟨hle, fun heq => hne (heq ▸ hget)⟩
      rw [MemoryStore.revocationTtl_of_past hget hpast, MemoryStore.revocationTtl_of_none hnone]

/-- Presence and time left agree except at the very instant of the deadline, which is the one last set
for the key. Then the key is off the list and still has a time left, of zero, until someone asks
whether it is on the list. -/
theorem agree_iff_off_deadline (hr : Reaches h t s) (key : String) (now : Nanos) :
    (Agree s now key ↔ s.revocations.get? key ≠ some now) ∧
    (∀ deadline, s.revocations.get? key = some deadline → deadline? key h = some deadline) ∧
    (s.revocations.get? key = some now →
      s.revocationTtl now key = some 0 ∧ (s.isRevoked now key).1 = false ∧
        (s.isRevoked now key).2.revocationTtl now key = none) := by
  have hreached (hget : s.revocations.get? key = some now) :
      s.revocationTtl now key = some 0 ∧ (s.isRevoked now key).1 = false ∧
        (s.isRevoked now key).2.revocationTtl now key = none := by
    obtain ⟨hoff, hdropped⟩ := s.isRevoked_of_reached now key hget
    refine ⟨?_, hoff, MemoryStore.revocationTtl_of_none hdropped⟩
    rw [s.revocationTtl_eq_some, hget, Int.ofNat_zero, Int.add_zero]
  refine ⟨⟨fun hagree hget => ?_, agree_of_ne⟩, fun deadline hget => ?_, hreached⟩
  · obtain ⟨hzero, hoff, -⟩ := hreached hget
    have hon := hagree.present.mp (by rw [hzero]; rfl)
    rw [hoff] at hon
    cases hon
  · rcases hr.kept key with hset | ⟨hnone, -⟩
    · exact hset.symm.trans hget
    · cases hnone.symm.trans hget

/-- A deny-list that was given a key for a second at the start of time. -/
private theorem reaches_put : Reaches [(0, .put "k" 1000)] 0 (MemoryStore.revoke 0 "k" 1000 {}) :=
  .ask (.put "k" 1000) (.start 0 rfl)

/-- Before the deadline a key is on the list, with the time to the deadline left. -/
theorem agree_iff_off_deadline_before :
    Reaches [(0, .put "k" 1000)] 0 (MemoryStore.revoke 0 "k" 1000 {}) ∧
      Agree (MemoryStore.revoke 0 "k" 1000 {}) 400 "k" :=
  ⟨reaches_put, (agree_iff_off_deadline reaches_put "k" 400).1.mpr (by decide)⟩

/-- Presence and time left do not agree at the deadline: a key that is off the list has a time left, of
no milliseconds. -/
theorem time_left_at_deadline :
    ∃ s, Reaches [(0, .put "k" 1000)] 1000 s ∧ ¬ Agree s 1000 "k" ∧
      s.revocationTtl 1000 "k" = some 0 ∧ (s.isRevoked 1000 "k").1 = false ∧
      (s.isRevoked 1000 "k").2.revocationTtl 1000 "k" = none := by
  refine ⟨MemoryStore.revoke 0 "k" 1000 {}, reaches_put.wait (by decide), ?_, rfl, rfl, rfl⟩
  intro hagree
  obtain ⟨hpositive, -⟩ := hagree.positive 0 rfl
  exact absurd hpositive (Nat.lt_irrefl 0)

end Revocations

end Turnstile
