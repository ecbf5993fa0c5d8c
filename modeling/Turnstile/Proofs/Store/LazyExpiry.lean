import Mathlib.Data.List.Induction
import Turnstile.Proofs.Store.Revocations

/-! The deny-list of a store in memory drops entries past their deadline when someone asks for them. No
answer shows whether this has happened: the answers are those of a ledger that never drops anything. -/

namespace Turnstile.Revocations

/-- Questions with the instants at which they are asked, the first one first. -/
abbrev Log := List (Nanos × Query)

def Chronological (log : Log) : Prop :=
  log.Pairwise fun x y => x.1 ≤ y.1

instance (log : Log) : Decidable (Chronological log) :=
  inferInstanceAs (Decidable (log.Pairwise fun x y => x.1 ≤ y.1))

/-- The answer of a store to the question whether a key is on the list. -/
def Query.answer? (t : Nanos) (s : MemoryStore) : Query → Option Bool
  | put _ _ => none
  | present key => some (s.isRevoked t key).1
  | timeLeft _ => none

/-- The answers of a store to a log, in its order. -/
def answers (s : MemoryStore) : Log → List (Option Bool)
  | [] => []
  | (t, q) :: log => q.answer? t s :: answers (q.effect t s) log

/-- The answer of a ledger to the question whether a key is on the list. -/
def Query.ledgerAnswer? (t : Nanos) (ledger : Ledger) : Query → Option Bool
  | put _ _ => none
  | present key => some ((ledger key).any (t < ·))
  | timeLeft _ => none

namespace Ledger

/-- The answers of a ledger to a log, in its order. -/
def answers (ledger : Ledger) : Log → List (Option Bool)
  | [] => []
  | (t, q) :: log => q.ledgerAnswer? t ledger :: answers (q.record t ledger) log

def afterLog (ledger : Ledger) (log : Log) : Ledger :=
  log.foldl (fun l x => x.2.record x.1 l) ledger

variable (ledger : Ledger) (before after : Log)

theorem length_answers : (ledger.answers before).length = before.length := by
  induction before generalizing ledger with
  | nil => rfl
  | cons x before ih =>
    unfold answers
    rw [List.length_cons, ih, List.length_cons]

theorem answers_append : ledger.answers (before ++ after) =
    ledger.answers before ++ (ledger.afterLog before).answers after := by
  induction before generalizing ledger with
  | nil => rfl
  | cons x before ih => exact congrArg (List.cons _) (ih _)

/-- What is answered at some place of a log. -/
theorem getElem?_answers (x : Nanos × Query) :
    (ledger.answers (before ++ x :: after))[before.length]? =
      some (x.2.ledgerAnswer? x.1 (ledger.afterLog before)) := by
  rw [answers_append, List.getElem?_append_right (Nat.le_of_eq (ledger.length_answers before)),
    length_answers, Nat.sub_self]
  rfl

/-- A question that leaves the ledger as it is can be left out. -/
theorem eraseIdx_answers {x : Nanos × Query}
    (hidle : x.2.record x.1 (ledger.afterLog before) = ledger.afterLog before) :
    (ledger.answers (before ++ x :: after)).eraseIdx before.length =
      ledger.answers (before ++ after) := by
  rw [answers_append, answers_append, List.eraseIdx_append_of_length_le
    (Nat.le_of_eq (ledger.length_answers before)), length_answers, Nat.sub_self, answers, hidle]
  rfl

end Ledger

/-- The latest question of a log that put a key on the list, for some time, was asked at an instant. -/
def LatestPut (log : Log) (key : String) (u : Nanos) (ttl : Nat) : Prop :=
  ttl ≠ 0 ∧ ∃ front back, log = front ++ (u, .put key ttl) :: back ∧
    ∀ x ∈ back, ∀ ttl', x.2 = .put key ttl' → ttl' = 0

theorem Query.record_put (t : Nanos) (ledger : Ledger) (k key : String) (ttl : Nat) :
    (put k ttl).record t ledger key = if key = k ∧ ttl ≠ 0 then some (t + ttl) else ledger key :=
  rfl

/-- A question that puts a key on the list for no time leaves its deadline as it is. -/
theorem Query.record_of_idle {q : Query} {key : String}
    (hidle : ∀ ttl, q = .put key ttl → ttl = 0) (t : Nanos) (ledger : Ledger) :
    q.record t ledger key = ledger key := by
  cases q with
  | put k ttl =>
    have hnot : ¬ (key = k ∧ ttl ≠ 0) := by
      rintro ⟨rfl, httl⟩
      exact httl (hidle ttl rfl)
    rw [record_put, if_neg hnot]
  | present _ => rfl
  | timeLeft _ => rfl

theorem Ledger.afterLog_of_idle {log : Log} {key : String}
    (hidle : ∀ x ∈ log, ∀ ttl, x.2 = .put key ttl → ttl = 0) (ledger : Ledger) :
    ledger.afterLog log key = ledger key := by
  induction log generalizing ledger with
  | nil => rfl
  | cons x log ih =>
    have hrest := ih (fun y hy => hidle y (List.mem_cons_of_mem x hy)) (x.2.record x.1 ledger)
    exact hrest.trans (Query.record_of_idle (hidle x List.mem_cons_self) x.1 ledger)

/-- A ledger that was empty holds the deadlines of the latest entries. -/
theorem Ledger.afterLog_eq_some {log : Log} {key : String} {deadline : Nanos} :
    afterLog (fun _ => none) log key = some deadline ↔
      ∃ u ttl, LatestPut log key u ttl ∧ deadline = u + ttl := by
  constructor
  · intro h
    induction log using List.reverseRecOn with
    | nil => cases h
    | append_singleton log x ih =>
      have hstep : afterLog (fun _ => none) (log ++ [x]) =
          x.2.record x.1 (afterLog (fun _ => none) log) := List.foldl_append
      rw [hstep] at h
      by_cases hput : ∃ ttl, x.2 = .put key ttl ∧ ttl ≠ 0
      · obtain ⟨ttl, hx, httl⟩ := hput
        have hdeadline : some (x.1 + (ttl : Int)) = some deadline := by
          rw [← h, hx, Query.record_put, if_pos ⟨rfl, httl⟩]
        refine ⟨x.1, ttl, ⟨httl, log, [], ?_, by simp⟩, (Option.some.inj hdeadline).symm⟩
        rw [← hx]
      · have hidle : ∀ ttl, x.2 = .put key ttl → ttl = 0 :=
          fun ttl hx => Decidable.byContradiction fun httl => hput ⟨ttl, hx, httl⟩
        rw [Query.record_of_idle hidle] at h
        obtain ⟨u, ttl, ⟨httl, front, back, rfl, hback⟩, hdeadline⟩ := ih h
        refine ⟨u, ttl, ⟨httl, front, back ++ [x], by simp, ?_⟩, hdeadline⟩
        intro y hy
        rcases List.mem_append.mp hy with hy | hy
        · exact hback y hy
        · obtain rfl := List.mem_singleton.mp hy
          exact hidle
  · rintro ⟨u, ttl, ⟨httl, front, back, rfl, hback⟩, rfl⟩
    have hsplit : afterLog (fun _ => none) (front ++ (u, .put key ttl) :: back) =
        afterLog (Query.record u (afterLog (fun _ => none) front) (.put key ttl)) back :=
      List.foldl_append
    rw [hsplit, afterLog_of_idle hback, Query.record_put, if_pos ⟨rfl, httl⟩]

variable {s : MemoryStore} {t : Nanos} {ledger : Ledger} {log : Log}

/-- A store answers as the ledger does that it tracks. -/
theorem Tracks.answer?_eq (h : Tracks t s ledger) (q : Query) :
    q.answer? t s = q.ledgerAnswer? t ledger := by
  cases q with
  | put _ _ => rfl
  | present key =>
    have hiff : (s.isRevoked t key).1 = true ↔ (ledger key).any (t < ·) = true := by
      rw [s.isRevoked_iff, Option.any_eq_true]
      rcases h key with hsame | ⟨hnone, deadline, hset, hle⟩
      · simp [hsame]
      · -- What the store has dropped is past in the ledger as well.
        simp [hnone, hset, Int.not_lt.mpr hle]
    exact congrArg some (Bool.eq_iff_iff.mpr hiff)
  | timeLeft _ => rfl

theorem Tracks.answers_eq (h : Tracks t s ledger) (hlog : Chronological log)
    (hlater : ∀ x ∈ log, t ≤ x.1) : answers s log = ledger.answers log := by
  induction log generalizing t s ledger with
  | nil => rfl
  | cons x log ih =>
    obtain ⟨hnext, hlog⟩ := List.pairwise_cons.mp hlog
    have hnow : Tracks x.1 s ledger := h.mono (hlater x List.mem_cons_self)
    have hhead := hnow.answer?_eq x.2
    have htail := ih (hnow.effect x.2) hlog hnext
    unfold answers Ledger.answers
    rw [hhead, htail]

/-- No answer shows whether an entry past its deadline has been dropped: a store answers every log as a
ledger does that keeps all entries. A key is on the list until the end of its latest entry. To leave a
question out that puts nothing on the list, or to add one, changes no other answer. -/
theorem dropping_unobservable (hempty : s.revocations = {}) (hlog : Chronological log) :
    answers s log = Ledger.answers (fun _ => none) log ∧
    ∀ before t q after, log = before ++ (t, q) :: after →
      (∀ key, q = .present key → ∃ b, (answers s log)[before.length]? = some (some b) ∧
        (b = true ↔ ∃ u ttl, LatestPut before key u ttl ∧ t < u + ttl)) ∧
      ((∀ key ttl, q = .put key ttl → ttl = 0) →
        answers s (before ++ after) = (answers s log).eraseIdx before.length) := by
  have hanswers {l : Log} (hl : Chronological l) : answers s l = Ledger.answers (fun _ => none) l := by
    cases l with
    | nil => rfl
    | cons x l =>
      have hlater : ∀ y ∈ x :: l, x.1 ≤ y.1 := by
        intro y hy
        rcases List.mem_cons.mp hy with rfl | hy
        · exact Int.le_refl _
        · exact (List.pairwise_cons.mp hl).1 y hy
      exact (Tracks.of_empty hempty x.1).answers_eq hl hlater
  refine ⟨hanswers hlog, ?_⟩
  rintro before t q after rfl
  refine ⟨?_, fun hidle => ?_⟩
  · rintro key rfl
    refine ⟨_, (congrArg (·[before.length]?) (hanswers hlog)).trans
      (Ledger.getElem?_answers _ before after _), ?_⟩
    rw [Option.any_eq_true]
    simp only [Ledger.afterLog_eq_some, decide_eq_true_eq]
    constructor
    · rintro ⟨_, ⟨u, ttl, hput, rfl⟩, hlt⟩
      exact ⟨u, ttl, hput, hlt⟩
    · rintro ⟨u, ttl, hput, hlt⟩
      exact ⟨_, ⟨u, ttl, hput, rfl⟩, hlt⟩
  · have hrest : Chronological (before ++ after) :=
      hlog.sublist (List.Sublist.append_left (List.sublist_cons_self _ _) before)
    rw [hanswers hlog, hanswers hrest, Ledger.eraseIdx_answers]
    funext key
    exact Query.record_of_idle (hidle key) _ _

/-- A key put on the list again stays there for the new time. Putting it there for no time changes
nothing, and neither does asking for it when its first entry has just ended. -/
theorem dropping_unobservable_put_again :
    let before : Log := [(0, .put "k" 1000), (400, .present "k"), (500, .put "k" 0)]
    let after : Log := [(1200, .put "k" 500), (1699, .present "k"), (1700, .present "k")]
    let log := before ++ (1000, .present "k") :: after
    Chronological log ∧
      answers {} log = [none, some true, none, some false, none, some true, some false] ∧
      answers {} (before ++ after) = [none, some true, none, none, some true, some false] := by
  intro before after log
  have hlog : Chronological log := by decide
  obtain ⟨hledger, hplaces⟩ := dropping_unobservable (s := {}) rfl hlog
  have hall : answers {} log = [none, some true, none, some false, none, some true, some false] :=
    hledger.trans (by decide)
  have hidle := (hplaces before 1000 (.present "k") after rfl).2 fun _ _ h => nomatch h
  exact ⟨hlog, hall, hidle.trans (by rw [hall]; rfl)⟩

end Turnstile.Revocations
