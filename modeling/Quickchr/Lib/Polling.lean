import Mathlib.Order.Basic

/-!
# Polling until a deadline

A loop looks at something that changes by itself. Look `i` is made at `now i`; it decides, or
leaves the decision to the next look, which is made only while the deadline has not passed.
-/
namespace Polling

/-- The times of the looks: each comes after the one before. -/
structure Clock where
  now : ℕ → ℕ
  advances : ∀ i, now i < now (i + 1)

variable {β : Type*} (clock : Clock) (deadline : ℕ) (decide : ℕ → Option β) (late : ℕ → β)

/-- What the loop comes to from look `i` on. -/
def poll (i : ℕ) : β :=
  match decide i with
  | some b => b
  | none => if clock.now i < deadline then poll (i + 1) else late i
termination_by deadline - clock.now i
decreasing_by
  have := clock.advances i
  omega

/-- Look `n` is the last one of a loop that starts with look `start`. -/
structure StopsAt (start n : ℕ) : Prop where
  started : start ≤ n
  undecided : ∀ j, start ≤ j → j < n → decide j = none ∧ clock.now j < deadline
  last : decide n ≠ none ∨ deadline ≤ clock.now n

variable {clock deadline decide late}

theorem poll_at {start n : ℕ} (h : StopsAt clock deadline decide start n) :
    poll clock deadline decide late start = (decide n).getD (late n) := by
  obtain ⟨k, rfl⟩ := Nat.exists_eq_add_of_le h.started
  induction k generalizing start with
  | zero =>
      rw [poll]
      cases decided : decide start with
      | some b => rfl
      | none =>
          have passed := h.last.resolve_left fun some => some decided
          exact if_neg (Nat.not_lt.mpr passed)
  | succ k ih =>
      obtain ⟨undecided, early⟩ := h.undecided start (Nat.le_refl _) (by omega)
      rw [poll, undecided]
      have rest : StopsAt clock deadline decide (start + 1) (start + 1 + k) :=
        ⟨by omega, fun j from' before => h.undecided j (by omega) (by omega), by
          rw [show start + 1 + k = start + (k + 1) by omega]
          exact h.last⟩
      simp only [if_pos early]
      rw [ih rest, show start + 1 + k = start + (k + 1) by omega]

variable (clock deadline decide) in
theorem stops (start : ℕ) : ∃ n, StopsAt clock deadline decide start n := by
  induction left : deadline - clock.now start using Nat.strongRecOn generalizing start with
  | ind left ih =>
      by_cases decided : decide start = none
      · by_cases early : clock.now start < deadline
        · have next := clock.advances start
          obtain ⟨n, started, undecided, last⟩ :=
            ih (deadline - clock.now (start + 1)) (by omega) (start + 1) rfl
          refine ⟨n, by omega, fun j from' before => ?_, last⟩
          rcases Nat.eq_or_lt_of_le from' with rfl | after
          · exact ⟨decided, early⟩
          · exact undecided j after before
        · exact ⟨start, Nat.le_refl _, fun j from' before => by omega, .inr (Nat.not_lt.mp early)⟩
      · exact ⟨start, Nat.le_refl _, fun j from' before => by omega, .inl decided⟩

/-- A loop that comes to what it never says when it is late has come to it by a look in time. -/
theorem decided_of_poll {start : ℕ} {b : β} (h : poll clock deadline decide late start = b)
    (never : ∀ i, late i ≠ b) : ∃ n, start ≤ n ∧ decide n = some b ∧
      ∀ j, start ≤ j → j < n → decide j = none ∧ clock.now j < deadline := by
  obtain ⟨n, stop⟩ := stops clock deadline decide start
  rw [poll_at stop] at h
  cases decided : decide n with
  | some b' =>
      rw [decided] at h
      cases h
      exact ⟨n, stop.started, decided, stop.undecided⟩
  | none =>
      rw [decided] at h
      exact absurd h (never n)

end Polling
