import Mathlib.Order.Bounds.Basic
import Quickchr.Lib.Polling

/-!
# Waiting for a streak

A loop looks for as long as a look may be begun before a deadline. It is done with the look that makes
enough good ones in a row; a bad one starts the count again.
-/
namespace Streak

open Polling (Clock)

variable (clock : Clock) (deadline need : ℕ) (good : ℕ → Bool)

/-- Whether the wait ends with a streak, and how many looks were made by then, from look `i` on with so many
good ones just before it. -/
def wait (i count : ℕ) : Bool × ℕ :=
  if clock.now i < deadline then
    let count := if good i then count + 1 else 0
    if need ≤ count then (true, i + 1) else wait (i + 1) count
  else (false, i)
termination_by deadline - clock.now i
decreasing_by
  have := clock.advances i
  omega

/-- Look `n` ends a streak. -/
def Ends (n : ℕ) : Prop := ∃ s, s + need = n + 1 ∧ ∀ j, s ≤ j → j ≤ n → good j = true

/-- Look `i` is made: it is begun in time and no look before it ends a streak. -/
structure Made (i : ℕ) : Prop where
  early : clock.now i < deadline
  pending : ∀ m, m < i → ¬ Ends need good m

/-- The last looks before look `i` were good, as many as were counted, and the one before them was not. -/
structure Counted (i count : ℕ) : Prop where
  few : count ≤ i
  streak : ∀ j, i ≤ j + count → j < i → good j = true
  broken : ∀ j, j + count + 1 = i → good j = false

variable {clock deadline need good}

theorem Counted.start : Counted good 0 0 :=
  ⟨Nat.le_refl 0, fun j _ early => absurd early (Nat.not_lt_zero j), fun j one => by omega⟩

theorem Counted.next {i count : ℕ} (h : Counted good i count) :
    Counted good (i + 1) (if good i then count + 1 else 0) := by
  cases here : good i with
  | true =>
      rw [if_pos rfl]
      refine ⟨by have := h.few; omega, fun j among before => ?_, fun j just => h.broken j (by omega)⟩
      rcases Nat.eq_or_lt_of_le (Nat.le_of_lt_succ before) with rfl | earlier
      · exact here
      · exact h.streak j (by omega) earlier
  | false =>
      rw [if_neg Bool.false_ne_true]
      refine ⟨Nat.zero_le _, fun j among before => by omega, fun j just => ?_⟩
      obtain rfl : j = i := by omega
      exact here

/-- A streak ends with look `i` when the count there has reached what is needed. -/
theorem Counted.ends_iff {i count : ℕ} (h : Counted good (i + 1) count) : Ends need good i ↔ need ≤ count := by
  constructor
  · rintro ⟨s, whole, streak⟩
    by_contra few
    have bad := h.broken (i - count) (by have := h.few; omega)
    rw [streak (i - count) (by omega) (by omega)] at bad
    cases bad
  · intro enough
    exact ⟨i + 1 - need, by have := h.few; omega, fun j among last => h.streak j (by omega) (by omega)⟩

theorem Made.before {i j : ℕ} (h : Made clock deadline need good i) (le : j ≤ i) :
    Made clock deadline need good j where
  early := by
    have later : clock.now j ≤ clock.now i := monotone_nat_of_le_succ (fun k => (clock.advances k).le) le
    have := h.early
    omega
  pending m before := h.pending m (by omega)

/-- The looks of a wait are those that are made, and it ends with a streak when one of them ends one. -/
theorem wait_spec {i count : ℕ} (h : Counted good i count) (pending : ∀ m, m < i → ¬ Ends need good m) {r : Bool × ℕ}
    (run : wait clock deadline need good i count = r) : i ≤ r.2 ∧ (∀ j, i ≤ j → (j < r.2 ↔ Made clock deadline need good j)) ∧
      (r.1 = true ↔ ∃ n, Ends need good n ∧ clock.now n < deadline) := by
  subst run
  fun_induction wait clock deadline need good i count with
  | case1 i count early count' enough =>
      have here : Ends need good i := h.next.ends_iff.mpr enough
      refine ⟨Nat.le_succ i, fun j after => ⟨fun before => ?_, fun made => ?_⟩, fun _ => ⟨i, here, early⟩, fun _ => rfl⟩
      · obtain rfl : j = i := by dsimp only at before; omega
        exact ⟨early, pending⟩
      · by_contra later
        exact made.pending i (by dsimp only at later; omega) here
  | case2 i count early count' few ih =>
      have unbroken (m : ℕ) (earlier : m < i + 1) : ¬ Ends need good m := by
        rcases Nat.eq_or_lt_of_le (Nat.le_of_lt_succ earlier) with rfl | earlier
        · exact fun ends => few (h.next.ends_iff.mp ends)
        · exact pending m earlier
      obtain ⟨le, made, ready⟩ := ih h.next unbroken
      refine ⟨by omega, fun j after => ?_, ready⟩
      rcases Nat.eq_or_lt_of_le after with rfl | after
      · exact iff_of_true (by omega) ⟨early, pending⟩
      · exact made j after
  | case3 i count late =>
      refine ⟨Nat.le_refl i, fun j after => ⟨fun before => absurd before (Nat.not_lt.mpr after), fun made => ?_⟩,
        by simp, fun ⟨n, ends, early⟩ => ?_⟩
      · exact absurd (made.before after).early late
      · have after : i ≤ n := Nat.le_of_not_lt fun earlier => pending n earlier ends
        have later : clock.now i ≤ clock.now n := monotone_nat_of_le_succ (fun j => (clock.advances j).le) after
        omega

end Streak
