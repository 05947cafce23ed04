import Mathlib.Data.List.Basic

/-!
# Repeated attempts

A loop that tries again while an attempt ends one way and tries are left. Attempt `i` ends in
`outcomes i`; `attempts` lists what the attempts of one loop end in, and `countP` over it counts
how many had an effect.
-/
namespace Retry

variable {α : Type*}

theorem countP_le_one_iff {p : α → Bool} {l : List α} :
    l.countP p ≤ 1 ↔ l.Pairwise fun x y => p x → ¬ p y := by
  induction l with
  | nil => simp only [List.countP_nil, Nat.zero_le, List.Pairwise.nil]
  | cons x l ih =>
      rw [List.pairwise_cons, List.countP_cons]
      by_cases effect : p x
      · rw [if_pos effect]
        have others : l.countP p + 1 ≤ 1 ↔ ∀ y ∈ l, ¬ p y := by
          rw [← List.countP_eq_zero]
          omega
        rw [others]
        constructor
        · intro none
          exact ⟨fun y mem _ => none y mem,
            List.Pairwise.imp_mem.mpr (List.pairwise_of_forall fun _ y _ mem _ => none y mem)⟩
        · exact fun h y mem => h.1 y mem effect
      · rw [if_neg effect, Nat.add_zero, ih]
        exact ⟨fun rest => ⟨fun _ _ first => absurd first effect, rest⟩, fun h => h.2⟩

/-- What the attempts end in, with `retries` of them left after attempt `i`. -/
def attempts (again : α → Bool) (outcomes : ℕ → α) : (retries i : ℕ) → List α
  | 0, i => [outcomes i]
  | retries + 1, i =>
      outcomes i :: if again (outcomes i) then attempts again outcomes retries (i + 1) else []

variable {again : α → Bool} {outcomes : ℕ → α}

/-- Attempt `k` is made when there is one left and every attempt before it asked for another. -/
theorem attempts_getElem {retries i k : ℕ} {x : α} :
    (attempts again outcomes retries i)[k]? = some x ↔
      k ≤ retries ∧ (∀ j < k, again (outcomes (i + j))) ∧ outcomes (i + k) = x := by
  induction retries generalizing i k with
  | zero =>
      cases k with
      | zero => simp [attempts]
      | succ k => simp [attempts]
  | succ retries ih =>
      cases k with
      | zero => simp [attempts]
      | succ k =>
          rw [attempts, List.getElem?_cons_succ]
          constructor
          · intro is
            split at is
            · rename_i first
              obtain ⟨left, asked, rfl⟩ := ih.mp is
              refine ⟨by omega, fun j before => ?_, by rw [Nat.add_right_comm, Nat.add_assoc]⟩
              cases j with
              | zero => exact first
              | succ j =>
                  rw [show i + (j + 1) = i + 1 + j by omega]
                  exact asked j (by omega)
            · cases is
          · rintro ⟨left, asked, rfl⟩
            rw [if_pos (show again (outcomes i) from asked 0 (by omega)), ih]
            refine ⟨by omega, fun j before => ?_, by rw [Nat.add_right_comm, Nat.add_assoc]⟩
            rw [show i + 1 + j = i + (j + 1) by omega]
            exact asked (j + 1) (by omega)

/-- Two attempts of one loop have an effect: the first of them, and those between, asked for
another. -/
def Repeated (again effect : α → Bool) (outcomes : ℕ → α) (retries : ℕ) : Prop :=
  ∃ a b, a < b ∧ b ≤ retries ∧ (∀ j < b, again (outcomes j)) ∧
    effect (outcomes a) ∧ effect (outcomes b)

theorem countP_attempts {effect : α → Bool} {retries : ℕ} :
    (attempts again outcomes retries 0).countP effect ≤ 1 ↔
      ¬ Repeated again effect outcomes retries := by
  rw [countP_le_one_iff, List.pairwise_iff_getElem]
  constructor
  · rintro once ⟨a, b, before, left, asked, first, second⟩
    obtain ⟨ha, ea⟩ := List.getElem?_eq_some_iff.mp (attempts_getElem.mpr
      ⟨by omega, fun j earlier => asked (0 + j) (by omega), rfl⟩ :
        (attempts again outcomes retries 0)[a]? = some (outcomes (0 + a)))
    obtain ⟨hb, eb⟩ := List.getElem?_eq_some_iff.mp (attempts_getElem.mpr
      ⟨left, fun j earlier => asked (0 + j) (by omega), rfl⟩ :
        (attempts again outcomes retries 0)[b]? = some (outcomes (0 + b)))
    have never := once a b ha hb before
    rw [ea, eb, Nat.zero_add, Nat.zero_add] at never
    exact never first second
  · intro never a b ha hb before first second
    obtain ⟨left, asked, eb⟩ := attempts_getElem.mp (List.getElem?_eq_getElem hb)
    obtain ⟨-, -, ea⟩ := attempts_getElem.mp (List.getElem?_eq_getElem ha)
    rw [Nat.zero_add] at ea eb
    refine never ⟨a, b, before, left, fun j earlier => ?_, ?_, ?_⟩
    · rw [← Nat.zero_add j]
      exact asked j earlier
    · rw [ea]; exact first
    · rw [eb]; exact second

def last (again : α → Bool) (outcomes : ℕ → α) : (retries i : ℕ) → α
  | 0, i => outcomes i
  | retries + 1, i =>
      if again (outcomes i) then last again outcomes retries (i + 1) else outcomes i

/-- The loop ends asking for another attempt when all it could make asked for one. -/
theorem last_again (retries i : ℕ) :
    again (last again outcomes retries i) ↔ ∀ j ≤ retries, again (outcomes (i + j)) := by
  induction retries generalizing i with
  | zero =>
      rw [last]
      exact ⟨fun asked j none => by rwa [Nat.le_zero.mp none], fun asked => asked 0 (Nat.le_refl 0)⟩
  | succ retries ih =>
      rw [last]
      by_cases asked : again (outcomes i)
      · rw [if_pos asked, ih]
        constructor
        · intro later j left
          cases j with
          | zero => exact asked
          | succ j =>
              rw [show i + (j + 1) = i + 1 + j by omega]
              exact later j (by omega)
        · intro all j left
          rw [show i + 1 + j = i + (j + 1) by omega]
          exact all (j + 1) (by omega)
      · rw [if_neg asked]
        exact iff_of_false asked fun all => asked (all 0 (Nat.zero_le _))

/-- In a loop that goes on only after attempts without effect, the last one alone can have one. -/
theorem countP_attempts_last {effect : α → Bool} (harmless : ∀ x, again x → ¬ effect x)
    (retries i : ℕ) :
    (attempts again outcomes retries i).countP effect =
      if effect (last again outcomes retries i) then 1 else 0 := by
  induction retries generalizing i with
  | zero => rw [attempts, List.countP_singleton, last]
  | succ retries ih =>
      rw [attempts, List.countP_cons, last]
      by_cases asked : again (outcomes i)
      · rw [if_pos asked, if_pos asked, if_neg (harmless _ asked), ih, Nat.add_zero]
      · rw [if_neg asked, if_neg asked, List.countP_nil, Nat.zero_add]

end Retry
