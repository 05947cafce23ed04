import Mathlib.Data.Int.ConditionallyCompleteOrder
import Mathlib.Data.Prod.Lex
import Mathlib.Data.Sign.Basic
import Mathlib.Order.WithBot
import Quickchr.Lib.Number

/-!
# The order of doubles

Rounding keeps the order, and the sign of a difference tells it, but for the difference of two
infinities, which is no number.
-/

namespace Rounding

theorem halfEven_mono {x y : ℚ} (h : x ≤ y) : halfEven x ≤ halfEven y := by
  rcases lt_or_eq_of_le (Int.floor_mono h) with less | same
  · have up := halfEven_le x
    have down := floor_le_halfEven y
    omega
  · unfold halfEven
    dsimp only
    rw [same]
    have further : x - ⌊y⌋ ≤ y - ⌊y⌋ := by linarith
    split_ifs <;> first | omega | linarith

theorem nearest_mono_of_pos {p q : ℚ} (positive : 0 < p) (h : p ≤ q) : nearest p ≤ nearest q := by
  have positive' : 0 < q := lt_of_lt_of_le positive h
  by_cases same : exponent p = exponent q
  · rw [nearest, nearest, same]
    refine mul_le_mul_of_nonneg_right ?_ (by positivity)
    exact_mod_cast halfEven_mono (div_le_div_of_nonneg_right h (by positivity))
  · have logs : Int.log 2 |p| ≤ Int.log 2 |q| := by
      rw [abs_of_pos positive, abs_of_pos positive']
      exact Int.log_mono_right positive h
    have above : exponent p < exponent q := by
      unfold exponent at same ⊢
      omega
    -- Between the two stands a power of two, which is a double.
    have full := pow_le_of_exponent positive' (by unfold exponent at above ⊢; omega)
    have below : p ≤ 2 ^ (exponent q + 52) := by
      have next : |p| < (2 : ℚ) ^ (Int.log 2 |p| + 1) := Int.lt_zpow_succ_log_self (by decide) |p|
      rw [abs_of_pos positive] at next
      refine le_trans (le_of_lt next) (zpow_le_zpow_right₀ (by norm_num) ?_)
      unfold exponent at above ⊢
      rw [abs_of_pos positive] at above
      omega
    have low : -1074 ≤ exponent q + 52 := by unfold exponent; omega
    have under := @nearest_le_multiple 1 (exponent q + 52) p (by norm_num) low positive
      (by rw [Int.cast_one, one_mul]; exact below)
    have over_ := @multiple_le_nearest 1 (exponent q + 52) q (by norm_num) low positive'
      (by rw [Int.cast_one, one_mul]; exact full)
    exact le_trans under over_

theorem nearest_mono {m n : ℕ} (h : m ≤ n) : nearest m ≤ nearest n := by
  rcases Nat.eq_zero_or_pos m with rfl | positive
  · rw [Nat.cast_zero, nearest_zero]
    exact nearest_nonneg (Nat.cast_nonneg n)
  · exact nearest_mono_of_pos (by exact_mod_cast positive) (by exact_mod_cast h)

/-- What is not below the smallest double does not round to zero. -/
theorem sign_nearest {q : ℚ} (h : (2 : ℚ) ^ (-1074 : ℤ) ≤ |q|) :
    SignType.sign (nearest q) = SignType.sign q := by
  have unit : (0 : ℚ) < 2 ^ exponent q := by positivity
  have some_ : q ≠ 0 := by
    rintro rfl
    rw [abs_zero] at h
    exact absurd h (not_le.mpr (by positivity))
  have reaches : (2 : ℚ) ^ exponent q ≤ |q| := by
    rcases le_total (Int.log 2 |q| - 52) (-1074) with low | high
    · rw [exponent, max_eq_right low]
      exact h
    · rw [exponent, max_eq_left high]
      have first := Int.zpow_log_le_self (b := 2) (by decide) (abs_pos.mpr some_)
      calc (2 : ℚ) ^ (Int.log 2 |q| - 52) ≤ 2 ^ Int.log 2 |q| :=
            zpow_le_zpow_right₀ (by norm_num) (by omega)
        _ ≤ |q| := by exact_mod_cast first
  rcases lt_or_gt_of_ne some_ with negative | positive
  · rw [abs_of_neg negative] at reaches
    have mantissa : halfEven (q / 2 ^ exponent q) ≤ -1 := by
      refine halfEven_le_of_le ((div_le_iff₀ unit).mpr ?_)
      push_cast
      linarith
    have below : nearest q < 0 := by
      refine mul_neg_of_neg_of_pos ?_ unit
      exact_mod_cast lt_of_le_of_lt mantissa (by decide)
    rw [sign_neg negative, sign_neg below]
  · rw [abs_of_pos positive] at reaches
    have mantissa : 1 ≤ halfEven (q / 2 ^ exponent q) := by
      refine le_halfEven ((le_div_iff₀ unit).mpr ?_)
      push_cast
      linarith
    have above : 0 < nearest q := by
      refine mul_pos ?_ unit
      exact_mod_cast lt_of_lt_of_le (by decide) mantissa
    rw [sign_pos positive, sign_pos above]

/-- Doubles that differ do not come closer than the smallest double. -/
theorem le_abs_sub {a b : ℚ} (ha : nearest a = a) (hb : nearest b = b) (h : a ≠ b) :
    (2 : ℚ) ^ (-1074 : ℤ) ≤ |a - b| := by
  have multiple {c : ℚ} (hc : nearest c = c) : ∃ k : ℤ, c = k * 2 ^ (-1074 : ℤ) := by
    refine ⟨halfEven (c / 2 ^ exponent c) * 2 ^ (exponent c - -1074).toNat, ?_⟩
    rw [← multiple_eq (show (-1074 : ℤ) ≤ exponent c from le_max_right _ _), ← nearest, hc]
  obtain ⟨i, is⟩ := multiple ha
  obtain ⟨j, js⟩ := multiple hb
  have apart : i - j ≠ 0 := fun none => h (by rw [is, js, sub_eq_zero.mp none])
  have whole : (1 : ℚ) ≤ |((i - j : ℤ) : ℚ)| := by
    rw [← Int.cast_abs]
    exact_mod_cast Int.one_le_abs apart
  rw [is, js, ← sub_mul, ← Int.cast_sub, abs_mul, abs_of_pos (show (0 : ℚ) < 2 ^ (-1074 : ℤ) by positivity)]
  exact le_mul_of_one_le_left (by positivity) whole

end Rounding

open Rounding

namespace Number

def sub : Number → Number → Number
  | .finite a _, .finite b _ => round (a - b)
  | .finite _ _, .infinity negative => .infinity !negative
  | .infinity negative, .finite _ _ => .infinity negative
  | .infinity negative, .infinity negative' => if negative = negative' then .nan else .infinity negative
  | _, _ => .nan

/-- Whether a number is below, at or above zero. -/
def sign : Number → Option SignType
  | .nan => none
  | .infinity negative => some (if negative then -1 else 1)
  | .finite value _ => some (SignType.sign value)

theorem sign_round {q : ℚ} (h : q = 0 ∨ (2 : ℚ) ^ (-1074 : ℤ) ≤ |q|) :
    sign (round q) = some (SignType.sign q) := by
  have kept : SignType.sign (nearest q) = SignType.sign q := by
    rcases h with rfl | far
    · rw [nearest_zero]
    · exact sign_nearest far
  unfold round
  split
  · rw [sign, kept]
  · rename_i large
    have some_ : q ≠ 0 := by
      rintro rfl
      rw [nearest_zero, abs_zero] at large
      exact large (by positivity)
    rcases lt_or_gt_of_ne some_ with negative | positive
    · rw [sign, sign_neg negative, decide_eq_true negative]
      rfl
    · rw [sign, sign_pos positive, decide_eq_false (not_lt.mpr (le_of_lt positive))]
      rfl

theorem sign_round_intCast (z : ℤ) : sign (round z) = some (SignType.sign z) := by
  have kept : SignType.sign (z : ℚ) = SignType.sign z := sign_intCast z
  rw [sign_round, kept]
  rcases eq_or_ne z 0 with rfl | some_
  · exact .inl Int.cast_zero
  · refine .inr (le_trans (zpow_le_one_of_nonpos₀ (by norm_num) (by norm_num)) ?_)
    rw [← Int.cast_abs]
    exact_mod_cast Int.one_le_abs some_

theorem sign_eq_none_iff {n : Number} : sign n = none ↔ n = .nan := by
  cases n with
  | nan => exact iff_of_true rfl rfl
  | infinity negative => exact iff_of_false nofun nofun
  | finite value double => exact iff_of_false nofun nofun

theorem zero_double : nearest 0 = 0 ∧ |(0 : ℚ)| < 2 ^ 1024 := ⟨nearest_zero, by norm_num⟩

theorem sign_eq_zero_iff {n : Number} : sign n = some 0 ↔ n = round 0 := by
  have zero : round 0 = .finite 0 zero_double := round_of_double zero_double
  rw [zero]
  cases n with
  | nan => simp [sign]
  | infinity negative => cases negative <;> simp [sign]
  | finite value double => simp [sign]

/-- A number whose sign tells which of two comes first. -/
structure Tells {κ : Type*} [LT κ] (n : Number) (a b : κ) : Prop where
  below : sign n = some (-1) ↔ a < b
  above : sign n = some 1 ↔ b < a

theorem round_intCast_tells (i j : ℤ) : Tells (round (i - j : ℤ)) i j := by
  constructor <;> rw [sign_round_intCast, Option.some.injEq]
  · rw [sign_eq_neg_one_iff, sub_neg]
  · rw [sign_eq_one_iff, sub_pos]

theorem Tells.eq_of_nan {κ : Type*} [LinearOrder κ] {n : Number} {a b : κ} (h : Tells n a b)
    (nan : sign n = none) : a = b := by
  have notBelow : ¬ a < b := by
    rw [← h.below, nan]
    exact nofun
  have notAbove : ¬ b < a := by
    rw [← h.above, nan]
    exact nofun
  exact le_antisymm (not_lt.mp notAbove) (not_lt.mp notBelow)

theorem Tells.zero_iff {κ : Type*} [LinearOrder κ] {n : Number} {a b : κ} (h : Tells n a b) :
    sign n = some 0 ↔ a = b ∧ sign n ≠ none := by
  constructor
  · intro zero
    refine ⟨le_antisymm ?_ ?_, by rw [zero]; exact nofun⟩
    · rw [← not_lt, ← h.above, zero]
      decide
    · rw [← not_lt, ← h.below, zero]
      decide
  · rintro ⟨rfl, number⟩
    obtain ⟨s, is⟩ := Option.ne_none_iff_exists'.mp number
    cases s with
    | zero => exact is
    | neg => exact absurd (h.below.mp is) (lt_irrefl a)
    | pos => exact absurd (h.above.mp is) (lt_irrefl a)

theorem Tells.lex {κ κ' : Type*} [LinearOrder κ] [Preorder κ'] {n n' : Number} {a b : κ} {a' b' : κ'}
    {same : Prop} [Decidable same] (first : Tells n a b) (rest : Tells n' a' b') (h : same ↔ a = b) :
    Tells (if ¬ same then n else n') (toLex (a, a')) (toLex (b, b')) := by
  by_cases is : same
  · rw [if_neg (not_not.mpr is), h.mp is]
    constructor
    · rw [rest.below, Prod.Lex.toLex_lt_toLex]
      simp
    · rw [rest.above, Prod.Lex.toLex_lt_toLex]
      simp
  · have differ : a ≠ b := fun eq => is (h.mpr eq)
    rw [if_pos is]
    constructor
    · rw [first.below, Prod.Lex.toLex_lt_toLex]
      simp [differ]
    · rw [first.above, Prod.Lex.toLex_lt_toLex]
      simp [differ.symm]

/-- The value of what is not negative, with infinity above all others. -/
def size : Number → WithTop ℚ
  | .finite value _ => value
  | _ => ⊤

variable {m n : ℕ}

theorem round_natCast (n : ℕ) :
    (∃ double, round n = .finite (nearest n) double) ∨ round n = .infinity false := by
  by_cases bounded : |nearest (n : ℚ)| < 2 ^ 1024
  · exact .inl ⟨_, dif_pos bounded⟩
  · refine .inr ?_
    rw [round, dif_neg bounded, decide_eq_false (not_lt.mpr (Nat.cast_nonneg n))]

theorem size_mono (h : m ≤ n) : size (round m) ≤ size (round n) := by
  have grows := nearest_mono h
  rcases round_natCast n with ⟨double', is'⟩ | is'
  · rcases round_natCast m with ⟨double, is⟩ | is
    · rw [is, is']
      exact WithTop.coe_le_coe.mpr grows
    · -- what is at most a finite double is finite
      have bounded : |nearest (m : ℚ)| < 2 ^ 1024 := by
        rw [abs_of_nonneg (nearest_nonneg (Nat.cast_nonneg m))]
        exact lt_of_le_of_lt grows (lt_of_abs_lt double'.2)
      rw [round, dif_pos bounded] at is
      cases is
  · rw [is']
    exact le_top

theorem round_eq_iff : round (m : ℚ) = round (n : ℚ) ↔ size (round m) = size (round n) := by
  rcases round_natCast m with ⟨double, is⟩ | is <;> rcases round_natCast n with ⟨double', is'⟩ | is' <;>
    rw [is, is'] <;> simp [size]

theorem size_small (small : n ≤ 2 ^ 53) : size (round n) = ((n : ℚ) : WithTop ℚ) := by
  rw [round_of_double (natCast_double small), size]

theorem size_eq_top_iff : size (round n) = ⊤ ↔ round (n : ℚ) = .infinity false := by
  rcases round_natCast n with ⟨double, is⟩ | is <;> rw [is]
  · exact iff_of_false WithTop.coe_ne_top nofun
  · exact iff_of_true rfl rfl

theorem sign_sub_finite {a b : ℚ} {double : nearest a = a ∧ |a| < 2 ^ 1024}
    {double' : nearest b = b ∧ |b| < 2 ^ 1024} :
    sign (sub (.finite a double) (.finite b double')) = some (SignType.sign (a - b)) := by
  refine sign_round ?_
  rcases eq_or_ne a b with rfl | differ
  · exact .inl (sub_self a)
  · exact .inr (le_abs_sub double.1 double'.1 differ)

theorem sub_tells (m n : ℕ) : Tells (sub (round m) (round n)) (size (round m)) (size (round n)) := by
  rcases round_natCast m with ⟨double, is⟩ | is <;> rcases round_natCast n with ⟨double', is'⟩ | is' <;>
    rw [is, is']
  · constructor <;> rw [sign_sub_finite, Option.some.injEq]
    · rw [sign_eq_neg_one_iff, sub_neg]
      exact WithTop.coe_lt_coe.symm
    · rw [sign_eq_one_iff, sub_pos]
      exact WithTop.coe_lt_coe.symm
  · exact ⟨iff_of_true rfl (WithTop.coe_lt_top _), iff_of_false (by simp [sub, sign]) (not_lt.mpr le_top)⟩
  · exact ⟨iff_of_false (by simp [sub, sign]) (not_lt.mpr le_top), iff_of_true rfl (WithTop.coe_lt_top _)⟩
  · exact ⟨iff_of_false (by simp [sub, sign]) (lt_irrefl _), iff_of_false (by simp [sub, sign]) (lt_irrefl _)⟩

theorem sign_sub_nan_iff :
    sign (sub (round m) (round n)) = none ↔ size (round m) = ⊤ ∧ size (round n) = ⊤ := by
  rcases round_natCast m with ⟨double, is⟩ | is <;> rcases round_natCast n with ⟨double', is'⟩ | is' <;>
    rw [is, is']
  · rw [sign_sub_finite]
    exact iff_of_false nofun fun both => WithTop.coe_ne_top both.1
  · exact iff_of_false nofun fun both => WithTop.coe_ne_top both.1
  · exact iff_of_false nofun fun both => WithTop.coe_ne_top both.2
  · exact iff_of_true rfl ⟨rfl, rfl⟩

end Number
