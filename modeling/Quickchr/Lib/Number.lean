import Mathlib.Data.Int.Log
import Mathlib.Data.Rat.Floor
import Mathlib.Tactic.Linarith
import Mathlib.Algebra.Order.Field.Power
import Quickchr.Lib.Text

/-!
# Numbers as doubles

A number is the double nearest to what its text or an operation comes to, with ties to even. It is
kept as the rational number that it is, so zero has no sign here.
-/

namespace Rounding

def halfEven (x : ℚ) : ℤ :=
  let below := ⌊x⌋
  if x - below < 1 / 2 then below
  else if 1 / 2 < x - below then below + 1
  else if below % 2 = 0 then below else below + 1

def exponent (q : ℚ) : ℤ := max (Int.log 2 |q| - 52) (-1074)

/-- The nearest multiple of the last bit, however large. -/
def nearest (q : ℚ) : ℚ := halfEven (q / 2 ^ exponent q) * 2 ^ exponent q

theorem halfEven_intCast (m : ℤ) : halfEven m = m := by
  rw [halfEven, Int.floor_intCast, sub_self, if_pos (by norm_num)]

theorem floor_le_halfEven (x : ℚ) : ⌊x⌋ ≤ halfEven x := by
  unfold halfEven
  dsimp only
  split_ifs <;> omega

theorem halfEven_le (x : ℚ) : halfEven x ≤ ⌊x⌋ + 1 := by
  unfold halfEven
  dsimp only
  split_ifs <;> omega

theorem nearest_of_multiple {m e : ℤ} (small : |m| ≤ 2 ^ 53) (low : -1074 ≤ e) :
    nearest ((m : ℚ) * 2 ^ e) = m * 2 ^ e := by
  by_cases zero : m = 0
  · rw [zero, Int.cast_zero, zero_mul, nearest, zero_div, show (0 : ℚ) = ((0 : ℤ) : ℚ) from rfl,
      halfEven_intCast]
    exact zero_mul _
  have positive : 0 < |(m : ℚ) * 2 ^ e| :=
    abs_pos.mpr (mul_ne_zero (Int.cast_ne_zero.mpr zero) (by positivity))
  have size : |(m : ℚ) * 2 ^ e| = |(m : ℚ)| * 2 ^ e := by
    rw [abs_mul, abs_of_pos (show (0 : ℚ) < 2 ^ e by positivity)]
  -- the quotient by the unit is an integer
  obtain ⟨n, is⟩ : ∃ n : ℤ, (m : ℚ) * 2 ^ e / 2 ^ exponent ((m : ℚ) * 2 ^ e) = n := by
    generalize unit : exponent ((m : ℚ) * 2 ^ e) = k
    by_cases below : k ≤ e
    · refine ⟨m * 2 ^ (e - k).toNat, ?_⟩
      rw [mul_div_assoc, ← zpow_sub₀ (by norm_num), Int.cast_mul, Int.cast_pow, Int.cast_ofNat,
        ← zpow_natCast, Int.toNat_of_nonneg (by omega)]
    · have large : (2 : ℚ) ^ (e + 53) ≤ |(m : ℚ) * 2 ^ e| := by
        by_contra less
        have bound := (Int.lt_zpow_iff_log_lt (b := 2) (by decide) positive (x := e + 53)).mp
          (by push_cast; exact not_le.mp less)
        rw [exponent] at unit
        omega
      have full : |m| = 2 ^ 53 := by
        refine le_antisymm small ?_
        rw [size, zpow_add₀ (by norm_num), mul_comm] at large
        have bits := le_of_mul_le_mul_right large (by positivity)
        rw [← Int.cast_abs] at bits
        exact_mod_cast bits
      have next : k = e + 1 := by
        rw [← unit, exponent, size, ← Int.cast_abs, full]
        have power : (((2 : ℤ) ^ 53 : ℤ) : ℚ) * 2 ^ e = ((2 : ℕ) : ℚ) ^ (53 + e) := by
          rw [zpow_add₀ (by norm_num)]
          norm_num
        rw [power, Int.log_zpow (by decide)]
        omega
      refine ⟨m / 2, ?_⟩
      have even : m / 2 * 2 = m := by
        rcases abs_choice m with is | is <;> omega
      rw [next, zpow_add₀ (by norm_num), zpow_one]
      have two : (2 : ℚ) ^ e ≠ 0 := by positivity
      have cast : (((m / 2 : ℤ) : ℚ)) * 2 = m := by exact_mod_cast even
      rw [← cast]
      field_simp
  rw [nearest, is, halfEven_intCast, ← is, div_mul_cancel₀ _ (by positivity)]

theorem nearest_zero : nearest 0 = 0 := by
  have zero := @nearest_of_multiple 0 0 (by decide) (by decide)
  rwa [Int.cast_zero, zero_mul] at zero

theorem nearest_natCast {n : ℕ} (small : n ≤ 2 ^ 53) : nearest n = n := by
  have whole := @nearest_of_multiple n 0 (by rw [abs_of_nonneg (Int.natCast_nonneg n)]; exact_mod_cast small)
    (by decide)
  rwa [zpow_zero, mul_one, Int.cast_natCast] at whole

theorem abs_halfEven_le (q : ℚ) : |halfEven (q / 2 ^ exponent q)| ≤ 2 ^ 53 := by
  have below : |q| < (2 : ℚ) ^ (Int.log 2 |q| + 1) := Int.lt_zpow_succ_log_self (by decide) |q|
  have bits : (2 : ℚ) ^ (Int.log 2 |q| + 1) ≤ 2 ^ (53 + exponent q) :=
    zpow_le_zpow_right₀ (by norm_num) (by rw [exponent]; omega)
  have quotient : |q / 2 ^ exponent q| < 2 ^ 53 := by
    rw [abs_div, abs_of_pos (show (0 : ℚ) < 2 ^ exponent q by positivity), div_lt_iff₀ (by positivity)]
    refine lt_of_lt_of_le (lt_of_lt_of_le below bits) (le_of_eq ?_)
    rw [zpow_add₀ (by norm_num)]
    norm_num
  obtain ⟨low, high⟩ := abs_lt.mp quotient
  have floor_high : ⌊q / 2 ^ exponent q⌋ < 2 ^ 53 := Int.floor_lt.mpr (by exact_mod_cast high)
  have floor_low : -2 ^ 53 ≤ ⌊q / 2 ^ exponent q⌋ := Int.le_floor.mpr (by exact_mod_cast le_of_lt low)
  have up := floor_le_halfEven (q / 2 ^ exponent q)
  have down := halfEven_le (q / 2 ^ exponent q)
  exact abs_le.mpr ⟨le_trans floor_low up, by omega⟩

theorem nearest_nearest (q : ℚ) : nearest (nearest q) = nearest q :=
  nearest_of_multiple (abs_halfEven_le q) (le_max_right _ _)

theorem le_halfEven {n : ℤ} {x : ℚ} (h : n ≤ x) : n ≤ halfEven x :=
  le_trans (Int.le_floor.mpr h) (floor_le_halfEven x)

theorem halfEven_le_of_le {n : ℤ} {x : ℚ} (h : x ≤ n) : halfEven x ≤ n := by
  rcases eq_or_lt_of_le h with same | less
  · rw [same, halfEven_intCast]
  · have floor := Int.floor_lt.mpr less
    have up := halfEven_le x
    omega

theorem multiple_eq {a j e : ℤ} (h : e ≤ j) :
    (a : ℚ) * 2 ^ j = ((a * 2 ^ (j - e).toNat : ℤ) : ℚ) * 2 ^ e := by
  rw [Int.cast_mul, Int.cast_pow, Int.cast_ofNat, mul_assoc, ← zpow_natCast, Int.toNat_of_nonneg (by omega),
    ← zpow_add₀ (by norm_num), sub_add_cancel]

/-- Where the last bit is above the smallest, all 53 bits are used. -/
theorem pow_le_of_exponent {q : ℚ} (positive : 0 < q) (above : -1074 < exponent q) :
    (2 : ℚ) ^ (exponent q + 52) ≤ q := by
  have first := Int.zpow_log_le_self (b := 2) (by decide) (abs_pos.mpr (ne_of_gt positive))
  rw [abs_of_pos positive] at first
  have same : exponent q + 52 = Int.log 2 q := by
    rw [exponent, abs_of_pos positive] at above ⊢
    omega
  rw [same]
  exact_mod_cast first

theorem multiple_le_nearest {a j : ℤ} {q : ℚ} (bits : |a| ≤ 2 ^ 53) (low : -1074 ≤ j) (positive : 0 < q)
    (h : a * 2 ^ j ≤ q) : a * 2 ^ j ≤ nearest q := by
  by_cases unit : exponent q ≤ j
  · rw [multiple_eq unit] at h ⊢
    rw [nearest]
    refine mul_le_mul_of_nonneg_right ?_ (by positivity)
    exact_mod_cast le_halfEven ((le_div_iff₀ (by positivity)).mpr h)
  · have full := pow_le_of_exponent positive (by omega)
    have mantissa : (2 : ℤ) ^ 52 ≤ halfEven (q / 2 ^ exponent q) := by
      refine le_halfEven ((le_div_iff₀ (by positivity)).mpr (le_trans (le_of_eq ?_) full))
      rw [zpow_add₀ (by norm_num)]
      push_cast
      ring
    calc (a : ℚ) * 2 ^ j ≤ 2 ^ 53 * 2 ^ j := by
            refine mul_le_mul_of_nonneg_right ?_ (by positivity)
            exact_mod_cast le_trans (le_abs_self a) bits
      _ = 2 ^ 52 * 2 ^ (j + 1) := by
            rw [zpow_add₀ (by norm_num)]
            ring
      _ ≤ 2 ^ 52 * 2 ^ exponent q :=
            mul_le_mul_of_nonneg_left (zpow_le_zpow_right₀ (by norm_num) (by omega)) (by norm_num)
      _ ≤ nearest q := by
            rw [nearest]
            exact mul_le_mul_of_nonneg_right (by exact_mod_cast mantissa) (by positivity)

theorem nearest_le_multiple {a j : ℤ} {q : ℚ} (bits : |a| ≤ 2 ^ 53) (low : -1074 ≤ j) (positive : 0 < q)
    (h : q ≤ a * 2 ^ j) : nearest q ≤ a * 2 ^ j := by
  by_cases unit : exponent q ≤ j
  · rw [multiple_eq unit] at h ⊢
    rw [nearest]
    refine mul_le_mul_of_nonneg_right ?_ (by positivity)
    exact_mod_cast halfEven_le_of_le ((div_le_iff₀ (by positivity)).mpr h)
  · have full := pow_le_of_exponent positive (by omega)
    have reached : (a : ℚ) * 2 ^ j ≤ q := by
      calc (a : ℚ) * 2 ^ j ≤ 2 ^ 53 * 2 ^ j := by
              refine mul_le_mul_of_nonneg_right ?_ (by positivity)
              exact_mod_cast le_trans (le_abs_self a) bits
        _ = 2 ^ (j + 1 + 52) := by
              rw [zpow_add₀ (by norm_num), zpow_add₀ (by norm_num)]
              norm_num
              ring
        _ ≤ 2 ^ (exponent q + 52) := zpow_le_zpow_right₀ (by norm_num) (by omega)
        _ ≤ q := full
    rw [le_antisymm h reached, nearest_of_multiple bits low]

theorem halfEven_lt_iff {m : ℤ} (even : m % 2 = 0) (x : ℚ) : halfEven x < m ↔ x < m - 1 / 2 := by
  have below := Int.floor_le x
  have above := Int.lt_floor_add_one x
  unfold halfEven
  dsimp only
  generalize ⌊x⌋ = f at below above ⊢
  split_ifs with less more whole
  · constructor
    · intro lt
      have next : (f : ℚ) + 1 ≤ m := by exact_mod_cast lt
      linarith
    · intro lt
      exact Int.cast_lt.mp (by linarith : (f : ℚ) < m)
  · constructor
    · intro lt
      have next : (f : ℚ) + 1 + 1 ≤ m := by exact_mod_cast lt
      linarith
    · intro lt
      exact Int.cast_lt.mp (by push_cast; linarith : ((f + 1 : ℤ) : ℚ) < m)
  · -- halfway, and both neighbours of an even number are odd
    have half : x = f + 1 / 2 := by linarith
    constructor
    · intro lt
      have two : (f : ℚ) + 2 ≤ m := by exact_mod_cast (by omega : f + 2 ≤ m)
      linarith
    · intro lt
      exact Int.cast_lt.mp (by linarith : (f : ℚ) < m)
  · have half : x = f + 1 / 2 := by linarith
    constructor
    · intro lt
      have next : (f : ℚ) + 1 < m := by exact_mod_cast lt
      linarith
    · intro lt
      exact Int.cast_lt.mp (by push_cast; linarith : ((f + 1 : ℤ) : ℚ) < m)

/-- Rounding reaches an even number of 53 bits from half a unit below it on. -/
theorem nearest_lt_iff {m j : ℤ} {q : ℚ} (bits : 2 ^ 52 < m ∧ m ≤ 2 ^ 53) (even : m % 2 = 0) (low : -1074 ≤ j)
    (positive : 0 < q) : nearest q < m * 2 ^ j ↔ q < (m - 1 / 2) * 2 ^ j := by
  have unit : (0 : ℚ) < 2 ^ j := by positivity
  have least : (2 : ℚ) ^ 52 + 1 ≤ m := by exact_mod_cast bits.1
  rcases lt_trichotomy (exponent q) j with small | same | large
  · have less : q < 2 ^ (52 : ℤ) * 2 ^ j := by
      have log := Int.lt_zpow_succ_log_self (b := 2) (by decide) |q|
      rw [abs_of_pos positive] at log
      rw [← zpow_add₀ (by norm_num)]
      refine lt_of_lt_of_le (by exact_mod_cast log) (zpow_le_zpow_right₀ (by norm_num) ?_)
      rw [exponent, abs_of_pos positive] at small
      omega
    refine iff_of_true ?_ (lt_of_lt_of_le less (mul_le_mul_of_nonneg_right ?_ (le_of_lt unit)))
    · have most := @nearest_le_multiple (2 ^ 52) j q (by norm_num) low positive (by push_cast; exact_mod_cast le_of_lt less)
      push_cast at most
      exact lt_of_le_of_lt most (mul_lt_mul_of_pos_right (by linarith) unit)
    · have : (2 : ℚ) ^ (52 : ℤ) = 2 ^ 52 := by norm_num
      rw [this]
      linarith
  · rw [nearest, same, mul_lt_mul_iff_of_pos_right unit, ← div_lt_iff₀ unit, ← halfEven_lt_iff even]
    exact_mod_cast Iff.rfl
  · have full := pow_le_of_exponent positive (by omega)
    have reached : (m : ℚ) * 2 ^ j ≤ q := by
      calc (m : ℚ) * 2 ^ j ≤ 2 ^ 53 * 2 ^ j :=
              mul_le_mul_of_nonneg_right (by exact_mod_cast bits.2) (le_of_lt unit)
        _ = 2 ^ (j + 53) := by
              rw [zpow_add₀ (by norm_num)]
              norm_num
              ring
        _ ≤ 2 ^ (exponent q + 52) := zpow_le_zpow_right₀ (by norm_num) (by omega)
        _ ≤ q := full
    have range : |m| ≤ 2 ^ 53 := abs_le.mpr ⟨by omega, bits.2⟩
    refine iff_of_false (not_lt.mpr (multiple_le_nearest range low positive reached)) (not_lt.mpr ?_)
    refine le_trans (mul_le_mul_of_nonneg_right ?_ (le_of_lt unit)) reached
    linarith

theorem nearest_nonneg {q : ℚ} (nonneg : 0 ≤ q) : 0 ≤ nearest q := by
  refine mul_nonneg ?_ (by positivity)
  have least : (0 : ℤ) ≤ halfEven (q / 2 ^ exponent q) :=
    le_halfEven (by rw [Int.cast_zero]; exact div_nonneg nonneg (by positivity))
  exact_mod_cast least

/-- A double times a power of two is a double, or too large to be one. -/
theorem nearest_mul_pow (q : ℚ) (s : ℕ) : nearest (nearest q * 2 ^ s) = nearest q * 2 ^ s := by
  have scaled : nearest q * 2 ^ s = halfEven (q / 2 ^ exponent q) * 2 ^ (exponent q + s) := by
    rw [nearest, mul_assoc, zpow_add₀ (by norm_num), zpow_natCast]
  rw [scaled]
  refine nearest_of_multiple (abs_halfEven_le q) ?_
  have low : -1074 ≤ exponent q := le_max_right _ _
  omega

theorem nearest_mul_pow_lt_iff {q : ℚ} (nonneg : 0 ≤ q) {s : ℕ} (small : s ≤ 1000) :
    nearest q * 2 ^ s < 10 ^ 21 ↔ q * 2 ^ s < 10 ^ 21 - 2 ^ 16 := by
  rcases eq_or_lt_of_le nonneg with rfl | positive
  · rw [nearest_zero, zero_mul]
    norm_num
  have unit : (0 : ℚ) < 2 ^ s := by positivity
  have scale : ∀ c : ℚ, c * 2 ^ (17 - (s : ℤ)) * 2 ^ s = c * 2 ^ 17 := fun c => by
    rw [mul_assoc, ← zpow_natCast, ← zpow_add₀ (by norm_num), sub_add_cancel]
    norm_num
  have sides : ∀ a b : ℚ, a < b ↔ a * 2 ^ s < b * 2 ^ s := fun a b => (mul_lt_mul_iff_of_pos_right unit).symm
  have rounds := @nearest_lt_iff (5 ^ 21 * 16) (17 - s) q (by norm_num) (by norm_num) (by omega) positive
  rw [sides, scale, sides q, scale] at rounds
  have whole : ((5 ^ 21 * 16 : ℤ) : ℚ) * 2 ^ 17 = 10 ^ 21 := by norm_num
  have half : (((5 ^ 21 * 16 : ℤ) : ℚ) - 1 / 2) * 2 ^ 17 = 10 ^ 21 - 2 ^ 16 := by norm_num
  rwa [whole, half] at rounds

end Rounding

open Rounding

inductive Number
  | nan
  | infinity (negative : Bool)
  | finite (value : ℚ) (double : nearest value = value ∧ |value| < 2 ^ 1024)
  deriving DecidableEq

namespace Number

def round (q : ℚ) : Number :=
  if bounded : |nearest q| < 2 ^ 1024 then .finite (nearest q) ⟨nearest_nearest q, bounded⟩
  else .infinity (q < 0)

/-- `Number.isInteger`, and the integer. -/
def integer : Number → Option ℤ
  | .finite value _ => if value.den = 1 then some value.num else none
  | _ => none

def mul : Number → Number → Number
  | .finite a _, .finite b _ => round (a * b)
  | .finite a _, .infinity negative => if a = 0 then .nan else .infinity (negative ^^ (a < 0))
  | .infinity negative, .finite b _ => if b = 0 then .nan else .infinity (negative ^^ (b < 0))
  | .infinity negative, .infinity negative' => .infinity (negative ^^ negative')
  | _, _ => .nan

theorem floor_double {v : ℚ} (double : nearest v = v ∧ |v| < 2 ^ 1024) :
    nearest (⌊v⌋ : ℤ) = (⌊v⌋ : ℤ) ∧ |((⌊v⌋ : ℤ) : ℚ)| < 2 ^ 1024 := by
  have bits := abs_halfEven_le v
  have same := double.1
  rw [nearest] at same
  by_cases whole : 0 ≤ exponent v
  · -- a double this large is an integer
    have is : v = ((halfEven (v / 2 ^ exponent v) * 2 ^ (exponent v).toNat : ℤ) : ℚ) := by
      rw [Int.cast_mul, Int.cast_pow, Int.cast_ofNat, ← zpow_natCast, Int.toNat_of_nonneg whole]
      exact same.symm
    have kept : ((⌊v⌋ : ℤ) : ℚ) = v := by
      rw [is, Int.floor_intCast]
    rw [kept]
    exact double
  · have small : |v| ≤ 2 ^ 53 := by
      rw [← same, abs_mul, ← Int.cast_abs, abs_of_pos (show (0 : ℚ) < 2 ^ exponent v by positivity)]
      have unit : (2 : ℚ) ^ exponent v ≤ 1 := zpow_le_one_of_nonpos₀ (by norm_num) (by omega)
      have mantissa : ((|halfEven (v / 2 ^ exponent v)| : ℤ) : ℚ) ≤ 2 ^ 53 := by exact_mod_cast bits
      calc _ ≤ (2 : ℚ) ^ 53 * 1 :=
            mul_le_mul mantissa unit (by positivity) (by norm_num)
        _ = 2 ^ 53 := mul_one _
    obtain ⟨low, high⟩ := abs_le.mp small
    have floor_high : ⌊v⌋ ≤ 2 ^ 53 := by
      have := Int.floor_le v
      exact_mod_cast le_trans this high
    have floor_low : -2 ^ 53 ≤ ⌊v⌋ := Int.le_floor.mpr (by exact_mod_cast low)
    have range : |⌊v⌋| ≤ 2 ^ 53 := abs_le.mpr ⟨floor_low, floor_high⟩
    have kept := @nearest_of_multiple ⌊v⌋ 0 range (by decide)
    rw [zpow_zero, mul_one] at kept
    refine ⟨kept, ?_⟩
    rw [← Int.cast_abs]
    refine lt_of_le_of_lt (b := (2 : ℚ) ^ 53) (by exact_mod_cast range) ?_
    exact pow_lt_pow_right₀ (by norm_num) (by norm_num)

/-- `Math.floor`. -/
def floor : Number → Number
  | .finite value double => .finite ⌊value⌋ (floor_double double)
  | n => n

def digits (l : List Char) : Option ℕ :=
  if l ≠ [] ∧ l.all Char.isDigit then some (Nat.ofDigitChars 10 l 0) else none

def exponentPart : List Char → Option ℤ
  | [] => some 0
  | c :: rest =>
      if c = 'e' ∨ c = 'E' then
        match rest with
        | '+' :: ds => (digits ds).map Int.ofNat
        | '-' :: ds => (digits ds).map fun n => -Int.ofNat n
        | ds => (digits ds).map Int.ofNat
      else none

def unsigned (l : List Char) : Option ℚ :=
  let whole := l.takeWhile Char.isDigit
  let (fraction, rest) :=
    match l.dropWhile Char.isDigit with
    | '.' :: rest => (rest.takeWhile Char.isDigit, rest.dropWhile Char.isDigit)
    | rest => ([], rest)
  if whole = [] ∧ fraction = [] then none
  else
    (exponentPart rest).map fun e =>
      (Nat.ofDigitChars 10 (whole ++ fraction) 0 : ℚ) * 10 ^ (e - (fraction.length : ℤ))

def magnitude (negative : Bool) (l : List Char) : Number :=
  if l = "Infinity".toList then .infinity negative
  else
    match unsigned l with
    | some q => round (if negative then -q else q)
    | none => .nan

def digitValue (c : Char) : Option ℕ :=
  if c.isDigit then some (c.toNat - 48)
  else if 'a' ≤ c ∧ c ≤ 'f' then some (c.toNat - 87)
  else if 'A' ≤ c ∧ c ≤ 'F' then some (c.toNat - 55)
  else none

/-- What follows `0x`, `0o` or `0b`. -/
def ofRadix (base : ℕ) (l : List Char) : Number :=
  if l = [] then .nan
  else
    match l.foldlM (fun n c => ((digitValue c).filter (· < base)).map (n * base + ·)) 0 with
    | some n => round n
    | none => .nan

/-- `Number(text)`. -/
def ofString (text : String) : Number :=
  match (Text.trim text).toList with
  | [] => round 0
  | '0' :: 'x' :: l => ofRadix 16 l
  | '0' :: 'X' :: l => ofRadix 16 l
  | '0' :: 'o' :: l => ofRadix 8 l
  | '0' :: 'O' :: l => ofRadix 8 l
  | '0' :: 'b' :: l => ofRadix 2 l
  | '0' :: 'B' :: l => ofRadix 2 l
  | '+' :: l => magnitude false l
  | '-' :: l => magnitude true l
  | l => magnitude false l

/-- The decimal number of the fewest digits that is read as `v`; `j` digits are left open. -/
def shortestFrom (v : ℕ) : ℕ → ℕ
  | 0 => v
  | j + 1 =>
      let unit := 10 ^ (j + 1)
      let below := v / unit * unit
      let above := below + unit
      if nearest below = v ∧ (nearest above = v → v - below < above - v ∨
          v - below = above - v ∧ v / unit % 2 = 0) then below
      else if nearest above = v then above
      else shortestFrom v j

def shortest (v : ℕ) : ℕ := shortestFrom v (Nat.log 10 v)

/-- `String(v)`. -/
def textOfNat (v : ℕ) : String :=
  let d := shortest v
  if d < 10 ^ 21 then toString d
  else
    let ds := Nat.toDigits 10 d
    let exponent := toString (ds.length - 1)
    match ds.rdropWhile (· = '0') with
    | [c] => s!"{c}e+{exponent}"
    | c :: fraction => s!"{c}.{String.ofList fraction}e+{exponent}"
    | [] => ""

/-- `String(n)` of an integer, or of what is not finite. -/
def text : Number → String
  | .nan => "NaN"
  | .infinity negative => if negative then "-Infinity" else "Infinity"
  | .finite value _ =>
      if value.num < 0 then s!"-{textOfNat value.num.natAbs}" else textOfNat value.num.natAbs

variable {n : ℕ} {l : List Char}

theorem round_of_double {q : ℚ} (double : nearest q = q ∧ |q| < 2 ^ 1024) : round q = .finite q double := by
  have bounded : |nearest q| < 2 ^ 1024 := by rw [double.1]; exact double.2
  rw [round, dif_pos bounded]
  simp only [double.1]

theorem natCast_double (small : n ≤ 2 ^ 53) : nearest (n : ℚ) = n ∧ |(n : ℚ)| < 2 ^ 1024 := by
  refine ⟨nearest_natCast small, ?_⟩
  rw [abs_of_nonneg (Nat.cast_nonneg n)]
  refine lt_of_le_of_lt (b := (2 : ℚ) ^ 53) (by exact_mod_cast small) ?_
  exact pow_lt_pow_right₀ (by norm_num) (by norm_num)

theorem integer_eq_some {q : ℚ} {m : ℤ} (h : integer (round q) = some m) : nearest q = m := by
  unfold round at h
  split at h
  · obtain ⟨whole, is⟩ := Option.ite_none_right_eq_some.mp h
    rw [← Option.some.inj is, Rat.coe_int_num_of_den_eq_one whole]
  · cases h

theorem integer_round (small : n ≤ 2 ^ 53) : integer (round n) = some (n : ℤ) := by
  rw [round_of_double (natCast_double small), integer, if_pos (Rat.den_natCast n), Rat.num_natCast]

theorem le_integer_round {m : ℤ} (large : 2 ^ 53 ≤ n) (h : integer (round n) = some m) : 2 ^ 53 ≤ m := by
  have least := @multiple_le_nearest (2 ^ 53) 0 n (by norm_num) (by decide)
    (by exact_mod_cast lt_of_lt_of_le (by norm_num) large) (by rw [zpow_zero, mul_one]; exact_mod_cast large)
  rw [integer_eq_some h, zpow_zero, mul_one] at least
  exact_mod_cast least

theorem isSpace_of_isDigit {c : Char} (h : c.isDigit = true) : Text.isSpace c = false := by
  have range : 48 ≤ c.val.toNat ∧ c.val.toNat ≤ 57 := by
    simp only [Char.isDigit, Bool.and_eq_true, decide_eq_true_eq] at h
    exact ⟨h.1, h.2⟩
  have apart : ∀ d : Char, d.val.toNat < 48 ∨ 57 < d.val.toNat → c ≠ d := by
    rintro d outside rfl
    omega
  have low : ¬ '\u2000' ≤ c := fun le => by
    have : 8192 ≤ c.val.toNat := le
    omega
  simp only [Text.isSpace, List.mem_cons, List.not_mem_nil, or_false, low, false_and, or_false,
    decide_eq_false_iff_not, not_or]
  exact ⟨apart _ (by decide), apart _ (by decide), apart _ (by decide), apart _ (by decide),
    apart _ (by decide), apart _ (by decide), apart _ (by decide), apart _ (by decide),
    apart _ (by decide), apart _ (by decide), apart _ (by decide), apart _ (by decide),
    apart _ (by decide), apart _ (by decide)⟩

def pointed (fraction : List Char) : List Char := if fraction = [] then [] else '.' :: fraction

theorem unsigned_eq {whole fraction rest : List Char} (nonempty : whole ≠ []) (h : whole.all Char.isDigit = true)
    (h' : fraction.all Char.isDigit = true) (stop : ∀ c, rest.head? = some c → c.isDigit = false ∧ c ≠ '.') :
    unsigned (whole ++ pointed fraction ++ rest) = (exponentPart rest).map fun e =>
      (Nat.ofDigitChars 10 (whole ++ fraction) 0 : ℚ) * 10 ^ (e - (fraction.length : ℤ)) := by
  have each := List.all_eq_true.mp h
  have each' := List.all_eq_true.mp h'
  have ends : rest.takeWhile Char.isDigit = [] ∧ rest.dropWhile Char.isDigit = rest := by
    cases rest with
    | nil => exact ⟨rfl, rfl⟩
    | cons c rest =>
        have other := Bool.eq_false_iff.mp (stop c rfl).1
        exact ⟨List.takeWhile_cons_of_neg other, List.dropWhile_cons_of_neg other⟩
  have point : (pointed fraction ++ rest).takeWhile Char.isDigit = [] ∧
      (pointed fraction ++ rest).dropWhile Char.isDigit = pointed fraction ++ rest := by
    rw [pointed]
    split
    · exact ends
    · exact ⟨rfl, rfl⟩
  have taken : (whole ++ pointed fraction ++ rest).takeWhile Char.isDigit = whole := by
    rw [List.append_assoc, List.takeWhile_append_of_pos each, point.1, List.append_nil]
  have dropped : (whole ++ pointed fraction ++ rest).dropWhile Char.isDigit = pointed fraction ++ rest := by
    rw [List.append_assoc, List.dropWhile_append_of_pos each, point.2]
  unfold unsigned
  rw [taken, dropped, pointed]
  by_cases none : fraction = []
  · rw [if_pos none, none, List.nil_append]
    split
    rename_i fraction' rest' is
    split at is
    · exact absurd rfl (stop '.' rfl).2
    · obtain ⟨rfl, rfl⟩ := Prod.mk.inj is
      rw [if_neg fun both => nonempty both.1]
  · rw [if_neg none, List.cons_append]
    split
    rename_i fraction' rest' is
    split at is
    · rename_i behind same
      rw [← (List.cons.inj same).2, List.takeWhile_append_of_pos each', List.dropWhile_append_of_pos each', ends.1,
        ends.2, List.append_nil] at is
      obtain ⟨rfl, rfl⟩ := Prod.mk.inj is
      rw [if_neg fun both => nonempty both.1]
    · rename_i other
      exact absurd rfl (other _)

theorem unsigned_digits (nonempty : l ≠ []) (h : l.all Char.isDigit = true) :
    unsigned l = some (Nat.ofDigitChars 10 l 0 : ℚ) := by
  have reads := @unsigned_eq l [] [] nonempty h rfl fun c none => by cases none
  rw [pointed, if_pos rfl, List.append_nil, List.append_nil, exponentPart, Option.map_some, List.length_nil] at reads
  rw [reads]
  simp

theorem not_isDigit_of_mem {d : Char} (h : d ∈ ['x', 'X', 'o', 'O', 'b', 'B']) : ¬ d.isDigit = true := by
  have letters : (['x', 'X', 'o', 'O', 'b', 'B'].all fun d => !d.isDigit) = true := by decide
  have other := List.all_eq_true.mp letters d h
  rwa [Bool.not_eq_true', ← Bool.not_eq_true] at other

theorem ofString_unsigned {c : Char} {rest : List Char} (digit : c.isDigit = true)
    (second : ∀ d, rest.head? = some d → d ∉ ['x', 'X', 'o', 'O', 'b', 'B'])
    (last : ∀ d, (c :: rest).getLast? = some d → Text.isSpace d = false) {q : ℚ}
    (reads : unsigned (c :: rest) = some q) : ofString (String.ofList (c :: rest)) = round q := by
  have trimmed : Text.trim (String.ofList (c :: rest)) = String.ofList (c :: rest) := by
    refine Text.trim_eq_self (fun d is => ?_) fun d is => ?_
    · rw [String.toList_ofList] at is
      obtain rfl := Option.some_inj.mp is
      exact isSpace_of_isDigit digit
    · rw [String.toList_ofList] at is
      exact last d is
  unfold ofString
  rw [trimmed, String.toList_ofList]
  split <;> rename_i same <;> try obtain ⟨rfl, rfl⟩ := List.cons.inj same
  · cases same
  · exact absurd (by decide) (second 'x' rfl)
  · exact absurd (by decide) (second 'X' rfl)
  · exact absurd (by decide) (second 'o' rfl)
  · exact absurd (by decide) (second 'O' rfl)
  · exact absurd (by decide) (second 'b' rfl)
  · exact absurd (by decide) (second 'B' rfl)
  · cases digit
  · cases digit
  · unfold magnitude
    rw [if_neg, reads]
    · rfl
    · rintro is
      obtain ⟨rfl, -⟩ := List.cons.inj is
      cases digit

theorem ofString_digits (nonempty : l ≠ []) (h : l.all Char.isDigit = true) :
    ofString (String.ofList l) = round (Nat.ofDigitChars 10 l 0 : ℕ) := by
  have each := List.all_eq_true.mp h
  obtain ⟨c, rest, rfl⟩ := List.exists_cons_of_ne_nil nonempty
  refine ofString_unsigned (each c List.mem_cons_self) (fun d is member => ?_)
    (fun d is => isSpace_of_isDigit (each d (List.mem_of_getLast? is))) (unsigned_digits nonempty h)
  exact absurd (each d (List.mem_cons_of_mem _ (List.mem_of_mem_head? is))) (not_isDigit_of_mem member)

/-- Times a power of two, only what is too large for a double is rounded. -/
theorem mul_round_pow {q : ℚ} (nonneg : 0 ≤ q) {s : ℕ} (small : s ≤ 53) :
    mul (round q) (round ((2 ^ s : ℕ) : ℚ)) = round (nearest q * 2 ^ s) := by
  have factor := round_of_double (@natCast_double (2 ^ s) (Nat.pow_le_pow_right (by decide) small))
  rw [factor]
  unfold round
  split
  · rw [mul, round, Nat.cast_pow, Nat.cast_ofNat]
  · rename_i large
    have least : (2 : ℚ) ^ 1024 ≤ nearest q := by
      rw [abs_of_nonneg (nearest_nonneg nonneg)] at large
      exact not_lt.mp large
    have one : (1 : ℚ) ≤ 2 ^ s := one_le_pow₀ (by norm_num)
    have more : (2 : ℚ) ^ 1024 ≤ nearest q * 2 ^ s := le_trans least (le_mul_of_one_le_right (nearest_nonneg nonneg) one)
    have positive : (0 : ℚ) < 2 ^ s := by positivity
    rw [mul, if_neg (by rw [Nat.cast_pow, Nat.cast_ofNat]; exact ne_of_gt positive), dif_neg]
    · congr 1
      have zero : (0 : ℚ) ≤ nearest q * 2 ^ s := mul_nonneg (nearest_nonneg nonneg) (le_of_lt positive)
      rw [decide_eq_false (not_lt.mpr nonneg), decide_eq_false (not_lt.mpr zero), Nat.cast_pow, Nat.cast_ofNat,
        decide_eq_false (not_lt.mpr (le_of_lt positive))]
      rfl
    · rw [nearest_mul_pow, abs_of_nonneg (le_trans (by positivity) more)]
      exact not_lt.mpr more

theorem nearest_shortestFrom {v : ℕ} (double : nearest (v : ℚ) = v) (j : ℕ) : nearest (shortestFrom v j) = v := by
  induction j with
  | zero => exact double
  | succ j ih =>
      unfold shortestFrom
      dsimp only
      split_ifs with below above
      · exact below.1
      · exact above
      · exact ih

theorem nearest_shortest {v : ℕ} (double : nearest (v : ℚ) = v) : nearest (shortest v) = v :=
  nearest_shortestFrom double _

theorem ten_pow_double (a : ℕ) (small : a * 5 ^ 21 ≤ 2 ^ 53) : nearest ((a * 10 ^ 21 : ℕ) : ℚ) = (a * 10 ^ 21 : ℕ) := by
  have multiple : (((a * 10 ^ 21 : ℕ)) : ℚ) = ((a * 5 ^ 21 : ℕ) : ℤ) * 2 ^ (21 : ℤ) := by
    push_cast
    rw [mul_assoc]
    norm_num
  rw [multiple]
  exact nearest_of_multiple (by rw [abs_of_nonneg (Int.natCast_nonneg _)]; exact_mod_cast small) (by decide)

theorem shortest_ten_pow : shortest (10 ^ 21) = 10 ^ 21 := by
  have one := ten_pow_double 1 (by norm_num)
  have two := ten_pow_double 2 (by norm_num)
  rw [one_mul] at one
  have log : Nat.log 10 (10 ^ 21) = 20 + 1 := Nat.log_pow (by decide) 21
  rw [shortest, log, shortestFrom, Nat.div_self (by norm_num), one_mul, if_pos]
  refine ⟨one, fun above => ?_⟩
  have twice : 10 ^ 21 + 10 ^ 21 = 2 * 10 ^ 21 := (Nat.two_mul _).symm
  rw [twice, two] at above
  norm_num at above

theorem shortest_lt_iff {v : ℕ} (double : nearest (v : ℚ) = v) : shortest v < 10 ^ 21 ↔ v < 10 ^ 21 := by
  have back := nearest_shortest double
  have power : ((5 ^ 21 : ℤ) : ℚ) * 2 ^ (21 : ℤ) = 10 ^ 21 := by norm_num
  have bits : |(5 ^ 21 : ℤ)| ≤ 2 ^ 53 := by norm_num
  constructor
  · intro short
    by_contra large
    rcases Nat.eq_or_lt_of_le (not_lt.mp large) with same | above
    · rw [← same, shortest_ten_pow] at short
      exact lt_irrefl _ short
    · by_cases zero : shortest v = 0
      · rw [zero, Nat.cast_zero, nearest_zero] at back
        rw [Nat.cast_eq_zero.mp back.symm] at above
        exact absurd above (by norm_num)
      · have most := @nearest_le_multiple (5 ^ 21) 21 (shortest v) bits (by decide)
          (by exact_mod_cast Nat.pos_of_ne_zero zero) (by rw [power]; exact_mod_cast le_of_lt short)
        rw [back, power] at most
        exact absurd above (not_lt.mpr (by exact_mod_cast most))
  · intro small
    by_contra large
    have long : (10 : ℚ) ^ 21 ≤ shortest v := by exact_mod_cast not_lt.mp large
    have least := @multiple_le_nearest (5 ^ 21) 21 (shortest v) bits (by decide)
      (lt_of_lt_of_le (by norm_num) long) (by rw [power]; exact long)
    rw [back, power] at least
    exact absurd small (not_lt.mpr (by exact_mod_cast least))

theorem digits_toDigits (d : ℕ) : (Nat.toDigits 10 d).all Char.isDigit = true :=
  List.all_eq_true.mpr fun _ member => Nat.isDigit_of_mem_toDigits (by decide) (by decide) member

theorem trailing_zeros (d : ℕ) : ∃ k,
    Nat.toDigits 10 d = (Nat.toDigits 10 d).rdropWhile (· = '0') ++ List.replicate k '0' ∧
      d = Nat.ofDigitChars 10 ((Nat.toDigits 10 d).rdropWhile (· = '0')) 0 * 10 ^ k := by
  have parts := @List.rdropWhile_append_rtakeWhile _ (fun c : Char => decide (c = '0')) (Nat.toDigits 10 d)
  have zeros : (Nat.toDigits 10 d).rtakeWhile (· = '0') =
      List.replicate ((Nat.toDigits 10 d).rtakeWhile (· = '0')).length '0' :=
    List.eq_replicate_iff.mpr ⟨rfl, fun c member => by simpa using List.mem_rtakeWhile_imp member⟩
  rw [zeros] at parts
  refine ⟨_, parts.symm, ?_⟩
  have value := congrArg (fun l => Nat.ofDigitChars 10 l 0) parts
  rw [Nat.ofDigitChars_append, Nat.ofDigitChars_replicate_zero, Nat.ofDigitChars_ten_toDigits, Nat.mul_comm] at value
  exact value.symm

theorem toList_textOfNat {v : ℕ} (short : shortest v < 10 ^ 21) :
    (textOfNat v).toList = Nat.toDigits 10 (shortest v) := by
  unfold textOfNat
  dsimp only
  rw [if_pos short]
  exact Nat.toList_repr

theorem toList_textOfNat_long {v : ℕ} (long : ¬ shortest v < 10 ^ 21) : ∃ c fraction k,
    c.isDigit = true ∧ fraction.all Char.isDigit = true ∧
      (textOfNat v).toList = c :: (pointed fraction ++ 'e' :: '+' :: Nat.toDigits 10 (fraction.length + k)) ∧
      shortest v = Nat.ofDigitChars 10 (c :: fraction) 0 * 10 ^ k := by
  unfold textOfNat
  dsimp only
  rw [if_neg long]
  obtain ⟨k, whole, value⟩ := trailing_zeros (shortest v)
  have length := congrArg List.length whole
  have each := List.all_eq_true.mp (digits_toDigits (shortest v))
  generalize (Nat.toDigits 10 (shortest v)).rdropWhile (· = '0') = mantissa at whole value length ⊢
  cases mantissa with
  | nil =>
      rw [Nat.ofDigitChars_nil, Nat.zero_mul] at value
      exact absurd (value ▸ long) (by norm_num)
  | cons c fraction =>
      rw [whole] at each
      have first := each c (List.mem_append_left _ List.mem_cons_self)
      have fractions : fraction.all Char.isDigit = true := List.all_eq_true.mpr fun d member =>
        each d (List.mem_append_left _ (List.mem_cons_of_mem _ member))
      have scale : (Nat.toDigits 10 (shortest v)).length - 1 = fraction.length + k := by
        rw [length, List.length_append, List.length_cons, List.length_replicate]
        omega
      refine ⟨c, fraction, k, first, fractions, ?_, value⟩
      rw [scale]
      generalize fraction.length + k = e
      have repr : (toString e).toList = Nat.toDigits 10 e := Nat.toList_repr
      have single : (toString c).toList = [c] := String.toList_singleton c
      cases fraction with
      | nil =>
          dsimp only
          rw [String.toList_append, String.toList_append]
          show (toString c).toList ++ "e+".toList ++ (toString e).toList = _
          rw [single, repr]
          rfl
      | cons f fraction =>
          dsimp only
          rw [String.toList_append, String.toList_append, String.toList_append, String.toList_append]
          show (toString c).toList ++ ".".toList ++ (String.ofList (f :: fraction)).toList ++ "e+".toList ++
            (toString e).toList = _
          rw [single, repr, @String.toList_ofList (f :: fraction), List.append_assoc]
          rfl

theorem mem_textOfNat {v : ℕ} {c : Char} (h : c ∈ (textOfNat v).toList) :
    c.isDigit = true ∨ c = '.' ∨ c = 'e' ∨ c = '+' := by
  by_cases short : shortest v < 10 ^ 21
  · rw [toList_textOfNat short] at h
    exact .inl (List.all_eq_true.mp (digits_toDigits _) c h)
  · obtain ⟨first, fraction, k, digit, digits', text, -⟩ := toList_textOfNat_long short
    rw [text, List.mem_cons, List.mem_append, List.mem_cons, List.mem_cons] at h
    rcases h with rfl | inside | rfl | rfl | behind
    · exact .inl digit
    · rw [pointed] at inside
      split at inside
      · cases inside
      · rcases List.mem_cons.mp inside with rfl | inside
        · exact .inr (.inl rfl)
        · exact .inl (List.all_eq_true.mp digits' c inside)
    · exact .inr (.inr (.inl rfl))
    · exact .inr (.inr (.inr rfl))
    · exact .inl (List.all_eq_true.mp (digits_toDigits _) c behind)

theorem ofString_shortest (v : ℕ) : ofString (textOfNat v) = round (shortest v) := by
  rw [← @String.ofList_toList (textOfNat v)]
  by_cases short : shortest v < 10 ^ 21
  · rw [toList_textOfNat short, ofString_digits Nat.toDigits_ne_nil (digits_toDigits _), Nat.ofDigitChars_ten_toDigits]
  · obtain ⟨c, fraction, k, digit, digits', text, value⟩ := toList_textOfNat_long short
    generalize scale : fraction.length + k = e at text
    have exponents := List.all_eq_true.mp (digits_toDigits e)
    have plus : exponentPart ('e' :: '+' :: Nat.toDigits 10 e) = some (e : ℤ) := by
      rw [exponentPart, if_pos (.inl rfl), digits, if_pos ⟨Nat.toDigits_ne_nil, digits_toDigits e⟩,
        Nat.ofDigitChars_ten_toDigits]
      rfl
    rw [text]
    refine ofString_unsigned digit ?_ ?_ ?_
    · intro d is
      rw [pointed] at is
      split at is <;> obtain rfl := Option.some_inj.mp is <;> decide
    · intro d is
      have tail : c :: (pointed fraction ++ 'e' :: '+' :: Nat.toDigits 10 e) =
          (c :: (pointed fraction ++ ['e', '+'])) ++ Nat.toDigits 10 e := by
        rw [List.cons_append, List.append_assoc]
        rfl
      rw [tail, List.getLast?_append_of_ne_nil _ Nat.toDigits_ne_nil] at is
      exact isSpace_of_isDigit (exponents d (List.mem_of_getLast? is))
    · have reads := @unsigned_eq [c] fraction ('e' :: '+' :: Nat.toDigits 10 e) (List.cons_ne_nil _ _)
        (by rw [List.all_cons, digit]; rfl) digits' (fun d is => by obtain rfl := Option.some_inj.mp is; decide)
      rw [List.singleton_append, List.cons_append] at reads
      rw [reads, plus, Option.map_some, ← scale, List.singleton_append, value]
      push_cast
      rw [add_sub_cancel_left, zpow_natCast]

theorem round_shortest {v : ℕ} (double : nearest (v : ℚ) = v ∧ |(v : ℚ)| < 2 ^ 1024) :
    round (shortest v) = .finite v double := by
  have back := nearest_shortest double.1
  have bounded : |nearest (shortest v : ℚ)| < 2 ^ 1024 := by rw [back]; exact double.2
  rw [round, dif_pos bounded]
  simp only [back]

theorem ofString_textOfNat {v : ℕ} (double : nearest (v : ℚ) = v ∧ |(v : ℚ)| < 2 ^ 1024) :
    ofString (textOfNat v) = .finite v double := by
  rw [ofString_shortest, round_shortest]

theorem text_natCast {v : ℕ} (double : nearest (v : ℚ) = v ∧ |(v : ℚ)| < 2 ^ 1024) :
    text (.finite v double) = textOfNat v := by
  rw [text, Rat.num_natCast, if_neg (by omega), Int.natAbs_natCast]

end Number
