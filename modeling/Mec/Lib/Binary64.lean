import Mathlib.Algebra.Order.Field.Power
import Mathlib.Data.Nat.Log
import Mathlib.Data.Rat.Floor
import Mathlib.Tactic.Linarith
import Mathlib.Tactic.NormNum
import Mathlib.Tactic.Ring
import Mec.Lib.Rounding

/-!
# Rounding to `double`

The nearest number with 53 binary digits and an exponent of at least -1074,
ties to even, for a rational that does not overflow. It is off by `2⁻⁵³ |x| +
2⁻¹⁰⁷⁵` at most (`rounds_nearest`).
-/

namespace Lib.Binary64

open Lib.Rounding

def pow2 : ℤ → ℚ
  | .ofNat n => ((1 <<< n : Nat) : ℚ)
  | .negSucc n => 1 / ((1 <<< (n + 1) : Nat) : ℚ)

/-- The position of the leading binary digit. -/
def exponent (q : ℚ) : ℤ :=
  let e : ℤ := (Nat.log2 q.num.natAbs : ℤ) - Nat.log2 q.den
  if pow2 e ≤ |q| then e else e - 1

/-- The position of the last binary digit. -/
def lastDigit (q : ℚ) : ℤ := max (exponent q - 52) (-1074)

def roundEven (x : ℚ) : ℤ :=
  if 2 * (x - ⌊x⌋) < 1 then ⌊x⌋
  else if 1 < 2 * (x - ⌊x⌋) then ⌊x⌋ + 1
  else if ⌊x⌋ % 2 = 0 then ⌊x⌋ else ⌊x⌋ + 1

def nearest (q : ℚ) : ℚ := roundEven (q / pow2 (lastDigit q)) * pow2 (lastDigit q)

theorem pow2_eq (e : ℤ) : pow2 e = (2 : ℚ) ^ e := by
  cases e with
  | ofNat n =>
    rw [pow2, Nat.one_shiftLeft, Int.ofNat_eq_natCast, zpow_natCast]
    push_cast
    rfl
  | negSucc n =>
    rw [pow2, Nat.one_shiftLeft, zpow_negSucc, ← one_div]
    push_cast
    rfl

theorem pow2_exponent_le {q : ℚ} (hq : q ≠ 0) : pow2 (exponent q) ≤ |q| := by
  unfold exponent
  dsimp only
  split
  · next h => exact h
  · have hnum : q.num.natAbs ≠ 0 := by simpa using hq
    have hlog : (2 : ℚ) ^ (Nat.log2 q.num.natAbs) ≤ q.num.natAbs := by
      exact_mod_cast Nat.log2_self_le hnum
    have hden : (q.den : ℚ) < 2 ^ (Nat.log2 q.den + 1) := by
      exact_mod_cast Nat.lt_log2_self (n := q.den)
    have hpos : (0 : ℚ) < q.den := by exact_mod_cast q.den_pos
    have habs : |q| = q.num.natAbs / q.den := by
      calc |q| = |(q.num : ℚ) / q.den| := by rw [Rat.num_div_den]
        _ = q.num.natAbs / q.den := by
          rw [abs_div, abs_of_pos hpos, Nat.cast_natAbs, Int.cast_abs]
    rw [pow2_eq, habs, le_div_iff₀ hpos]
    calc (2 : ℚ) ^ ((Nat.log2 q.num.natAbs : ℤ) - Nat.log2 q.den - 1) * q.den
        ≤ (2 : ℚ) ^ ((Nat.log2 q.num.natAbs : ℤ) - Nat.log2 q.den - 1) *
            2 ^ (Nat.log2 q.den + 1) := by gcongr
      _ = (2 : ℚ) ^ (Nat.log2 q.num.natAbs) := by
        rw [← zpow_natCast, ← zpow_natCast, ← zpow_add₀ two_ne_zero]
        congr 1
        push_cast
        ring
      _ ≤ q.num.natAbs := hlog

theorem roundEven_error (x : ℚ) : |(roundEven x : ℚ) - x| ≤ 1 / 2 := by
  have h0 := Int.floor_le x
  have h1 := Int.lt_floor_add_one x
  have hdown (h : 2 * (x - ⌊x⌋) ≤ 1) : |(⌊x⌋ : ℚ) - x| ≤ 1 / 2 := by
    rw [abs_le]
    constructor <;> linarith
  have hup (h : 1 ≤ 2 * (x - ⌊x⌋)) : |((⌊x⌋ + 1 : ℤ) : ℚ) - x| ≤ 1 / 2 := by
    rw [abs_le]
    push_cast
    constructor <;> linarith
  unfold roundEven
  split
  · next h => exact hdown h.le
  · next h =>
    split
    · next h' => exact hup h'.le
    · next h' =>
      split
      · exact hdown (not_lt.mp h')
      · exact hup (not_lt.mp h)

theorem lastDigit_half {q : ℚ} (hq : q ≠ 0) :
    pow2 (lastDigit q) / 2 ≤ pow2 (-53) * |q| + pow2 (-1075) := by
  have hexp := pow2_exponent_le hq
  have hpos (e : ℤ) : 0 < pow2 e := by
    rw [pow2_eq]
    positivity
  have hhalf (e : ℤ) : pow2 e / 2 = pow2 (e - 1) := by
    rw [pow2_eq, pow2_eq, zpow_sub_one₀ two_ne_zero, div_eq_mul_inv]
  rw [hhalf, lastDigit]
  rcases max_cases (exponent q - 52) (-1074) with ⟨heq, -⟩ | ⟨heq, -⟩
  · have hsplit : pow2 (exponent q - 52 - 1) = pow2 (-53) * pow2 (exponent q) := by
      rw [pow2_eq, pow2_eq, pow2_eq, ← zpow_add₀ two_ne_zero]
      congr 1
      ring
    rw [heq, hsplit]
    exact (mul_le_mul_of_nonneg_left hexp (hpos _).le).trans (le_add_of_nonneg_right (hpos _).le)
  · rw [heq]
    exact le_add_of_nonneg_left (mul_nonneg (hpos _).le (abs_nonneg q))

theorem nearest_error (q : ℚ) : |nearest q - q| ≤ pow2 (-53) * |q| + pow2 (-1075) := by
  rcases eq_or_ne q 0 with rfl | hq
  · decide +kernel
  · have hpos : 0 < pow2 (lastDigit q) := by
      rw [pow2_eq]
      positivity
    have hscale : nearest q - q =
        (roundEven (q / pow2 (lastDigit q)) - q / pow2 (lastDigit q)) * pow2 (lastDigit q) := by
      rw [nearest, sub_mul, div_mul_cancel₀ _ hpos.ne']
    rw [hscale, abs_mul, abs_of_pos hpos]
    calc |(roundEven (q / pow2 (lastDigit q)) : ℚ) - q / pow2 (lastDigit q)| * pow2 (lastDigit q)
        ≤ 1 / 2 * pow2 (lastDigit q) := by
          gcongr
          exact roundEven_error _
      _ = pow2 (lastDigit q) / 2 := by ring
      _ ≤ pow2 (-53) * |q| + pow2 (-1075) := lastDigit_half hq

/-- **The rounding of `double`** keeps its error bounds. -/
theorem rounds_nearest : Rounds (pow2 (-53)) (pow2 (-1075)) nearest where
  u_nonneg := by decide +kernel
  u_le := by decide +kernel
  η_nonneg := by decide +kernel
  η_le := by decide +kernel
  error := nearest_error

end Lib.Binary64
