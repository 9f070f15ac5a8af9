import Mathlib.Algebra.Order.Field.Basic
import Mathlib.Tactic.Linarith
import Mathlib.Tactic.NormNum
import Mathlib.Tactic.Ring

/-!
# Rounded weighted averages

Arithmetic whose every result is rounded, with a relative error `u` and an
absolute error `η` for results near 0. The weighted average of two numbers,
computed with rounded weights, rounded products and a rounded sum, is off by
`4 u B + 4 η` at most for numbers up to `B` (`Rounds.average`).
-/

namespace Lib.Rounding

variable {K : Type*} [Field K] [LinearOrder K] [IsStrictOrderedRing K] {u η : K}
  {round : K → K}

/-- A rounding that is off by `u |x| + η` at most, with small errors. -/
structure Rounds (u η : K) (round : K → K) : Prop where
  u_nonneg : 0 ≤ u
  u_le : u ≤ 1 / 100
  η_nonneg : 0 ≤ η
  η_le : η ≤ u * u
  error : ∀ x, |round x - x| ≤ u * |x| + η

/-- `v c + w m` with everything rounded. -/
def average (round : K → K) (v w c m : K) : K :=
  round (round (round v * c) + round (round w * m))

theorem Rounds.product (h : Rounds u η round) {w c B : K} (hw0 : 0 ≤ w) (hw1 : w ≤ 1)
    (hc : |c| ≤ B) :
    |round (round w * c) - w * c| ≤ (2 * w + 1 / 16) * (u * B) + η := by
  have hB : 0 ≤ B := (abs_nonneg c).trans hc
  have hp : 0 ≤ u * B := mul_nonneg h.u_nonneg hB
  have hup : u * (u * B) ≤ 1 / 100 * (u * B) := mul_le_mul_of_nonneg_right h.u_le hp
  have hηB : η * B ≤ u * (u * B) := by
    rw [← mul_assoc]
    exact mul_le_mul_of_nonneg_right h.η_le hB
  have hconst : |round w - w| ≤ u * w + η := by
    have herror := h.error w
    rwa [abs_of_nonneg hw0] at herror
  -- the error of the constant, carried through the product
  have hfirst : |round w * c - w * c| ≤ w * (u * B) + η * B := by
    rw [← sub_mul, abs_mul]
    calc |round w - w| * |c| ≤ (u * w + η) * B :=
          mul_le_mul hconst hc (abs_nonneg c) (add_nonneg (mul_nonneg h.u_nonneg hw0) h.η_nonneg)
      _ = w * (u * B) + η * B := by ring
  have hsize : |round w * c| ≤ w * B + (w * (u * B) + η * B) := by
    have hwc : |w * c| ≤ w * B := by
      rw [abs_mul, abs_of_nonneg hw0]
      exact mul_le_mul_of_nonneg_left hc hw0
    have htriangle := abs_add_le (w * c) (round w * c - w * c)
    rw [add_sub_cancel] at htriangle
    linarith
  have hscaled := mul_le_mul_of_nonneg_left hsize h.u_nonneg
  have hwup : w * (u * (u * B)) ≤ u * (u * B) :=
    mul_le_of_le_one_left (mul_nonneg h.u_nonneg hp) hw1
  have huη : u * (η * B) ≤ 1 / 100 * (u * B) := by
    have h1 : u * (η * B) ≤ u * (u * (u * B)) := mul_le_mul_of_nonneg_left hηB h.u_nonneg
    have h2 : u * (u * (u * B)) ≤ 1 * (u * (u * B)) :=
      mul_le_mul_of_nonneg_right (h.u_le.trans (by norm_num)) (mul_nonneg h.u_nonneg hp)
    linarith
  have hexpand : u * (w * B + (w * (u * B) + η * B)) =
      w * (u * B) + w * (u * (u * B)) + u * (η * B) := by ring
  have hsecond := h.error (round w * c)
  have htriangle := abs_add_le (round (round w * c) - round w * c) (round w * c - w * c)
  rw [sub_add_sub_cancel] at htriangle
  linarith

/-- **A rounded average** is near the exact one. -/
theorem Rounds.average (h : Rounds u η round) {v w c m B : K} (hv : 0 ≤ v) (hw : 0 ≤ w)
    (hsum : v + w = 1) (hc : |c| ≤ B) (hm : |m| ≤ B) :
    |average round v w c m - (v * c + w * m)| ≤ 4 * (u * B) + 4 * η := by
  have hB : 0 ≤ B := (abs_nonneg c).trans hc
  have hp : 0 ≤ u * B := mul_nonneg h.u_nonneg hB
  have hleft := h.product hv (by linarith) hc
  have hright := h.product hw (by linarith) hm
  generalize hx : round (round v * c) = x at hleft
  generalize hy : round (round w * m) = y at hright
  have hadd : |x + y - (v * c + w * m)| ≤ 9 / 4 * (u * B) + 2 * η := by
    have htriangle := abs_add_le (x - v * c) (y - w * m)
    rw [sub_add_sub_comm] at htriangle
    have hweights : (2 * v + 1 / 16) * (u * B) + (2 * w + 1 / 16) * (u * B) =
        (2 * (v + w) + 1 / 8) * (u * B) := by ring
    rw [hsum] at hweights
    linarith
  have hexact : |v * c + w * m| ≤ B := by
    have htriangle := abs_add_le (v * c) (w * m)
    rw [abs_mul, abs_mul, abs_of_nonneg hv, abs_of_nonneg hw] at htriangle
    have h1 := mul_le_mul_of_nonneg_left hc hv
    have h2 := mul_le_mul_of_nonneg_left hm hw
    have h3 : v * B + w * B = B := by rw [← add_mul, hsum, one_mul]
    linarith
  have hsize : |x + y| ≤ B + (9 / 4 * (u * B) + 2 * η) := by
    have htriangle := abs_add_le (v * c + w * m) (x + y - (v * c + w * m))
    rw [add_sub_cancel] at htriangle
    linarith
  have hscaled := mul_le_mul_of_nonneg_left hsize h.u_nonneg
  have hup : u * (u * B) ≤ 1 / 100 * (u * B) := mul_le_mul_of_nonneg_right h.u_le hp
  have huη : u * η ≤ 1 / 100 * η := mul_le_mul_of_nonneg_right h.u_le h.η_nonneg
  have hη := h.η_nonneg
  have hexpand : u * (B + (9 / 4 * (u * B) + 2 * η)) =
      u * B + 9 / 4 * (u * (u * B)) + 2 * (u * η) := by ring
  have hlast := h.error (x + y)
  have htriangle := abs_add_le (round (x + y) - (x + y)) (x + y - (v * c + w * m))
  rw [sub_add_sub_cancel] at htriangle
  rw [Rounding.average, hx, hy]
  linarith

end Lib.Rounding
