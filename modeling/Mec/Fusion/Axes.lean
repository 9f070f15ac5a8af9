import Mec.Fusion.Kalman
import Mec.Lib.Axes

/-!
# The two axes of the filter

The state interleaves two axes, `x` at the even and `y` at the odd indices.
`F`, `H`, `Q`, `R` and the initial covariance are `onAxes` matrices with the same
block on either axis. What is written behind `HTSinv[8]` is 0, so `H` and `y`
then have a row of zeros for each axis whose entry was hit, and no other change.
-/

namespace Mec

open Lib.RowMajor Lib.Axes Matrix

def components : Fin 3 × Fin 2 ≃ Fin 6 := finProdFinEquiv

def measuredAxes : Fin 1 × Fin 2 ≃ Fin 2 := finProdFinEquiv

variable {K : Type} [Field K] {m n : Nat}

/-- One axis of the array `F`. -/
def transitionAxis (dt : K) : Matrix (Fin 3) (Fin 3) K :=
  !![1, dt, 0.5 * dt * dt; 0, 1, dt; 0, 0, 1]

theorem transition_onAxes (dt : K) :
    (transition dt).toMatrix = onAxes components components fun _ => transitionAxis dt := by
  rw [toMatrix_transition]
  refine eq_onAxes fun i j x y => ?_
  fin_cases x <;> fin_cases y <;> fin_cases i <;> fin_cases j <;> rfl

theorem toMatrix_observation :
    (observation : Flat K 2 6).toMatrix = !![1, 0, 0, 0, 0, 0; 0, 1, 0, 0, 0, 0] := by
  ext i j
  fin_cases i <;> fin_cases j <;> rfl

/-- One axis of the array `H`. -/
def observationAxis : Matrix (Fin 1) (Fin 3) K := !![1, 0, 0]

theorem observation_onAxes :
    (observation : Flat K 2 6).toMatrix =
      onAxes measuredAxes components fun _ => observationAxis := by
  rw [toMatrix_observation]
  refine eq_onAxes fun i j x y => ?_
  fin_cases x <;> fin_cases y <;> fin_cases i <;> fin_cases j <;> rfl

theorem diagonal_components (q : K) :
    (diagonal fun _ => q) = onAxes components components fun _ => diagonal fun _ => q :=
  diagonal_onAxes components fun _ _ => q

theorem diagonal_measuredAxes (d : Fin 2 → K) :
    diagonal d = onAxes measuredAxes measuredAxes fun x => diagonal fun _ => d x := by
  rw [← diagonal_onAxes measuredAxes fun x _ => d x]
  congr 1
  funext p
  fin_cases p <;> rfl

theorem initial_onAxes (libm : Libm K) (state : KalmanState K) (track : TargetTrack K) :
    (initializeKalmanFilter libm state track).2.covariance.toMatrix =
      onAxes components components fun _ => diagonal ![0.5, 2.0, 5.0] := by
  refine eq_onAxes fun i j x y => ?_
  fin_cases x <;> fin_cases y <;> fin_cases i <;> fin_cases j <;> rfl

/-! ## What the overrun leaves -/

/-- The last rows of the product are those of `HT`, which are 0. -/
theorem behind_eq_zero (sInv : Flat K 2 2) (c : Fin 4) :
    behind (matMul (matTranspose observation) sInv) c = 0 := by
  have hrow (i : Fin 6) (j : Fin 2) (hi : 4 ≤ i.val) :
      (matMul (matTranspose observation) sInv : Flat K 6 2).entry i j = 0 := by
    rw [← Flat.toMatrix_apply, toMatrix_matMul, toMatrix_matTranspose, toMatrix_observation]
    fin_cases i <;> simp_all [Matrix.mul_apply, Fin.sum_univ_two]
  fin_cases c
  · exact hrow 4 0 (le_refl _)
  · exact hrow 4 1 (le_refl _)
  · exact hrow 5 0 (by decide)
  · exact hrow 5 1 (by decide)

/-- 1 for a cell that keeps its value, 0 for one that is written over. -/
def kept (cells : Fin n → Option (Fin 4)) (c : Fin n) : K := if (cells c).isNone then 1 else 0

theorem kept_eq_zero_or_one (cells : Fin n → Option (Fin 4)) (c : Fin n) :
    (kept cells c : K) = 0 ∨ (kept cells c : K) = 1 := by
  unfold kept
  split
  · exact .inr rfl
  · exact .inl rfl

theorem kept_mul_self (cells : Fin n → Option (Fin 4)) (c : Fin n) :
    (kept cells c : K) * kept cells c = kept cells c := by
  unfold kept
  split
  · exact one_mul 1
  · exact zero_mul 0

theorem kept_eq_one {cells : Fin n → Option (Fin 4)} {c : Fin n} :
    (kept cells c : K) = 1 ↔ cells c = none := by
  unfold kept
  cases cells c <;> simp

theorem kept_inj {cells cells' : Fin n → Option (Fin 4)} {c c' : Fin n} :
    (kept cells c : K) = kept cells' c' ↔ ((cells c).isNone ↔ (cells' c').isNone) := by
  unfold kept
  cases (cells c).isNone <;> cases (cells' c').isNone <;> simp

theorem entry_overrun (sInv : Flat K 2 2) (cells : Fin (m * n) → Option (Fin 4))
    (A : Flat K m n) (i : Fin m) (j : Fin n) :
    (overrun (matMul (matTranspose observation) sInv) cells A).entry i j =
      kept cells (finProdFinEquiv (i, j)) * A.entry i j := by
  rw [overrun, Flat.entry_ofFn, kept]
  cases cells (finProdFinEquiv (i, j)) with
  | none => exact (one_mul _).symm
  | some c => exact (behind_eq_zero sInv c).trans (zero_mul _).symm

namespace StackLayout

/-- Whether the row of `H` of an axis survives. -/
def keptH (stack : StackLayout) : Fin 2 → K := ![kept stack.H 0, kept stack.H 7]

/-- Whether the innovation of an axis survives. -/
def keptY (stack : StackLayout) : Fin 2 → K := ![kept stack.y 0, kept stack.y 1]

theorem keptH_mul_self (stack : StackLayout) (x : Fin 2) :
    (stack.keptH x : K) * stack.keptH x = stack.keptH x := by
  fin_cases x
  · exact kept_mul_self _ _
  · exact kept_mul_self _ _

/-- Both axes keep their row of `H` and their innovation. -/
def Spares (stack : StackLayout) : Prop :=
  stack.H 0 = none ∧ stack.H 7 = none ∧ stack.y 0 = none ∧ stack.y 1 = none

/-- An axis that keeps its row of `H` keeps its innovation. -/
def Balanced (stack : StackLayout) : Prop :=
  (stack.H 0 = none → stack.y 0 = none) ∧ (stack.H 7 = none → stack.y 1 = none)

theorem spares_iff (stack : StackLayout) :
    stack.Spares ↔ ((stack.keptH 0 : K) = 1 ∧ (stack.keptH 1 : K) = 1) ∧
      (stack.keptY 0 : K) = 1 ∧ (stack.keptY 1 : K) = 1 := by
  simp only [keptH, keptY, Matrix.cons_val_zero, Matrix.cons_val_one, kept_eq_one, and_assoc,
    Spares]

theorem Spares.keptH_eq {stack : StackLayout} (h : stack.Spares) :
    (diagonal stack.keptH : Matrix (Fin 2) (Fin 2) K) = 1 := by
  obtain ⟨⟨h0, h1⟩, -⟩ := (spares_iff stack (K := K)).mp h
  rw [← diagonal_one]
  congr 1
  funext x
  fin_cases x
  · exact h0
  · exact h1

theorem Spares.keptY_eq {stack : StackLayout} (h : stack.Spares) :
    (diagonal stack.keptY : Matrix (Fin 2) (Fin 2) K) = 1 := by
  obtain ⟨-, h0, h1⟩ := (spares_iff stack (K := K)).mp h
  rw [← diagonal_one]
  congr 1
  funext x
  fin_cases x
  · exact h0
  · exact h1

end StackLayout

theorem toMatrix_overrun_observation (stack : StackLayout) (sInv : Flat K 2 2) :
    (overrun (matMul (matTranspose observation) sInv) stack.H observation).toMatrix =
      (diagonal stack.keptH : Matrix (Fin 2) (Fin 2) K) *
        (observation : Flat K 2 6).toMatrix := by
  ext i j
  rw [Flat.toMatrix_apply, entry_overrun, diagonal_mul, ← Flat.toMatrix_apply,
    toMatrix_observation]
  fin_cases i <;> fin_cases j <;> first | rfl | exact (mul_zero _).trans (mul_zero _).symm

theorem toMatrix_overrun_residual (stack : StackLayout) (sInv : Flat K 2 2) (y : Flat K 2 1) :
    (overrun (matMul (matTranspose observation) sInv) stack.y y).toMatrix =
      (diagonal stack.keptY : Matrix (Fin 2) (Fin 2) K) * y.toMatrix := by
  ext i j
  rw [Flat.toMatrix_apply, entry_overrun, diagonal_mul, Flat.toMatrix_apply]
  fin_cases i <;> fin_cases j <;> rfl

end Mec
