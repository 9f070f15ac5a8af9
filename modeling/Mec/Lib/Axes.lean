import Mathlib.Data.Matrix.Block
import Mathlib.LinearAlgebra.Matrix.NonsingularInverse

/-!
# Matrices that keep the axes apart

A state of several axes with the same components on each, numbered by
`e : component × axis ≃ index`. `onAxes` applies to every axis a matrix of
components of its own. Such matrices have no entry across axes, and they are
closed under everything a linear filter computes with; where the matrices agree
before, they agree afterwards.
-/

namespace Lib.Axes

open Matrix

variable {K : Type*} [Field K] {a n m l N M L : Type*} [DecidableEq a]
  {en : n × a ≃ N} {em : m × a ≃ M} {el : l × a ≃ L}

/-- The matrix `A x` on axis `x`. -/
def onAxes (en : n × a ≃ N) (em : m × a ≃ M) (A : a → Matrix n m K) : Matrix N M K :=
  (blockDiagonal A).submatrix en.symm em.symm

theorem onAxes_apply (A : a → Matrix n m K) (i : n) (j : m) (x y : a) :
    onAxes en em A (en (i, x)) (em (j, y)) = if x = y then A x i j else 0 := by
  rw [onAxes, submatrix_apply, Equiv.symm_apply_apply, Equiv.symm_apply_apply,
    blockDiagonal_apply']

theorem eq_onAxes {B : Matrix N M K} {A : a → Matrix n m K}
    (h : ∀ i j x y, B (en (i, x)) (em (j, y)) = if x = y then A x i j else 0) :
    B = onAxes en em A := by
  ext p q
  obtain ⟨⟨i, x⟩, rfl⟩ := en.surjective p
  obtain ⟨⟨j, y⟩, rfl⟩ := em.surjective q
  rw [h, onAxes_apply]

theorem onAxes_mul [Fintype a] [Fintype m] [Fintype M] (A : a → Matrix n m K)
    (B : a → Matrix m l K) :
    onAxes en em A * onAxes em el B = onAxes en el fun x => A x * B x := by
  rw [onAxes, onAxes, submatrix_mul_equiv, ← blockDiagonal_mul]
  rfl

theorem onAxes_add (A B : a → Matrix n m K) :
    onAxes en em A + onAxes en em B = onAxes en em fun x => A x + B x :=
  eq_onAxes fun i j x y => by
    rw [Matrix.add_apply, onAxes_apply, onAxes_apply, ite_add_ite, add_zero, Matrix.add_apply]

theorem onAxes_sub (A B : a → Matrix n m K) :
    onAxes en em A - onAxes en em B = onAxes en em fun x => A x - B x :=
  eq_onAxes fun i j x y => by
    rw [Matrix.sub_apply, onAxes_apply, onAxes_apply, ite_sub_ite, sub_zero, Matrix.sub_apply]

theorem onAxes_transpose (A : a → Matrix n m K) :
    (onAxes en em A)ᵀ = onAxes em en fun x => (A x)ᵀ := by
  unfold onAxes
  rw [transpose_submatrix, blockDiagonal_transpose]

theorem onAxes_one [DecidableEq n] [DecidableEq N] (en : n × a ≃ N) :
    onAxes en en (fun _ : a => (1 : Matrix n n K)) = 1 := by
  have hone : (blockDiagonal fun _ : a => (1 : Matrix n n K)) = 1 := blockDiagonal_one
  rw [onAxes, hone, submatrix_one_equiv]

theorem diagonal_onAxes [DecidableEq n] [DecidableEq N] (en : n × a ≃ N) (d : a → n → K) :
    (diagonal fun p => d (en.symm p).2 (en.symm p).1) =
      onAxes en en fun x => diagonal (d x) :=
  eq_onAxes fun i j x y => by
    simp only [diagonal_apply, EmbeddingLike.apply_eq_iff_eq, Prod.mk.injEq, ← ite_and, and_comm,
      Equiv.symm_apply_apply]

/-- A quotient by such a matrix is one. -/
theorem eq_onAxes_of_mul_eq [Fintype a] [Fintype m] [DecidableEq m] [Fintype M] [DecidableEq M]
    {G : Matrix N M K} {A : a → Matrix m m K} {B : a → Matrix n m K}
    (hA : ∀ x, IsUnit (A x).det) (h : G * onAxes em em A = onAxes en em B) :
    G = onAxes en em fun x => B x * (A x)⁻¹ := by
  have hinv : onAxes em em A * onAxes em em (fun x => (A x)⁻¹) = 1 := by
    simp only [onAxes_mul, mul_nonsing_inv _ (hA _), onAxes_one]
  calc G = G * (onAxes em em A * onAxes em em fun x => (A x)⁻¹) := by rw [hinv, Matrix.mul_one]
    _ = onAxes en em fun x => B x * (A x)⁻¹ := by rw [← Matrix.mul_assoc, h, onAxes_mul]

end Lib.Axes
