import Mathlib.Data.List.Perm.Basic
import Mathlib.LinearAlgebra.Matrix.NonsingularInverse
import Mathlib.LinearAlgebra.Matrix.ToLinearEquiv
import Mec.Lib.Covariance

/-!
# The information form of a linear filter

An estimate `x` with covariance `P` is carried just as well by the precision
`P⁻¹` and the vector `P⁻¹ x`. In that form the update with the optimal gain is
an addition, of `Hᵀ R⁻¹ H` and of `Hᵀ R⁻¹ z` (`information_update`), so updates
commute. `foldl_perm_of_view` carries that from one pair of updates to a list
of them.
-/

namespace Lib.Information

open Matrix Lib.Covariance

/-! ## Folds seen through a commuting view -/

section View

variable {σ τ α : Type*} {f : σ → α → σ} {view : σ → τ} {g : τ → α → τ} {I : σ → Prop}

theorem foldl_view (hI : ∀ s a, I s → I (f s a)) (hview : ∀ s a, I s → view (f s a) = g (view s) a)
    (l : List α) {s : σ} (hs : I s) : I (l.foldl f s) ∧ view (l.foldl f s) = l.foldl g (view s) := by
  induction l generalizing s with
  | nil => exact ⟨hs, rfl⟩
  | cons a l ih =>
    obtain ⟨hinv, heq⟩ := ih (hI s a hs)
    exact ⟨hinv, by rw [List.foldl_cons, heq, hview s a hs, List.foldl_cons]⟩

/-- If every step is a commuting step of what the view shows, the view of the
end does not depend on the order. -/
theorem foldl_perm_of_view (hI : ∀ s a, I s → I (f s a))
    (hview : ∀ s a, I s → view (f s a) = g (view s) a)
    (hcomm : ∀ t a b, g (g t a) b = g (g t b) a) {l l' : List α} (hl : l.Perm l') {s : σ}
    (hs : I s) : view (l.foldl f s) = view (l'.foldl f s) := by
  rw [(foldl_view hI hview l hs).2, (foldl_view hI hview l' hs).2]
  exact hl.foldl_eq' (fun a _ b _ t => hcomm t a b) _

end View

variable {K : Type*} [Field K] {n m o : Type*} [Fintype n] [Fintype m] [DecidableEq n]
  [DecidableEq m]

/-- Precision and information vector of the estimate `x` with covariance `P`. -/
noncomputable def information (P : Matrix n n K) (x : Matrix n o K) :
    Matrix n n K × Matrix n o K := (P⁻¹, P⁻¹ * x)

/-- What a measurement `z` through `H` with noise `R` adds. -/
noncomputable def observe (H : Matrix m n K) (R : Matrix m m K)
    (info : Matrix n n K × Matrix n o K) (z : Matrix m o K) : Matrix n n K × Matrix n o K :=
  (info.1 + Hᵀ * R⁻¹ * H, info.2 + Hᵀ * R⁻¹ * z)

omit [Fintype n] [DecidableEq n] in
theorem observe_comm (H : Matrix m n K) (R : Matrix m m K) (info : Matrix n n K × Matrix n o K)
    (z z' : Matrix m o K) :
    observe H R (observe H R info z) z' = observe H R (observe H R info z') z :=
  Prod.ext rfl (add_right_comm _ _ _)

theorem information_inj {P P' : Matrix n n K} {x x' : Matrix n o K} (hP : IsUnit P.det)
    (hP' : IsUnit P'.det) (h : information P x = information P' x') : P = P' ∧ x = x' := by
  obtain ⟨hprec, hvec⟩ := Prod.mk.inj h
  have hcov : P = P' := by
    rw [← nonsing_inv_nonsing_inv P hP, hprec, nonsing_inv_nonsing_inv P' hP']
  subst hcov
  refine ⟨rfl, ?_⟩
  rw [← mul_nonsing_inv_cancel_left P x hP, hvec, mul_nonsing_inv_cancel_left P x' hP]

section Update

variable {P : Matrix n n K} {R : Matrix m m K} {H : Matrix m n K} {G : Matrix n m K}

omit [DecidableEq m] in
/-- The gain by the new covariance. -/
theorem gain_mul_noise (hG : G * (H * P * Hᵀ + R) = P * Hᵀ) :
    G * R = (1 - G * H) * P * Hᵀ := by
  calc G * R = G * (H * P * Hᵀ + R) - G * H * P * Hᵀ := by
        simp only [Matrix.mul_add, Matrix.mul_assoc]
        abel
    _ = P * Hᵀ - G * H * P * Hᵀ := by rw [hG]
    _ = (1 - G * H) * P * Hᵀ := by simp only [Matrix.sub_mul, Matrix.one_mul]

theorem gain_eq (hR : IsUnit R.det) (hG : G * (H * P * Hᵀ + R) = P * Hᵀ) :
    G = (1 - G * H) * P * (Hᵀ * R⁻¹) := by
  rw [← Matrix.mul_assoc, ← gain_mul_noise hG, mul_nonsing_inv_cancel_right _ _ hR]

theorem precision_update (hP : IsUnit P.det) (hR : IsUnit R.det)
    (hG : G * (H * P * Hᵀ + R) = P * Hᵀ) :
    (1 - G * H) * P * (P⁻¹ + Hᵀ * R⁻¹ * H) = 1 := by
  rw [Matrix.mul_add, mul_nonsing_inv_cancel_right _ _ hP, ← Matrix.mul_assoc, ← gain_eq hR hG,
    sub_add_cancel]

/-- **An update is an addition** in information form. -/
theorem information_update (hP : IsUnit P.det) (hR : IsUnit R.det)
    (hG : G * (H * P * Hᵀ + R) = P * Hᵀ) (x : Matrix n o K) (z : Matrix m o K) :
    information ((1 - G * H) * P) (x + G * (z - H * x)) = observe H R (information P x) z := by
  have hprec := precision_update hP hR hG
  have hinv : ((1 - G * H) * P)⁻¹ = P⁻¹ + Hᵀ * R⁻¹ * H := inv_eq_right_inv hprec
  have hvec : x + G * (z - H * x) = (1 - G * H) * P * (P⁻¹ * x + Hᵀ * R⁻¹ * z) := by
    rw [Matrix.mul_add, ← Matrix.mul_assoc, mul_nonsing_inv_cancel_right _ _ hP,
      ← Matrix.mul_assoc, ← gain_eq hR hG]
    simp only [Matrix.mul_sub, Matrix.sub_mul, Matrix.one_mul, Matrix.mul_assoc]
    abel
  refine Prod.ext hinv ?_
  show ((1 - G * H) * P)⁻¹ * (x + G * (z - H * x)) = P⁻¹ * x + Hᵀ * R⁻¹ * z
  rw [hvec, hinv, ← Matrix.mul_assoc, mul_eq_one_comm.mp hprec, Matrix.one_mul]

end Update

theorem isUnit_det_of_definite [LinearOrder K] {P : Matrix n n K} (hP : Definite P) :
    IsUnit P.det := by
  rw [isUnit_iff_ne_zero]
  intro hdet
  obtain ⟨v, hv, hzero⟩ := exists_mulVec_eq_zero_iff.mpr hdet
  have hpos := hP.pos v hv
  rw [hzero, dotProduct_zero] at hpos
  exact hpos.false

end Lib.Information
