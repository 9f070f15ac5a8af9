import Mathlib.Algebra.Order.Field.Basic
import Mathlib.LinearAlgebra.Matrix.PosDef
import Mathlib.Tactic.FinCases
import Mathlib.Tactic.LinearCombination

/-!
# Covariance matrices over an ordered field

Prediction and measurement update of a covariance `P` in matrix form, over any
ordered field. `Definite.propagate`: `F P Fᵀ + Q` is definite for definite `Q`.
`Definite.update`: so is `(1 - G H) P` for the optimal gain `G = P Hᵀ S⁻¹`,
`S = H P Hᵀ + R`. The short form of the update equals the symmetric one,
`(1 - G H) P (1 - G H)ᵀ + G R Gᵀ`, only because of that gain
(`short_form_eq`). An update that sees part of the measurement with the gain of
the whole one does no harm either (`Definite.update_partial`).
-/

namespace Lib.Covariance

open Matrix

set_option linter.unusedSectionVars false

attribute [local instance] starRingOfComm

variable {K : Type*} [Field K] [LinearOrder K] [IsStrictOrderedRing K]
variable {n m : Type*} [Fintype n] [Fintype m] [DecidableEq n] [DecidableEq m]

local instance trivialStar : TrivialStar K := ⟨fun _ => rfl⟩

/-- Symmetric and positive definite. Over a field with the trivial star this is
Mathlib's `PosDef`, stated without the star. -/
structure Definite (P : Matrix n n K) : Prop where
  symm : P.IsSymm
  pos : ∀ v, v ≠ 0 → 0 < v ⬝ᵥ (P *ᵥ v)

theorem definite_iff_posDef {P : Matrix n n K} : Definite P ↔ P.PosDef := by
  rw [posDef_iff_dotProduct_mulVec, isHermitian_iff_isSymm]
  exact ⟨fun h => ⟨h.symm, fun v hv => h.pos v hv⟩, fun h => ⟨h.1, fun v hv => h.2 hv⟩⟩

theorem definite_diagonal {d : n → K} (hd : ∀ i, 0 < d i) : Definite (diagonal d) := by
  refine ⟨isSymm_diagonal d, fun v hv => ?_⟩
  obtain ⟨i, hi⟩ := Function.ne_iff.mp hv
  have hsum : v ⬝ᵥ (diagonal d *ᵥ v) = ∑ j, d j * (v j * v j) := by
    refine Finset.sum_congr rfl fun j _ => ?_
    rw [mulVec_diagonal]; ring
  rw [hsum]
  refine Finset.sum_pos' (fun j _ => mul_nonneg (hd j).le (mul_self_nonneg _))
    ⟨i, Finset.mem_univ i, mul_pos (hd i) ?_⟩
  exact mul_self_pos.mpr hi

theorem Definite.diag_pos {P : Matrix n n K} (hP : Definite P) (i : n) : 0 < P i i :=
  (definite_iff_posDef.mp hP).diag_pos

theorem Definite.minor_pos {P : Matrix n n K} (hP : Definite P) {i j : n} (hij : i ≠ j) :
    0 < P i i * P j j - P i j * P i j := by
  have hsub : Definite (P.submatrix ![i, j] ![i, j]) :=
    definite_iff_posDef.mpr ((definite_iff_posDef.mp hP).submatrix (by
      intro a b hab
      fin_cases a <;> fin_cases b <;> simp_all [Ne.symm hij]))
  have hjj := hP.diag_pos j
  have hsymm : P j i = P i j := hP.symm.apply i j
  have hv : (![P j j, -P i j] : Fin 2 → K) ≠ 0 := fun h => by
    have := congrFun h 0
    exact hjj.ne' (by simpa using this)
  have hq := hsub.pos _ hv
  simp only [dotProduct, mulVec, Fin.sum_univ_two, submatrix_apply, cons_val_zero, cons_val_one,
    hsymm] at hq
  refine (mul_pos_iff_of_pos_left hjj).mp ?_
  linear_combination hq

/-- **Propagation** through a linear map with added noise. -/
theorem Definite.propagate {P : Matrix n n K} {Q : Matrix m m K} (hP : Definite P)
    (hQ : Definite Q) (F : Matrix m n K) : Definite (F * P * Fᵀ + Q) := by
  rw [definite_iff_posDef] at hP hQ ⊢
  have h := hP.posSemidef.mul_mul_conjTranspose_same F
  rw [conjTranspose_eq_transpose_of_trivial] at h
  exact hQ.posSemidef_add h

theorem quad_conj (A : Matrix n m K) (P : Matrix m m K) (v : n → K) :
    v ⬝ᵥ ((A * P * Aᵀ) *ᵥ v) = (Aᵀ *ᵥ v) ⬝ᵥ (P *ᵥ (Aᵀ *ᵥ v)) := by
  rw [← mulVec_mulVec, ← mulVec_mulVec, dotProduct_mulVec, ← mulVec_transpose]

section Update

variable {P : Matrix n n K} {R : Matrix m m K} {H : Matrix m n K} {G : Matrix n m K}

/-- For the gain that solves `G S = P Hᵀ` the short form is the symmetric form. -/
theorem short_form_eq (hG : G * (H * P * Hᵀ + R) = P * Hᵀ) :
    (1 - G * H) * P = (1 - G * H) * P * (1 - G * H)ᵀ + G * R * Gᵀ := by
  have hS : G * H * P * Hᵀ * Gᵀ + G * R * Gᵀ = P * Hᵀ * Gᵀ := by
    rw [← hG]
    simp only [Matrix.mul_add, Matrix.add_mul, Matrix.mul_assoc]
  rw [transpose_sub, transpose_mul, transpose_one]
  calc (1 - G * H) * P
      = (1 - G * H) * P - P * Hᵀ * Gᵀ + (G * H * P * Hᵀ * Gᵀ + G * R * Gᵀ) := by
        rw [hS]; abel
    _ = (1 - G * H) * P * (1 - Hᵀ * Gᵀ) + G * R * Gᵀ := by
        simp only [Matrix.mul_sub, Matrix.sub_mul, Matrix.mul_assoc, Matrix.one_mul, Matrix.mul_one]
        abel

/-- **Measurement update** with the optimal gain. -/
theorem Definite.update (hP : Definite P) (hR : Definite R)
    (hG : G * (H * P * Hᵀ + R) = P * Hᵀ) : Definite ((1 - G * H) * P) := by
  rw [short_form_eq hG]
  have hA := (definite_iff_posDef.mp hP).posSemidef.mul_mul_conjTranspose_same (1 - G * H)
  have hB := (definite_iff_posDef.mp hR).posSemidef.mul_mul_conjTranspose_same G
  rw [conjTranspose_eq_transpose_of_trivial] at hA hB
  refine ⟨isHermitian_iff_isSymm.mp (hA.1.add hB.1), fun v hv => ?_⟩
  rw [add_mulVec, dotProduct_add]
  have hA0 : 0 ≤ v ⬝ᵥ (((1 - G * H) * P * (1 - G * H)ᵀ) *ᵥ v) := hA.dotProduct_mulVec_nonneg v
  have hB0 : 0 ≤ v ⬝ᵥ ((G * R * Gᵀ) *ᵥ v) := hB.dotProduct_mulVec_nonneg v
  by_cases hw : Gᵀ *ᵥ v = 0
  · -- the gain does not see `v`, so the old covariance decides
    have hv' : (1 - G * H)ᵀ *ᵥ v = v := by
      rw [transpose_sub, transpose_one, transpose_mul, sub_mulVec, one_mulVec, ← mulVec_mulVec, hw,
        mulVec_zero, sub_zero]
    refine add_pos_of_pos_of_nonneg ?_ hB0
    rw [quad_conj, hv']
    exact hP.pos v hv
  · refine add_pos_of_nonneg_of_pos hA0 ?_
    rw [quad_conj]
    exact hR.pos _ hw

section Partial

variable {D : Matrix m m K}

theorem innovation_mul_gain (hP : P.IsSymm) (hR : R.IsSymm)
    (hG : G * (H * P * Hᵀ + R) = P * Hᵀ) : (H * P * Hᵀ + R) * Gᵀ = H * P := by
  have hS : (H * P * Hᵀ + R)ᵀ = H * P * Hᵀ + R := by
    rw [transpose_add, transpose_mul, transpose_mul, transpose_transpose, hP.eq, hR.eq,
      Matrix.mul_assoc]
  have h := congrArg transpose hG
  rwa [transpose_mul, transpose_mul, transpose_transpose, hS, hP.eq] at h

/-- What `G E H P` is for a projection `E` that commutes with `S`. -/
theorem gain_projection (hP : P.IsSymm) (hR : R.IsSymm) (hG : G * (H * P * Hᵀ + R) = P * Hᵀ)
    (hsymm : D.IsSymm) (hidem : D * D = D)
    (hcomm : D * (H * P * Hᵀ + R) = (H * P * Hᵀ + R) * D) :
    G * (D * H) * P = G * D * (H * P * Hᵀ + R) * (G * D)ᵀ := by
  calc G * (D * H) * P = G * D * ((H * P * Hᵀ + R) * Gᵀ) := by
        rw [innovation_mul_gain hP hR hG]
        simp only [Matrix.mul_assoc]
    _ = G * (D * D) * ((H * P * Hᵀ + R) * Gᵀ) := by rw [hidem]
    _ = G * D * (D * (H * P * Hᵀ + R) * Gᵀ) := by simp only [Matrix.mul_assoc]
    _ = G * D * (H * P * Hᵀ + R) * (G * D)ᵀ := by
        rw [hcomm, transpose_mul, hsymm.eq]
        simp only [Matrix.mul_assoc]

theorem Definite.gain_projection (hP : Definite P) (hR : Definite R)
    (hG : G * (H * P * Hᵀ + R) = P * Hᵀ) (hsymm : D.IsSymm) (hidem : D * D = D)
    (hcomm : D * (H * P * Hᵀ + R) = (H * P * Hᵀ + R) * D) :
    (G * (D * H) * P).IsSymm ∧ ∀ v, 0 ≤ v ⬝ᵥ ((G * (D * H) * P) *ᵥ v) := by
  rw [Covariance.gain_projection hP.symm hR.symm hG hsymm hidem hcomm]
  have hS := hP.propagate hR H
  refine ⟨?_, fun v => ?_⟩
  · rw [Matrix.IsSymm, transpose_mul, transpose_transpose, transpose_mul (G * D), hS.symm.eq,
      Matrix.mul_assoc (G * D)]
  · rw [quad_conj]
    by_cases hw : (G * D)ᵀ *ᵥ v = 0
    · rw [hw, zero_dotProduct]
    · exact (hS.pos _ hw).le

/-- **A partial update** takes the optimal gain and sees only the part `D H` of the
measurement. The covariance stays definite. -/
theorem Definite.update_partial (hP : Definite P) (hR : Definite R)
    (hG : G * (H * P * Hᵀ + R) = P * Hᵀ) (hsymm : D.IsSymm) (hidem : D * D = D)
    (hcomm : D * (H * P * Hᵀ + R) = (H * P * Hᵀ + R) * D) :
    Definite ((1 - G * (D * H)) * P) := by
  have hrest := hP.gain_projection hR hG (D := 1 - D) (isSymm_one.sub hsymm)
    (by simp only [Matrix.sub_mul, Matrix.mul_sub, Matrix.one_mul, Matrix.mul_one, hidem,
      sub_self, sub_zero])
    (by rw [Matrix.sub_mul, Matrix.mul_sub, Matrix.one_mul, Matrix.mul_one, hcomm])
  have hsum : (1 - G * (D * H)) * P = (1 - G * H) * P + G * ((1 - D) * H) * P := by
    simp only [Matrix.sub_mul, Matrix.mul_sub, Matrix.one_mul, Matrix.mul_assoc]
    abel
  have hfull := hP.update hR hG
  rw [hsum]
  refine ⟨hfull.symm.add hrest.1, fun v hv => ?_⟩
  rw [add_mulVec, dotProduct_add]
  exact add_pos_of_pos_of_nonneg (hfull.pos v hv) (hrest.2 v)

/-- **It lowers the covariance** in the Loewner order. -/
theorem Definite.update_partial_le (hP : Definite P) (hR : Definite R)
    (hG : G * (H * P * Hᵀ + R) = P * Hᵀ) (hsymm : D.IsSymm) (hidem : D * D = D)
    (hcomm : D * (H * P * Hᵀ + R) = (H * P * Hᵀ + R) * D) :
    (P - (1 - G * (D * H)) * P).IsSymm ∧
      ∀ v, 0 ≤ v ⬝ᵥ ((P - (1 - G * (D * H)) * P) *ᵥ v) := by
  rw [Matrix.sub_mul, Matrix.one_mul, sub_sub_cancel]
  exact hP.gain_projection hR hG hsymm hidem hcomm

end Partial

end Update

end Lib.Covariance
