import Mathlib.Analysis.SpecialFunctions.Complex.Arg
import Mec.Fusion.Covariance

/-!
# The gate is the Mahalanobis distance

The filter treats its axes alike as long as `H` keeps the rows of both or of
neither: the covariance is then one 3x3 block on either axis. The innovation
covariance is diagonal in any case, and `calculate_track_distance`, which reads
only that diagonal, loses nothing.
-/

namespace Mec

open Lib.RowMajor Lib.Axes Matrix

variable {K : Type} [Field K]

/-- The covariance is one block on both axes. -/
def AxesAlike (st : KalmanState K) : Prop :=
  ∃ B : Matrix (Fin 3) (Fin 3) K,
    st.covariance.toMatrix = onAxes components components fun _ => B

variable [LinearOrder K] {st : KalmanState K}

theorem AxesAlike.predict {track : FusedTrack K} (h : AxesAlike track.filterState) (dt : K) :
    AxesAlike (predictTrackState track dt).2.filterState := by
  rcases le_or_gt dt 0 with hdt | hdt
  · rw [predictTrackState_neg hdt]
    exact h
  · obtain ⟨B, hB⟩ := h
    exact ⟨predictAxis dt B, predict_onAxes hdt hB⟩

variable [IsStrictOrderedRing K]

theorem AxesAlike.update {libm : Libm K}
    (heven : (libm.stack.keptH 0 : K) = libm.stack.keptH 1) (h : AxesAlike st)
    (hok : FilterOk st) (meas : TargetTrack K) :
    AxesAlike (updateKalmanFilter libm st meas).2 := by
  obtain ⟨B, hB⟩ := h
  refine ⟨updateAxis (libm.stack.keptH 0) B, ?_⟩
  rw [update_onAxes libm hok meas hB]
  congr 1
  funext x
  fin_cases x
  · rfl
  · rw [heven]
    rfl

theorem FilterReachable.alike {libm : Libm K}
    (heven : (libm.stack.keptH 0 : K) = libm.stack.keptH 1) (h : FilterReachable libm st) :
    AxesAlike st := by
  induction h with
  | init state track => exact ⟨_, initial_onAxes libm state track⟩
  | predict track dt _ ih => exact ih.predict dt
  | update state meas hreach ih => exact ih.update heven hreach.ok meas

omit [LinearOrder K] [IsStrictOrderedRing K] in
theorem AxesAlike.entry_eq (h : AxesAlike st) (i j : Fin 3) :
    st.covariance.toMatrix (components (i, 0)) (components (j, 0)) =
      st.covariance.toMatrix (components (i, 1)) (components (j, 1)) := by
  obtain ⟨B, hB⟩ := h
  rw [hB, onAxes_apply, onAxes_apply]
  rfl

omit [IsStrictOrderedRing K] in
theorem filterRun_alike {track t : FusedTrack K} {acts : List (FilterAct K)}
    (h : AxesAlike track.filterState) (hno : ∀ meas, .update meas ∉ acts)
    (hrun : filterRun track acts = some t) : AxesAlike t.filterState := by
  induction acts generalizing track with
  | nil =>
    obtain rfl := Option.some.inj hrun
    exact h
  | cons act acts ih =>
    cases act with
    | predict dt =>
      exact ih (h.predict dt) (fun meas hmem => hno meas (List.mem_cons_of_mem _ hmem)) hrun
    | update meas => exact absurd List.mem_cons_self (hno meas)

/-! ## The position, axis by axis -/

/-- An update multiplies residual and variance of either axis by
`1 - P / (P + R)`, unless the build loses that axis' innovation or row of `H`. -/
theorem update_position (libm : Libm K) (h : FilterOk st) (meas : TargetTrack K) :
    (meas.position.longitude - (updateKalmanFilter libm st meas).2.x =
        (1 - libm.stack.keptY 0 * (st.covariance.toMatrix 0 0 / varX st)) *
          (meas.position.longitude - st.x) ∧
      meas.position.latitude - (updateKalmanFilter libm st meas).2.y =
        (1 - libm.stack.keptY 1 * (st.covariance.toMatrix 1 1 / varY st)) *
          (meas.position.latitude - st.y)) ∧
      (updateKalmanFilter libm st meas).2.covariance.toMatrix 0 0 =
        (1 - libm.stack.keptH 0 * (st.covariance.toMatrix 0 0 / varX st)) *
          st.covariance.toMatrix 0 0 ∧
      (updateKalmanFilter libm st meas).2.covariance.toMatrix 1 1 =
        (1 - libm.stack.keptH 1 * (st.covariance.toMatrix 1 1 / varY st)) *
          st.covariance.toMatrix 1 1 := by
  have hvx : 0 < varX st := add_pos (h.definite.diag_pos 0) (by positivity)
  have hvy : 0 < varY st := add_pos (h.definite.diag_pos 1) (by positivity)
  obtain ⟨h01, h10⟩ := h.apart.uncorrelated
  obtain ⟨-, -, -, G, hG, hP, hx⟩ := updateKalmanFilter_spec libm h meas
  rw [h.apart.innovation_diagonal, toMatrix_observation] at hG
  rw [toMatrix_observation] at hP
  -- the gain on the two positions: `P / S` on its own axis, 0 across
  have g00 : G 0 0 * varX st = st.covariance.toMatrix 0 0 := by
    simpa [Matrix.mul_apply, Fin.sum_univ_two, Fin.sum_univ_six] using
      congrFun (congrFun hG 0) 0
  have g01 : G 0 1 = 0 := by
    simpa [Matrix.mul_apply, Fin.sum_univ_two, Fin.sum_univ_six, h01, hvy.ne'] using
      congrFun (congrFun hG 0) 1
  have g10 : G 1 0 = 0 := by
    simpa [Matrix.mul_apply, Fin.sum_univ_two, Fin.sum_univ_six, h10, hvx.ne'] using
      congrFun (congrFun hG 1) 0
  have g11 : G 1 1 * varY st = st.covariance.toMatrix 1 1 := by
    simpa [Matrix.mul_apply, Fin.sum_univ_two, Fin.sum_univ_six] using
      congrFun (congrFun hG 1) 1
  rw [← eq_div_iff hvx.ne'] at g00
  rw [← eq_div_iff hvy.ne'] at g11
  have hx0 : (updateKalmanFilter libm st meas).2.x =
      st.x + G 0 0 * (libm.stack.keptY 0 * (meas.position.longitude - st.x)) := by
    have h := congrFun (congrFun hx 0) 0
    rw [Matrix.add_apply, Matrix.mul_apply, Fin.sum_univ_two, g01, zero_mul, add_zero,
      diagonal_mul] at h
    exact h
  have hx1 : (updateKalmanFilter libm st meas).2.y =
      st.y + G 1 1 * (libm.stack.keptY 1 * (meas.position.latitude - st.y)) := by
    have h := congrFun (congrFun hx 1) 0
    rw [Matrix.add_apply, Matrix.mul_apply, Fin.sum_univ_two, g10, zero_mul, zero_add,
      diagonal_mul] at h
    exact h
  have hP0 : (updateKalmanFilter libm st meas).2.covariance.toMatrix 0 0 =
      (1 - G 0 0 * libm.stack.keptH 0) * st.covariance.toMatrix 0 0 := by
    simpa [Matrix.mul_apply, Fin.sum_univ_two, Fin.sum_univ_six, Matrix.one_apply, g01] using
      congrFun (congrFun hP 0) 0
  have hP1 : (updateKalmanFilter libm st meas).2.covariance.toMatrix 1 1 =
      (1 - G 1 1 * libm.stack.keptH 1) * st.covariance.toMatrix 1 1 := by
    simpa [Matrix.mul_apply, Fin.sum_univ_two, Fin.sum_univ_six, Matrix.one_apply, g10] using
      congrFun (congrFun hP 1) 1
  refine ⟨⟨?_, ?_⟩, ?_, ?_⟩
  · rw [hx0, g00]
    ring
  · rw [hx1, g11]
    ring
  · rw [hP0, g00, mul_comm (_ / _)]
  · rw [hP1, g11, mul_comm (_ / _)]

omit [LinearOrder K] [IsStrictOrderedRing K] in
theorem one_sub_gain {p r : K} (h : p + r ≠ 0) : 1 - 1 * (p / (p + r)) = r / (p + r) := by
  rw [one_mul, one_sub_div h, add_sub_cancel_left]

omit [LinearOrder K] [IsStrictOrderedRing K] in
theorem quadratic_diagonal {a b : K} (ha : a ≠ 0) (hb : b ≠ 0) (y : Matrix (Fin 2) (Fin 1) K) :
    (yᵀ * (diagonal ![a, b])⁻¹ * y) 0 0 = y 0 0 * y 0 0 / a + y 1 0 * y 1 0 / b := by
  have hinv : (diagonal ![a, b] : Matrix (Fin 2) (Fin 2) K)⁻¹ = diagonal ![1 / a, 1 / b] := by
    refine inv_eq_right_inv ?_
    rw [diagonal_mul_diagonal, ← diagonal_one]
    congr 1
    funext i
    fin_cases i
    · exact mul_one_div_cancel ha
    · exact mul_one_div_cancel hb
  rw [hinv]
  simp only [Matrix.mul_apply, Fin.sum_univ_two, transpose_apply, diagonal_apply, cons_val_zero,
    cons_val_one, if_true, if_false, mul_zero, add_zero, zero_add, Fin.isValue, zero_ne_one,
    one_ne_zero]
  ring

omit [LinearOrder K] [IsStrictOrderedRing K] in
theorem initialized_variances (libm : Libm K) (old : FusedTrack K) (first : TargetTrack K) :
    (initializedTrack libm old first).filterState.covariance.toMatrix 0 0 = 0.5 ∧
      (initializedTrack libm old first).filterState.covariance.toMatrix 1 1 = 0.5 ∧
      varX (initializedTrack libm old first).filterState = 0.5 + 0.1 ∧
      varY (initializedTrack libm old first).filterState = 0.5 + 0.1 :=
  ⟨rfl, rfl, rfl, rfl⟩

/-! ## The gate -/

/-- No component of one axis is correlated with one of the other and both axes
have the same covariance, and the squared association distance of any detection
is `yᵀ S⁻¹ y`, for the matrix `S⁻¹` that `update_kalman_filter` computes. -/
structure GateExact (libm : Libm K) (st : KalmanState K) : Prop where
  cross : ∀ i j : Fin 3,
    st.covariance.toMatrix (![0, 2, 4] i) (![1, 3, 5] j) = 0 ∧
      st.covariance.toMatrix (![1, 3, 5] i) (![0, 2, 4] j) = 0
  alike : ∀ i j : Fin 3,
    st.covariance.toMatrix (![0, 2, 4] i) (![0, 2, 4] j) =
      st.covariance.toMatrix (![1, 3, 5] i) (![1, 3, 5] j)
  distance : ∃ sInv : Flat K 2 2, matInv2x2 (innovationCovariance st) = some sInv ∧
    sInv.toMatrix = ((observation : Flat K 2 6).toMatrix * st.covariance.toMatrix *
      (observation : Flat K 2 6).toMatrixᵀ + (measurementNoise : Flat K 2 2).toMatrix)⁻¹ ∧
    ∀ (track : FusedTrack K) (meas : TargetTrack K), track.filterState = st →
      calculateTrackDistance libm track meas ^ 2 =
        ((residual st meas).toMatrixᵀ * sInv.toMatrix * (residual st meas).toMatrix) 0 0

/-- A working filter that treats its axes alike has an exact gate. -/
theorem FilterOk.gateExact {libm : Libm K}
    (hsqrt : ∀ q, 0 ≤ q → libm.sqrt q * libm.sqrt q = q) (h : FilterOk st)
    (halike : AxesAlike st) : GateExact libm st := by
  have hvx : 0 < varX st := add_pos (h.definite.diag_pos 0) (by positivity)
  have hvy : 0 < varY st := add_pos (h.definite.diag_pos 1) (by positivity)
  have hx : ∀ k : Fin 3, (![0, 2, 4] : Fin 3 → Fin 6) k = components (k, 0) := by decide
  have hy : ∀ k : Fin 3, (![1, 3, 5] : Fin 3 → Fin 6) k = components (k, 1) := by decide
  obtain ⟨sInv, hinv⟩ := Option.ne_none_iff_exists'.mp (innovation_invertible h.definite)
  have hS : sInv.toMatrix = (innovationCovariance st).toMatrix⁻¹ :=
    (inv_eq_left_inv (matInv2x2_mul hinv)).symm
  refine ⟨fun i j => ?_, fun i j => ?_, sInv, hinv, ?_, ?_⟩
  · obtain ⟨B, hB⟩ := h.apart
    rw [hx, hx, hy, hy, hB]
    exact ⟨onAxes_apply _ i j 0 1, onAxes_apply _ i j 1 0⟩
  · rw [hx, hx, hy, hy]
    exact halike.entry_eq i j
  · rw [hS, toMatrix_innovationCovariance, toMatrix_measurementNoise]
  · rintro track meas rfl
    rw [hS, h.apart.innovation_diagonal, quadratic_diagonal hvx.ne' hvy.ne', sq]
    exact hsqrt _ (add_nonneg (div_nonneg (mul_self_nonneg _) hvx.le)
      (div_nonneg (mul_self_nonneg _) hvy.le))

/-- **The simplified gate is exact** after exactly the runs without an update,
which writes behind `HTSinv`. A build that goes on from there keeps it exact in
every state if and only if `H` keeps the rows of both axes or of neither. -/
theorem gate_mahalanobis_iff {libm : Libm K}
    (hsqrt : ∀ q, 0 ≤ q → libm.sqrt q * libm.sqrt q = q) (old : FusedTrack K)
    (first : TargetTrack K) (acts : List (FilterAct K)) :
    ((∃ t, filterRun (initializedTrack libm old first) acts = some t ∧
        GateExact libm t.filterState) ↔
      ∀ meas, .update meas ∉ acts) ∧
    ((∀ st, FilterReachable libm st → GateExact libm st) ↔
      ((libm.stack.H 0).isNone ↔ (libm.stack.H 7).isNone)) := by
  have hinit : FilterReachable libm (initializedTrack libm old first).filterState :=
    .init old.filterState first
  have hstart : AxesAlike (initializedTrack libm old first).filterState :=
    ⟨_, initial_onAxes libm old.filterState first⟩
  refine ⟨⟨?_, fun hno => ?_⟩, fun h => ?_, fun heven st hst => ?_⟩
  · rintro ⟨t, hrun, -⟩
    exact (filterRun_isSome_iff hinit.ok).mp ⟨t, hrun⟩
  · obtain ⟨t, hrun⟩ := (filterRun_isSome_iff hinit.ok).mpr hno
    exact ⟨t, hrun, (filterRun_reachable hinit hrun).ok.gateExact hsqrt
      (filterRun_alike hstart hno hrun)⟩
  · -- the first update tells the two rows apart
    have hentry : (updateKalmanFilter libm _ first).2.covariance.toMatrix 0 0 =
        (updateKalmanFilter libm _ first).2.covariance.toMatrix 1 1 :=
      (h _ (.update _ first hinit)).alike 0 0
    obtain ⟨-, hP0, hP1⟩ := update_position libm hinit.ok first
    obtain ⟨h0, h1, hx, hy⟩ := initialized_variances libm old first
    rw [hP0, hP1, h0, h1, hx, hy] at hentry
    have hkept : (libm.stack.keptH 0 : K) = libm.stack.keptH 1 := by linarith
    exact kept_inj.mp hkept
  · exact hst.ok.gateExact hsqrt (hst.alike (kept_inj.mpr heven))

/-- The functions of `math.h` without rounding. -/
noncomputable def Libm.real : Libm ℝ where
  sqrt := Real.sqrt
  cos := Real.cos
  sin := Real.sin
  atan2 y x := Complex.arg ⟨x, y⟩
  round x := x
  stack := .apart

noncomputable def realCar : TargetTrack ℝ where
  id := 7
  type := .vehicle
  position := ⟨0, 0, 0⟩
  velocity := 1
  heading := 0
  confidence := 9 / 10
  timestamp := ⟨100, 0⟩
  sensorId := 1

theorem gate_mahalanobis_iff_real :
    (∃ t, filterRun (initializedTrack .real .zero realCar) [.predict 1, .predict 2] = some t ∧
        GateExact .real t.filterState) ∧
      ∀ st, FilterReachable Libm.real st → GateExact .real st := by
  have hsqrt : ∀ q, 0 ≤ q → Libm.real.sqrt q * Libm.real.sqrt q = q := fun _ =>
    Real.mul_self_sqrt
  obtain ⟨hrun, hbuild⟩ := gate_mahalanobis_iff hsqrt .zero realCar [.predict 1, .predict 2]
  exact ⟨hrun.mpr (by simp), hbuild.mpr Iff.rfl⟩

/-- The first update of a filter is undefined, and with `H` behind `HTSinv` it
leaves the variance 1/2 on one axis and 1/12 on the other. -/
theorem gate_broken :
    (¬∀ acts : List (FilterAct ℚ), ∃ t, filterRun rollingTrack acts = some t ∧
      GateExact .rat t.filterState) ∧
    ¬∀ st, FilterReachable Libm.ratOverrun st → GateExact .ratOverrun st := by
  constructor
  · intro h
    obtain ⟨t, hrun, -⟩ := h [.update (rollingCar ⟨101, 0⟩)]
    rw [rolling_update_undefined] at hrun
    cases hrun
  · intro h
    have hreach : FilterReachable Libm.ratOverrun (updateKalmanFilter .ratOverrun
        rollingTrack.filterState (rollingCar ⟨101, 0⟩)).2 :=
      .update _ _ (.init .zero (rollingCar ⟨100, 0⟩))
    have hentry := (h _ hreach).alike 0 0
    exact absurd hentry (by decide +kernel)

end Mec
