import Mec.Fusion.Axes
import Mec.Lib.Covariance

/-!
# The filter's covariance stays definite

Every state a build's filter reaches has a symmetric positive definite
covariance with no entry across the axes. Prediction is `Definite.propagate`
with `Q = dt/100`. The update is `Definite.update_partial`: its gain equation
holds because `mat_inv_2x2` returns the exact inverse of `S`, and whichever
rows of `H` the overrun of `HTSinv` wipes out, that projection commutes with
`S`, which is diagonal. So the innovation covariance is far from singular and an
update is never refused, which also means that it always comes to the overrun:
to C, the defined runs are those without an update (`filterRun_isSome_iff`).
-/

namespace Mec

open Lib.RowMajor Lib.Axes Lib.Covariance Matrix

variable {K : Type} [Field K]

theorem toMatrix_innovationCovariance (st : KalmanState K) :
    (innovationCovariance st).toMatrix =
      (observation : Flat K 2 6).toMatrix * st.covariance.toMatrix *
          (observation : Flat K 2 6).toMatrixᵀ +
        diagonal fun _ => 0.1 := by
  rw [innovationCovariance, toMatrix_matAdd, toMatrix_matMul, toMatrix_matMul,
    toMatrix_matTranspose, toMatrix_measurementNoise]

theorem innovationCovariance_eq (st : KalmanState K) :
    (innovationCovariance st).toMatrix =
      !![st.covariance.toMatrix 0 0 + 0.1, st.covariance.toMatrix 0 1;
         st.covariance.toMatrix 1 0, st.covariance.toMatrix 1 1 + 0.1] := by
  rw [toMatrix_innovationCovariance, toMatrix_observation]
  ext i j
  simp only [Matrix.add_apply, Matrix.mul_apply, Fin.sum_univ_six, transpose_apply]
  fin_cases i <;> fin_cases j <;> simp

/-- No component of one axis is correlated with one of the other. -/
def AxesApart (st : KalmanState K) : Prop :=
  ∃ B : Fin 2 → Matrix (Fin 3) (Fin 3) K, st.covariance.toMatrix = onAxes components components B

section Apart

variable {st : KalmanState K}

theorem AxesApart.uncorrelated (h : AxesApart st) :
    st.covariance.toMatrix 0 1 = 0 ∧ st.covariance.toMatrix 1 0 = 0 := by
  obtain ⟨B, hB⟩ := h
  rw [hB]
  exact ⟨onAxes_apply _ 0 0 0 1, onAxes_apply _ 0 0 1 0⟩

theorem AxesApart.innovation_diagonal (h : AxesApart st) :
    (innovationCovariance st).toMatrix = diagonal ![varX st, varY st] := by
  rw [innovationCovariance_eq, h.uncorrelated.1, h.uncorrelated.2]
  ext i j
  fin_cases i <;> fin_cases j <;> rfl

end Apart

/-- The innovation covariance on one axis. -/
def innovationAxis (B : Matrix (Fin 3) (Fin 3) K) : Matrix (Fin 1) (Fin 1) K :=
  (observationAxis : Matrix (Fin 1) (Fin 3) K) * B *
      (observationAxis : Matrix (Fin 1) (Fin 3) K)ᵀ +
    diagonal fun _ => (0.1 : K)

theorem innovation_onAxes {st : KalmanState K} {B : Fin 2 → Matrix (Fin 3) (Fin 3) K}
    (hB : st.covariance.toMatrix = onAxes components components B) :
    (innovationCovariance st).toMatrix =
      onAxes measuredAxes measuredAxes fun x => innovationAxis (B x) := by
  rw [toMatrix_innovationCovariance, hB, observation_onAxes, diagonal_measuredAxes,
    onAxes_transpose, onAxes_mul, onAxes_mul, onAxes_add]
  rfl

/-- Prediction on one axis. -/
def predictAxis (dt : K) (B : Matrix (Fin 3) (Fin 3) K) : Matrix (Fin 3) (Fin 3) K :=
  transitionAxis dt * B * (transitionAxis dt)ᵀ + diagonal fun _ => 0.01 * dt

/-- Update on one axis, where `k` is 0 if its row of `H` is wiped out. -/
noncomputable def updateAxis (k : K) (B : Matrix (Fin 3) (Fin 3) K) :
    Matrix (Fin 3) (Fin 3) K :=
  (1 - B * (observationAxis : Matrix (Fin 1) (Fin 3) K)ᵀ * (innovationAxis B)⁻¹ *
    ((diagonal fun _ => k : Matrix (Fin 1) (Fin 1) K) *
      (observationAxis : Matrix (Fin 1) (Fin 3) K))) * B

variable [LinearOrder K]

/-- The states of a filter that was initialised and then predicted and updated
in any order, in a build with the stack of `libm`. -/
inductive FilterReachable (libm : Libm K) : KalmanState K → Prop where
  | init (state : KalmanState K) (track : TargetTrack K) :
      FilterReachable libm (initializeKalmanFilter libm state track).2
  | predict (track : FusedTrack K) (dt : K) : FilterReachable libm track.filterState →
      FilterReachable libm (predictTrackState track dt).2.filterState
  | update (state : KalmanState K) (meas : TargetTrack K) : FilterReachable libm state →
      FilterReachable libm (updateKalmanFilter libm state meas).2

/-- What every reachable filter state satisfies. -/
structure FilterOk (st : KalmanState K) : Prop where
  definite : Definite st.covariance.toMatrix
  apart : AxesApart st
  initialized : st.initialized ≠ 0

theorem predictTrackState_neg {track : FusedTrack K} {dt : K} (h : dt ≤ 0) :
    predictTrackState track dt = (-1, track) := if_pos h

theorem predictTrackState_covariance {track : FusedTrack K} {dt : K} (h : 0 < dt) :
    (predictTrackState track dt).2.filterState.covariance.toMatrix =
      (transition dt).toMatrix * track.filterState.covariance.toMatrix * (transition dt).toMatrixᵀ +
        diagonal fun _ => 0.01 * dt := by
  rw [predictTrackState, if_neg h.not_ge]
  simp only [toMatrix_onDiagonal_add, toMatrix_matMul, toMatrix_matTranspose]

theorem predict_onAxes {track : FusedTrack K} {dt : K} (h : 0 < dt)
    {B : Fin 2 → Matrix (Fin 3) (Fin 3) K}
    (hB : track.filterState.covariance.toMatrix = onAxes components components B) :
    (predictTrackState track dt).2.filterState.covariance.toMatrix =
      onAxes components components fun x => predictAxis dt (B x) := by
  rw [predictTrackState_covariance h, hB, transition_onAxes, diagonal_components,
    onAxes_transpose, onAxes_mul, onAxes_mul, onAxes_add]
  rfl

section Definite

variable [IsStrictOrderedRing K] {st : KalmanState K}

theorem initialize_ok (libm : Libm K) (state : KalmanState K) (track : TargetTrack K) :
    FilterOk (initializeKalmanFilter libm state track).2 := by
  refine ⟨?_, ⟨_, initial_onAxes libm state track⟩, one_ne_zero⟩
  have hP : (initializeKalmanFilter libm state track).2.covariance.toMatrix =
      diagonal ![0.5, 0.5, 2.0, 2.0, 5.0, 5.0] := by
    ext i j
    fin_cases i <;> fin_cases j <;>
      simp [initializeKalmanFilter, Flat.toMatrix_apply, Flat.entry_set, Flat.entry_fill]
  rw [hP]
  refine definite_diagonal fun i => ?_
  fin_cases i <;> simp <;> norm_num

theorem predict_ok {track : FusedTrack K} (h : FilterOk track.filterState) (dt : K) :
    FilterOk (predictTrackState track dt).2.filterState := by
  rcases le_or_gt dt 0 with hdt | hdt
  · rw [predictTrackState_neg hdt]
    exact h
  · have hinit : (predictTrackState track dt).2.filterState.initialized =
        track.filterState.initialized := by rw [predictTrackState, if_neg hdt.not_ge]
    obtain ⟨B, hB⟩ := h.apart
    refine ⟨?_, ⟨_, predict_onAxes hdt hB⟩, hinit.trans_ne h.initialized⟩
    rw [predictTrackState_covariance hdt]
    exact h.definite.propagate (definite_diagonal fun _ => by positivity) _

theorem innovation_det (h : Definite st.covariance.toMatrix) :
    1 / 100 ≤ (innovationCovariance st).toMatrix.det := by
  have h0 := h.diag_pos 0
  have h1 := h.diag_pos 1
  have hminor := h.minor_pos (show (0 : Fin 6) ≠ 1 by decide)
  rw [innovationCovariance_eq, det_fin_two_of, h.symm.apply 0 1]
  linear_combination hminor + 0.1 * h0 + 0.1 * h1

/-- The singular branch of `mat_inv_2x2` is not taken. -/
theorem innovation_invertible (h : Definite st.covariance.toMatrix) :
    matInv2x2 (innovationCovariance st) ≠ none := by
  rw [Ne, matInv2x2_eq_none, not_lt]
  have hdet := innovation_det h
  refine le_trans ?_ (hdet.trans (le_abs_self _))
  norm_num

/-- The vector `z` of `update_kalman_filter`. -/
def measured (meas : TargetTrack K) : Matrix (Fin 2) (Fin 1) K :=
  !![meas.position.longitude; meas.position.latitude]

omit [LinearOrder K] [IsStrictOrderedRing K] in
theorem toMatrix_residual (st : KalmanState K) (meas : TargetTrack K) :
    (residual st meas).toMatrix =
      measured meas - (observation : Flat K 2 6).toMatrix * st.state.toMatrix := by
  rw [toMatrix_observation]
  ext i j
  simp only [Matrix.sub_apply, Matrix.mul_apply, Fin.sum_univ_six, measured]
  fin_cases i <;> fin_cases j <;> simp <;> rfl

/-- An update is accepted. The gain `G` solves `G S = P Hᵀ`; the covariance is
multiplied by `I - G H` and the state moved by `G` times the innovation, each
with the rows that the build keeps. -/
theorem updateKalmanFilter_spec (libm : Libm K) (h : FilterOk st) (meas : TargetTrack K) :
    (updateKalmanFilter libm st meas).1 = 0 ∧
      (updateKalmanFilter libm st meas).2.initialized = st.initialized ∧
      (updateKalmanFilter libm st meas).2.lastUpdate = meas.timestamp ∧
      ∃ G : Matrix (Fin 6) (Fin 2) K,
        G * (innovationCovariance st).toMatrix =
          st.covariance.toMatrix * (observation : Flat K 2 6).toMatrixᵀ ∧
        (updateKalmanFilter libm st meas).2.covariance.toMatrix =
          (1 - G * ((diagonal libm.stack.keptH : Matrix (Fin 2) (Fin 2) K) *
            (observation : Flat K 2 6).toMatrix)) * st.covariance.toMatrix ∧
        (updateKalmanFilter libm st meas).2.state.toMatrix =
          st.state.toMatrix + G * ((diagonal libm.stack.keptY : Matrix (Fin 2) (Fin 2) K) *
            (residual st meas).toMatrix) := by
  obtain ⟨sInv, hinv⟩ := Option.ne_none_iff_exists'.mp (innovation_invertible h.definite)
  simp only [updateKalmanFilter, if_neg h.initialized, hinv]
  refine ⟨trivial, trivial, trivial,
    st.covariance.toMatrix * ((observation : Flat K 2 6).toMatrixᵀ * sInv.toMatrix), ?_, ?_, ?_⟩
  · rw [Matrix.mul_assoc, Matrix.mul_assoc, matInv2x2_mul hinv, Matrix.mul_one]
  · simp only [toMatrix_matMul, toMatrix_identityMinus, toMatrix_matTranspose,
      toMatrix_overrun_observation]
  · simp only [toMatrix_matAdd, toMatrix_matMul, toMatrix_matTranspose,
      toMatrix_overrun_residual]

/-- An update keeps the axes apart: the gain is a quotient by the innovation
covariance. -/
theorem update_onAxes (libm : Libm K) (h : FilterOk st) (meas : TargetTrack K)
    {B : Fin 2 → Matrix (Fin 3) (Fin 3) K}
    (hB : st.covariance.toMatrix = onAxes components components B) :
    (updateKalmanFilter libm st meas).2.covariance.toMatrix =
      onAxes components components fun x => updateAxis (libm.stack.keptH x) (B x) := by
  obtain ⟨-, -, -, G, hG, hP, -⟩ := updateKalmanFilter_spec libm h meas
  have hdiag (x : Fin 2) : st.covariance.toMatrix (components (0, x)) (components (0, x)) =
      B x 0 0 := by
    rw [hB, onAxes_apply, if_pos rfl]
  have hunit (x : Fin 2) : IsUnit (innovationAxis (B x)).det := by
    have hentry : innovationAxis (B x) 0 0 = B x 0 0 + 0.1 := by
      simp [innovationAxis, observationAxis, vecMul, dotProduct, Matrix.mul_apply,
        Fin.sum_univ_three]
    rw [det_fin_one, hentry, isUnit_iff_ne_zero, ← hdiag]
    exact (add_pos (h.definite.diag_pos _) (by positivity)).ne'
  rw [innovation_onAxes hB, hB, observation_onAxes, onAxes_transpose, onAxes_mul] at hG
  have hgain := eq_onAxes_of_mul_eq hunit hG
  rw [hP, hgain, hB, observation_onAxes, diagonal_measuredAxes, onAxes_mul, onAxes_mul,
    ← onAxes_one components, onAxes_sub, onAxes_mul]
  rfl

omit [LinearOrder K] [IsStrictOrderedRing K] in
theorem keptH_comm (stack : StackLayout) (h : AxesApart st) :
    (diagonal stack.keptH : Matrix (Fin 2) (Fin 2) K) * (innovationCovariance st).toMatrix =
      (innovationCovariance st).toMatrix * diagonal stack.keptH := by
  rw [h.innovation_diagonal, diagonal_mul_diagonal, diagonal_mul_diagonal]
  exact congrArg diagonal (funext fun x => mul_comm _ _)

omit [LinearOrder K] [IsStrictOrderedRing K] in
theorem keptH_projection (stack : StackLayout) :
    (diagonal stack.keptH : Matrix (Fin 2) (Fin 2) K) * diagonal stack.keptH =
      diagonal stack.keptH := by
  rw [diagonal_mul_diagonal]
  exact congrArg diagonal (funext stack.keptH_mul_self)

theorem update_ok (libm : Libm K) (h : FilterOk st) (meas : TargetTrack K) :
    FilterOk (updateKalmanFilter libm st meas).2 := by
  obtain ⟨-, hinit, -, G, hG, hP, -⟩ := updateKalmanFilter_spec libm h meas
  obtain ⟨B, hB⟩ := h.apart
  refine ⟨?_, ⟨_, update_onAxes libm h meas hB⟩, hinit.trans_ne h.initialized⟩
  have hcomm := keptH_comm libm.stack h.apart
  rw [toMatrix_innovationCovariance] at hG hcomm
  rw [hP]
  exact h.definite.update_partial (definite_diagonal fun _ => by positivity) hG
    (isSymm_diagonal _) (keptH_projection libm.stack) hcomm

/-- **Invariant** of every reachable filter. -/
theorem FilterReachable.ok {libm : Libm K} (h : FilterReachable libm st) : FilterOk st := by
  induction h with
  | init state track => exact initialize_ok libm state track
  | predict track dt _ ih => exact predict_ok ih dt
  | update state meas _ ih => exact update_ok libm ih meas

end Definite

/-! ## Defined runs -/

/-- A call on a filter. -/
inductive FilterAct (K : Type) where
  | predict (dt : K)
  | update (meas : TargetTrack K)

/-- The call and its return code; `none` is undefined behaviour. -/
def filterStep (track : FusedTrack K) : FilterAct K → Option (Int × FusedTrack K)
  | .predict dt => some (predictTrackState track dt)
  | .update meas => (updateKalmanFilterChecked track.filterState meas).map fun r =>
      (r.1, { track with filterState := r.2 })

def filterRun (track : FusedTrack K) : List (FilterAct K) → Option (FusedTrack K)
  | [] => some track
  | act :: acts => (filterStep track act).bind fun r => filterRun r.2 acts

/-- A track whose filter has just been initialised. -/
def initializedTrack (libm : Libm K) (old : FusedTrack K) (track : TargetTrack K) :
    FusedTrack K :=
  { old with filterState := (initializeKalmanFilter libm old.filterState track).2 }

section Defined

variable [IsStrictOrderedRing K] {st : KalmanState K} {track t : FusedTrack K}
  {acts : List (FilterAct K)}

/-- A working filter comes to the overrun at every update. -/
theorem updateKalmanFilterChecked_eq_none (h : FilterOk st) (meas : TargetTrack K) :
    updateKalmanFilterChecked st meas = none := by
  rw [updateKalmanFilterChecked_eq, if_neg]
  rintro (hinit | hinv)
  · exact h.initialized hinit
  · exact innovation_invertible h.definite hinv

theorem filterRun_reachable {libm : Libm K} (h : FilterReachable libm track.filterState)
    (hrun : filterRun track acts = some t) : FilterReachable libm t.filterState := by
  induction acts generalizing track with
  | nil =>
    obtain rfl := Option.some.inj hrun
    exact h
  | cons act acts ih =>
    obtain ⟨r, hstep, hrest⟩ := Option.bind_eq_some_iff.mp hrun
    cases act with
    | predict dt =>
      obtain rfl := Option.some.inj hstep
      exact ih (.predict track dt h) hrest
    | update meas =>
      rw [filterStep, updateKalmanFilterChecked_eq_none h.ok meas] at hstep
      cases hstep

/-- **The defined runs** are those without an update. -/
theorem filterRun_isSome_iff (h : FilterOk track.filterState) :
    (∃ t, filterRun track acts = some t) ↔ ∀ meas, .update meas ∉ acts := by
  induction acts generalizing track with
  | nil => exact ⟨fun _ _ => List.not_mem_nil, fun _ => ⟨track, rfl⟩⟩
  | cons act acts ih =>
    cases act with
    | predict dt =>
      have hrest : filterRun track (.predict dt :: acts) =
          filterRun (predictTrackState track dt).2 acts := rfl
      rw [hrest, ih (predict_ok h dt)]
      simp
    | update meas =>
      rw [filterRun, filterStep, updateKalmanFilterChecked_eq_none h meas]
      refine ⟨?_, fun hno => absurd List.mem_cons_self (hno meas)⟩
      rintro ⟨t, ht⟩
      cases ht

/-- What the rest of the filter relies on. -/
structure CovarianceOk (st : KalmanState K) : Prop where
  symm : st.covariance.toMatrix.IsSymm
  pos : ∀ v, v ≠ 0 → 0 < v ⬝ᵥ (st.covariance.toMatrix *ᵥ v)
  det : 1 / 100 ≤ (innovationCovariance st).toMatrix.det
  invertible : matInv2x2 (innovationCovariance st) ≠ none
  varX : 0.1 < varX st
  varY : 0.1 < varY st

theorem FilterOk.covarianceOk (h : FilterOk st) : CovarianceOk st where
  symm := h.definite.symm
  pos := h.definite.pos
  det := innovation_det h.definite
  invertible := innovation_invertible h.definite
  varX := lt_add_of_pos_left _ (h.definite.diag_pos 0)
  varY := lt_add_of_pos_left _ (h.definite.diag_pos 1)

/-- **The covariance is symmetric and positive definite**, `S` is never singular
and an update never refused, after exactly the runs without an update: an
update writes behind `HTSinv`. In every build that goes on from there, whatever
`H` and `y` lose, the same holds in every state. -/
theorem covariance_definite_iff (libm : Libm K) (old : FusedTrack K) (first : TargetTrack K)
    (acts : List (FilterAct K)) :
    (((∃ t, filterRun (initializedTrack libm old first) acts = some t ∧
          CovarianceOk t.filterState) ∧
        ∀ before meas after, acts = before ++ .update meas :: after →
          ∃ t t', filterRun (initializedTrack libm old first) before = some t ∧
            filterStep t (.update meas) = some (0, t')) ↔
      ∀ meas, .update meas ∉ acts) ∧
    ∀ st, FilterReachable libm st →
      CovarianceOk st ∧ ∀ meas, (updateKalmanFilter libm st meas).1 = 0 := by
  have hinit : FilterReachable libm (initializedTrack libm old first).filterState :=
    .init old.filterState first
  refine ⟨⟨?_, fun hno => ⟨?_, fun before meas after heq => ?_⟩⟩, fun st hst =>
    ⟨hst.ok.covarianceOk, fun meas => (updateKalmanFilter_spec libm hst.ok meas).1⟩⟩
  · rintro ⟨⟨t, hrun, -⟩, -⟩
    exact (filterRun_isSome_iff hinit.ok).mp ⟨t, hrun⟩
  · obtain ⟨t, hrun⟩ := (filterRun_isSome_iff hinit.ok).mpr hno
    exact ⟨t, hrun, (filterRun_reachable hinit hrun).ok.covarianceOk⟩
  · refine absurd ?_ (hno meas)
    rw [heq]
    exact List.mem_append_right _ List.mem_cons_self

end Defined

def rollingTrack : FusedTrack ℚ := initializedTrack .rat .zero (rollingCar ⟨100, 0⟩)

def rollingFilter : KalmanState ℚ :=
  (updateKalmanFilter .rat (predictTrackState rollingTrack (1 / 20)).2.filterState
    (rollingCar ⟨101, 0⟩)).2

theorem rollingFilter_reachable : FilterReachable .rat rollingFilter := by
  have hinit : FilterReachable .rat rollingTrack.filterState := .init .zero (rollingCar ⟨100, 0⟩)
  exact .update _ (rollingCar ⟨101, 0⟩) (.predict rollingTrack (1 / 20) hinit)

theorem covariance_definite_iff_rolling :
    (∃ t, filterRun rollingTrack [.predict (1 / 20), .predict 0] = some t ∧
        CovarianceOk t.filterState) ∧
      CovarianceOk rollingFilter ∧ ∀ meas, (updateKalmanFilter .rat rollingFilter meas).1 = 0 := by
  obtain ⟨hrun, hbuild⟩ := covariance_definite_iff .rat .zero (rollingCar ⟨100, 0⟩)
    [.predict (1 / 20), .predict 0]
  exact ⟨(hrun.mpr (by simp)).1, hbuild _ rollingFilter_reachable⟩

theorem rolling_update_undefined :
    filterRun rollingTrack [.update (rollingCar ⟨101, 0⟩)] = none :=
  Option.isNone_iff_eq_none.mp (by decide +kernel)

/-- The first update of any filter is undefined. -/
theorem covariance_undefined :
    ¬∀ acts : List (FilterAct ℚ), ∃ t, filterRun rollingTrack acts = some t ∧
      CovarianceOk t.filterState := by
  intro h
  obtain ⟨t, hrun, -⟩ := h [.update (rollingCar ⟨101, 0⟩)]
  rw [rolling_update_undefined] at hrun
  cases hrun

end Mec
