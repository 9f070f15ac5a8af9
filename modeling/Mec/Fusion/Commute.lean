import Mec.Fusion.Covariance
import Mec.Lib.Information

/-!
# The order of simultaneous measurements

With `H` and the innovation as they were computed, `update_kalman_filter` adds
to the information form of the filter, because its gain is the optimal one and
the covariance stays definite. A list of updates without a prediction in between
therefore ends in the same state vector and covariance in any order; only
`last_update` tells which came last. To C not even one update is defined, and a
build that loses a row of `H` keeps the variance and averages in the order of
arrival.
-/

namespace Mec

open Lib.RowMajor Lib.Covariance Lib.Information Matrix

variable {K : Type} [Field K] [LinearOrder K]

/-- Measurements handed to `update_kalman_filter` one after another. -/
def updateAll (libm : Libm K) (state : KalmanState K) (ms : List (TargetTrack K)) :
    KalmanState K :=
  ms.foldl (fun state meas => (updateKalmanFilter libm state meas).2) state

/-- The same, as far as C defines it. -/
def updateAllChecked (state : KalmanState K) (ms : List (TargetTrack K)) :
    Option (KalmanState K) :=
  ms.foldlM (fun state meas => (updateKalmanFilterChecked state meas).map Prod.snd) state

/-- The filter in information form. -/
noncomputable def KalmanState.information (st : KalmanState K) :
    Matrix (Fin 6) (Fin 6) K × Matrix (Fin 6) (Fin 1) K :=
  Lib.Information.information st.covariance.toMatrix st.state.toMatrix

section Commute

variable [IsStrictOrderedRing K] {st : KalmanState K}

theorem noise_isUnit : IsUnit (diagonal fun _ => (0.1 : K) : Matrix (Fin 2) (Fin 2) K).det :=
  isUnit_det_of_definite (definite_diagonal fun _ => by positivity)

theorem updateKalmanFilter_information {libm : Libm K} (hspares : libm.stack.Spares)
    (h : FilterOk st) (meas : TargetTrack K) :
    (updateKalmanFilter libm st meas).2.information =
      observe (observation : Flat K 2 6).toMatrix (diagonal fun _ => 0.1) st.information
        (measured meas) := by
  obtain ⟨-, -, -, G, hG, hP, hx⟩ := updateKalmanFilter_spec libm h meas
  rw [hspares.keptH_eq, Matrix.one_mul] at hP
  rw [hspares.keptY_eq, Matrix.one_mul, toMatrix_residual] at hx
  rw [toMatrix_innovationCovariance] at hG
  rw [KalmanState.information, hP, hx]
  exact information_update (isUnit_det_of_definite h.definite) noise_isUnit hG _ _

theorem updateAll_ok (libm : Libm K) (h : FilterOk st) (ms : List (TargetTrack K)) :
    FilterOk (updateAll libm st ms) ∧
      (updateAll libm st ms).initialized = st.initialized := by
  unfold updateAll
  induction ms generalizing st with
  | nil => exact ⟨h, rfl⟩
  | cons meas ms ih =>
    obtain ⟨hok, hinit⟩ := ih (update_ok libm h meas)
    exact ⟨hok, hinit.trans (updateKalmanFilter_spec libm h meas).2.1⟩

theorem updateAll_perm {libm : Libm K} (hspares : libm.stack.Spares) (h : FilterOk st)
    {ms ms' : List (TargetTrack K)} (hperm : ms.Perm ms') :
    updateAll libm st ms' =
      { updateAll libm st ms with lastUpdate := (updateAll libm st ms').lastUpdate } := by
  obtain ⟨hok, hinit⟩ := updateAll_ok libm h ms
  obtain ⟨hok', hinit'⟩ := updateAll_ok libm h ms'
  have hinfo : (updateAll libm st ms').information = (updateAll libm st ms).information :=
    foldl_perm_of_view (I := FilterOk)
      (g := fun info meas => observe (observation : Flat K 2 6).toMatrix (diagonal fun _ => 0.1)
        info (measured meas))
      (fun _ meas hst => update_ok libm hst meas)
      (fun _ meas hst => updateKalmanFilter_information hspares hst meas)
      (fun info m m' => observe_comm _ _ info (measured m) (measured m')) hperm.symm h
  obtain ⟨hcov, hstate⟩ := information_inj (isUnit_det_of_definite hok'.definite)
    (isUnit_det_of_definite hok.definite) hinfo
  have hcov' := Flat.toMatrix_inj hcov
  have hstate' := Flat.toMatrix_inj hstate
  calc updateAll libm st ms'
      = ⟨(updateAll libm st ms').state, (updateAll libm st ms').covariance,
          (updateAll libm st ms').lastUpdate, (updateAll libm st ms').initialized⟩ := rfl
    _ = { updateAll libm st ms with lastUpdate := (updateAll libm st ms').lastUpdate } := by
        rw [hstate', hcov', hinit', ← hinit]

/-- **Simultaneous measurements commute** in a build that spares `H` and the
innovation, from every reachable filter state. To C, measurements from a
reachable state give a result in every order only if there are none. -/
theorem updateAll_perm_iff (libm : Libm K) (old : FusedTrack K) (first : TargetTrack K)
    (acts : List (FilterAct K)) {t : FusedTrack K}
    (hrun : filterRun (initializedTrack libm old first) acts = some t)
    (ms : List (TargetTrack K)) :
    ((∀ ms', ms.Perm ms' → ∃ r r', updateAllChecked t.filterState ms = some r ∧
        updateAllChecked t.filterState ms' = some r' ∧
        r' = { r with lastUpdate := r'.lastUpdate }) ↔ ms = []) ∧
    (libm.stack.Spares → ∀ st, FilterReachable libm st → ∀ ms', ms.Perm ms' →
      updateAll libm st ms' =
        { updateAll libm st ms with lastUpdate := (updateAll libm st ms').lastUpdate }) := by
  have hinit : FilterReachable libm (initializedTrack libm old first).filterState :=
    .init old.filterState first
  have hok : FilterOk t.filterState := (filterRun_reachable hinit hrun).ok
  refine ⟨⟨fun h => ?_, ?_⟩, fun hspares st hst ms' hperm => updateAll_perm hspares hst.ok hperm⟩
  · obtain ⟨r, -, hr, -⟩ := h ms (.refl _)
    cases ms with
    | nil => rfl
    | cons meas ms =>
      rw [updateAllChecked, List.foldlM_cons, updateKalmanFilterChecked_eq_none hok meas] at hr
      cases hr
  · rintro rfl ms' hperm
    rw [List.nil_perm.mp hperm]
    exact ⟨t.filterState, t.filterState, rfl, rfl, rfl⟩

end Commute

def carAt (x : ℚ) : TargetTrack ℚ := { rollingCar ⟨101, 0⟩ with position := ⟨0, x, 0⟩ }

theorem updateAll_perm_iff_rolling :
    (∃ r, updateAllChecked rollingTrack.filterState [] = some r) ∧
      (updateAll .rat rollingFilter [carAt 3, carAt 6]).state =
        (updateAll .rat rollingFilter [carAt 6, carAt 3]).state := by
  obtain ⟨hdefined, -⟩ := updateAll_perm_iff .rat .zero (rollingCar ⟨100, 0⟩) [] rfl []
  obtain ⟨-, hbuild⟩ := updateAll_perm_iff .rat .zero (rollingCar ⟨100, 0⟩) [] rfl
    [carAt 3, carAt 6]
  obtain ⟨r, -, hr, -⟩ := hdefined.mpr rfl [] (.refl _)
  refine ⟨⟨r, hr⟩, ?_⟩
  rw [hbuild ⟨rfl, rfl, rfl, rfl⟩ _ rollingFilter_reachable _ (.swap _ _ [])]

/-- One measurement is undefined already, and with `H` behind `HTSinv` the
positions 3 and 6 end elsewhere than 6 and 3. -/
theorem updateAll_order_matters :
    (¬∀ ms ms' : List (TargetTrack ℚ), ms.Perm ms' →
      ∃ r r', updateAllChecked rollingTrack.filterState ms = some r ∧
        updateAllChecked rollingTrack.filterState ms' = some r' ∧
        r' = { r with lastUpdate := r'.lastUpdate }) ∧
    (updateAll .ratOverrun rollingTrack.filterState [carAt 3, carAt 6]).x ≠
      (updateAll .ratOverrun rollingTrack.filterState [carAt 6, carAt 3]).x := by
  refine ⟨fun h => ?_, by decide +kernel⟩
  obtain ⟨r, -, hr, -⟩ := h [carAt 3] [carAt 3] (.refl _)
  have hnone : updateAllChecked rollingTrack.filterState [carAt 3] = none :=
    Option.isNone_iff_eq_none.mp (by decide +kernel)
  rw [hnone] at hr
  cases hr

end Mec
