import Mec.Fusion.Gate

/-!
# An update contracts

In a build that spares `H` and the innovation, an update takes `K S Kᵀ` off the
covariance, and as the axes are uncorrelated, each position is a scalar filter
of its own: variance and residual are multiplied by `R / (P + R)`. An axis that
loses its row of `H` keeps its variance, and one that loses its innovation stays
where it is. The covariance grows in no build.
-/

namespace Mec

open Lib.RowMajor Lib.Covariance Matrix

variable {K : Type} [Field K] [LinearOrder K]

/-- What an update of `st` by `meas` is to do: it is accepted, lowers the covariance in
the Loewner order, leaves both position variances below the measurement noise and
multiplies the residual of either axis by `0.1 / (p + 0.1)`, strictly between 0 and 1. -/
structure Contracts (st : KalmanState K) (meas : TargetTrack K) (r : Int × KalmanState K) :
    Prop where
  code : r.1 = 0
  symm : (st.covariance.toMatrix - r.2.covariance.toMatrix).IsSymm
  nonneg : ∀ v, 0 ≤ v ⬝ᵥ ((st.covariance.toMatrix - r.2.covariance.toMatrix) *ᵥ v)
  below : r.2.covariance.toMatrix 0 0 < 0.1 ∧ r.2.covariance.toMatrix 1 1 < 0.1
  x : meas.position.longitude - r.2.x =
    0.1 / (st.covariance.toMatrix 0 0 + 0.1) * (meas.position.longitude - st.x)
  y : meas.position.latitude - r.2.y =
    0.1 / (st.covariance.toMatrix 1 1 + 0.1) * (meas.position.latitude - st.y)
  factors : ∀ i : Fin 2, 0 < 0.1 / (st.covariance.toMatrix (components (0, i))
      (components (0, i)) + 0.1) ∧
    0.1 / (st.covariance.toMatrix (components (0, i)) (components (0, i)) + 0.1) < 1

variable [IsStrictOrderedRing K] {st : KalmanState K}

theorem scalar_contracts {p r : K} (hp : 0 < p) (hr : 0 < r) :
    1 - 1 * (p / (p + r)) = r / (p + r) ∧ 0 < r / (p + r) ∧ r / (p + r) < 1 ∧
      r / (p + r) * p < r := by
  have hv : 0 < p + r := add_pos hp hr
  refine ⟨one_sub_gain hv.ne', div_pos hr hv, (div_lt_one hv).mpr (lt_add_of_pos_left r hp), ?_⟩
  calc r / (p + r) * p = r * (p / (p + r)) := by ring
    _ < r * 1 := mul_lt_mul_of_pos_left ((div_lt_one hv).mpr (lt_add_of_pos_right p hr)) hr
    _ = r := mul_one r

/-- In every build an update lowers the covariance. -/
theorem update_loewner (libm : Libm K) (h : FilterOk st) (meas : TargetTrack K) :
    (st.covariance.toMatrix - (updateKalmanFilter libm st meas).2.covariance.toMatrix).IsSymm ∧
      ∀ v, 0 ≤ v ⬝ᵥ ((st.covariance.toMatrix -
        (updateKalmanFilter libm st meas).2.covariance.toMatrix) *ᵥ v) := by
  obtain ⟨-, -, -, G, hG, hP, -⟩ := updateKalmanFilter_spec libm h meas
  have hcomm := keptH_comm libm.stack h.apart
  rw [toMatrix_innovationCovariance] at hG hcomm
  rw [hP]
  exact h.definite.update_partial_le (definite_diagonal fun _ => by positivity) hG
    (isSymm_diagonal _) (keptH_projection libm.stack) hcomm

theorem contracts_of_spares {libm : Libm K} (hspares : libm.stack.Spares) (h : FilterOk st)
    (meas : TargetTrack K) : Contracts st meas (updateKalmanFilter libm st meas) := by
  have htenth : (0 : K) < 0.1 := by positivity
  obtain ⟨⟨hH0, hH1⟩, hY0, hY1⟩ := (libm.stack.spares_iff (K := K)).mp hspares
  obtain ⟨⟨hdx, hdy⟩, hP0, hP1⟩ := update_position libm h meas
  obtain ⟨hx, hx0, hx1, hxr⟩ := scalar_contracts (h.definite.diag_pos 0) htenth
  obtain ⟨hy, hy0, hy1, hyr⟩ := scalar_contracts (h.definite.diag_pos 1) htenth
  have hvx : varX st = st.covariance.toMatrix 0 0 + 0.1 := rfl
  have hvy : varY st = st.covariance.toMatrix 1 1 + 0.1 := rfl
  rw [hvx] at hdx hP0
  rw [hvy] at hdy hP1
  rw [hY0, hx] at hdx
  rw [hY1, hy] at hdy
  rw [hH0, hx] at hP0
  rw [hH1, hy] at hP1
  exact {
    code := (updateKalmanFilter_spec libm h meas).1
    symm := (update_loewner libm h meas).1
    nonneg := (update_loewner libm h meas).2
    below := ⟨hP0 ▸ hxr, hP1 ▸ hyr⟩
    x := hdx
    y := hdy
    factors := fun i => by
      fin_cases i
      · exact ⟨hx0, hx1⟩
      · exact ⟨hy0, hy1⟩ }

theorem spares_of_contracts {libm : Libm K} (old : FusedTrack K) (first : TargetTrack K)
    (h : ∀ meas, Contracts (initializedTrack libm old first).filterState meas
      (updateKalmanFilter libm (initializedTrack libm old first).filterState meas)) :
    libm.stack.Spares := by
  obtain ⟨st, hst⟩ : ∃ st, st = (initializedTrack libm old first).filterState := ⟨_, rfl⟩
  obtain ⟨h0, h1, hvx, hvy⟩ := initialized_variances libm old first
  have hok : FilterOk st := by
    rw [hst]
    exact initialize_ok libm old.filterState first
  obtain ⟨meas, hlon, hlat⟩ : ∃ meas : TargetTrack K,
      meas.position.longitude - st.x = 1 ∧ meas.position.latitude - st.y = 1 :=
    ⟨{ first with position := ⟨st.y + 1, st.x + 1, 0⟩ }, add_sub_cancel_left _ _,
      add_sub_cancel_left _ _⟩
  rw [← hst] at h h0 h1 hvx hvy
  obtain ⟨-, -, -, ⟨hb0, hb1⟩, hx, hy, -⟩ := h meas
  obtain ⟨⟨hdx, hdy⟩, hP0, hP1⟩ := update_position libm hok meas
  rw [hdx, hlon, h0, hvx] at hx
  rw [hdy, hlat, h1, hvy] at hy
  rw [hP0, h0, hvx] at hb0
  rw [hP1, h1, hvy] at hb1
  have hkept {k : K} (hk : k = 0 ∨ k = 1) (hlt : (1 - k * (0.5 / (0.5 + 0.1))) * 0.5 < 0.1) :
      k = 1 := by
    refine hk.resolve_left fun h0 => ?_
    rw [h0] at hlt
    norm_num at hlt
  refine (libm.stack.spares_iff (K := K)).mpr ⟨⟨?_, ?_⟩, ?_, ?_⟩
  · exact hkept (kept_eq_zero_or_one _ _) hb0
  · exact hkept (kept_eq_zero_or_one _ _) hb1
  · linarith
  · linarith

/-- **An update contracts** in exactly the builds that spare `H` and the innovation, in
every reachable state and for every measurement. To C no update of a reachable filter
does, as none is defined. -/
theorem update_contracts_iff (libm : Libm K) (old : FusedTrack K) (first : TargetTrack K)
    (acts : List (FilterAct K)) {t : FusedTrack K}
    (hrun : filterRun (initializedTrack libm old first) acts = some t) :
    (∀ meas, ¬∃ r, updateKalmanFilterChecked t.filterState meas = some r ∧
      Contracts t.filterState meas r) ∧
    ((∀ st, FilterReachable libm st → ∀ meas,
        Contracts st meas (updateKalmanFilter libm st meas)) ↔ libm.stack.Spares) := by
  have hinit : FilterReachable libm (initializedTrack libm old first).filterState :=
    .init old.filterState first
  refine ⟨fun meas => ?_, fun h => spares_of_contracts old first (h _ hinit),
    fun hspares st hst meas => contracts_of_spares hspares hst.ok meas⟩
  rintro ⟨r, hr, -⟩
  rw [updateKalmanFilterChecked_eq_none (filterRun_reachable hinit hrun).ok meas] at hr
  cases hr

theorem update_contracts_iff_rolling :
    Contracts rollingFilter (rollingCar ⟨102, 0⟩)
      (updateKalmanFilter .rat rollingFilter (rollingCar ⟨102, 0⟩)) := by
  obtain ⟨-, hbuild⟩ := update_contracts_iff .rat .zero (rollingCar ⟨100, 0⟩) [.predict (1 / 20)]
    rfl
  exact hbuild.mpr ⟨rfl, rfl, rfl, rfl⟩ _ rollingFilter_reachable (rollingCar ⟨102, 0⟩)

/-- The first update of a filter is undefined, and with `H` behind `HTSinv` it leaves
the variance at 1/2. -/
theorem update_no_contraction :
    (¬∀ meas, ∃ r, updateKalmanFilterChecked rollingTrack.filterState meas = some r ∧
      Contracts rollingTrack.filterState meas r) ∧
    (updateKalmanFilter .ratOverrun rollingTrack.filterState
      (rollingCar ⟨101, 0⟩)).2.covariance.toMatrix 0 0 = 1 / 2 := by
  refine ⟨fun h => ?_, by decide +kernel⟩
  obtain ⟨r, hr, -⟩ := h (rollingCar ⟨101, 0⟩)
  have hnone : (updateKalmanFilterChecked rollingTrack.filterState (rollingCar ⟨101, 0⟩)).isNone :=
    by decide +kernel
  rw [hr] at hnone
  cases hnone

end Mec
