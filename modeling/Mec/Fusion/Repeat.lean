import Mec.Fusion.Gate
import Mec.Fusion.History
import Mec.Fusion.Identity
import Mec.Lib.Argmin

/-!
# A repeated detection

Absorbing a detection moves a track towards it and shrinks the covariance the
distance is measured by. The residual shrinks faster: per axis the factors are
`R / (P + R)` for the residual and at least `R / (P + R)` for the divisor
(`axis_shrinks`). So the same detection is afterwards at most as far from that
track, exactly as far from the others, and `fusion_processor_add_tracks`
associates it with that track again. That is so in every build whose update does
not shrink a variance and lose the innovation of that axis; to C, the update the
second delivery comes to is undefined.
-/

namespace Mec

open Lib.RowMajor Lib.Lts Lib.Argmin Matrix

variable {K : Type} [Field K] [LinearOrder K]

/-! ## Association over the live tracks -/

/-- `t` at index `j` is the first nearest of the tracks `l` below `bound`. -/
structure Nearest (libm : Libm K) (bound : K) (l : List (FusedTrack K)) (meas : TargetTrack K)
    (j : Nat) (t : FusedTrack K) : Prop where
  at_index : l[j]? = some t
  near : calculateTrackDistance libm t meas < bound
  before : ∀ k s, l[k]? = some s → k < j →
    calculateTrackDistance libm t meas < calculateTrackDistance libm s meas
  after : ∀ k s, l[k]? = some s → j < k →
    calculateTrackDistance libm t meas ≤ calculateTrackDistance libm s meas

section Association

variable {libm : Libm K} {p : FusionProcessor K} {meas : TargetTrack K}

omit [Field K] [LinearOrder K] in
theorem live_getElem? {k : Nat} {s : FusedTrack K} :
    p.live[k]? = some s ↔ ∃ h : k < p.trackCount, p.track k h = s := by
  constructor
  · intro hk
    have h : k < p.trackCount := by
      rw [← p.live_length]
      exact (List.getElem?_eq_some_iff.mp hk).1
    exact ⟨h, Option.some.inj ((p.track_eq_live k h).symm.trans hk)⟩
  · rintro ⟨h, rfl⟩
    exact p.track_eq_live k h

theorem associate_eq_some {j : Fin p.trackCount} :
    associate libm p meas = some j ↔
      Nearest libm p.config.associationThreshold p.live meas j (p.track j j.isLt) := by
  refine firstBelow_finRange.trans ⟨?_, fun h => ⟨h.near, fun k hk => ?_, fun k hk => ?_⟩⟩
  · rintro ⟨hnear, hbefore, hafter⟩
    refine ⟨p.track_eq_live j j.isLt, hnear, fun k s hs hk => ?_, fun k s hs hk => ?_⟩
    · obtain ⟨hlt, rfl⟩ := live_getElem?.mp hs
      exact hbefore ⟨k, hlt⟩ hk
    · obtain ⟨hlt, rfl⟩ := live_getElem?.mp hs
      exact hafter ⟨k, hlt⟩ hk
  · exact h.before k _ (p.track_eq_live k k.isLt) hk
  · exact h.after k _ (p.track_eq_live k k.isLt) hk

theorem associate_none_iff :
    associate libm p meas = none ↔
      ∀ t ∈ p.live, p.config.associationThreshold ≤ calculateTrackDistance libm t meas := by
  refine firstBelow_finRange_none.trans ⟨fun h t ht => ?_, fun h j => ?_⟩
  · obtain ⟨k, hk⟩ := List.mem_iff_getElem?.mp ht
    obtain ⟨hlt, rfl⟩ := live_getElem?.mp hk
    exact h ⟨k, hlt⟩
  · exact h _ (List.mem_of_getElem? (p.track_eq_live j j.isLt))

theorem addDetection_nearest (sensorId : Int) {j : Nat} {t : FusedTrack K}
    (h : Nearest libm p.config.associationThreshold p.live meas j t) :
    (addDetection libm sensorId p meas).2 = .absorbed t.globalId meas ∧
      (addDetection libm sensorId p meas).1.live = p.live.set j (absorb libm sensorId t meas) := by
  obtain ⟨hlt, rfl⟩ := live_getElem?.mp h.at_index
  have hassoc : associate libm p meas = some ⟨j, hlt⟩ := associate_eq_some.mpr h
  unfold addDetection placeDetection
  rw [hassoc]
  exact ⟨rfl, p.setTrack_live _ _⟩

theorem addDetection_full (sensorId : Int) (hnone : associate libm p meas = none)
    (hfull : ¬p.trackCount < p.trackCapacity) :
    addDetection libm sensorId p meas = (p, .dropped meas) := by
  unfold addDetection placeDetection
  rw [hnone]
  exact dif_neg hfull

theorem Nearest.set {bound : K} {l : List (FusedTrack K)} {j : Nat} {t t' : FusedTrack K}
    (h : Nearest libm bound l meas j t)
    (hle : calculateTrackDistance libm t' meas ≤ calculateTrackDistance libm t meas) :
    Nearest libm bound (l.set j t') meas j t' where
  at_index := List.getElem?_set_self (List.getElem?_eq_some_iff.mp h.at_index).1
  near := hle.trans_lt h.near
  before k s hs hk := by
    rw [List.getElem?_set_ne hk.ne'] at hs
    exact hle.trans_lt (h.before k s hs hk)
  after k s hs hk := by
    rw [List.getElem?_set_ne hk.ne] at hs
    exact hle.trans (h.after k s hs hk)

/-- A near track behind tracks that are all far is the nearest. -/
theorem Nearest.concat {bound : K} {l : List (FusedTrack K)} {t : FusedTrack K}
    (hfar : ∀ s ∈ l, bound ≤ calculateTrackDistance libm s meas)
    (hnear : calculateTrackDistance libm t meas < bound) :
    Nearest libm bound (l ++ [t]) meas l.length t where
  at_index := List.getElem?_concat_length
  near := hnear
  before k s hs hk := by
    rw [List.getElem?_append_left hk] at hs
    exact hnear.trans_le (hfar s (List.mem_of_getElem? hs))
  after k s hs hk := by
    have hlt := (List.getElem?_eq_some_iff.mp hs).1
    rw [List.length_append, List.length_singleton] at hlt
    omega

end Association

/-! ## Distance after an update -/

section Shrink

variable [IsStrictOrderedRing K] {st : KalmanState K}

theorem axis_shrinks {p r : K} (hp : 0 < p) (hr : 0 < r) (d : K) :
    (r / (p + r) * d) * (r / (p + r) * d) / (r / (p + r) * p + r) ≤ d * d / (p + r) := by
  have hv : 0 < p + r := add_pos hp hr
  have hw : 0 < p + (p + r) := add_pos hp hv
  have hleft : (r / (p + r) * d) * (r / (p + r) * d) / (r / (p + r) * p + r) =
      d * d / (p + r) * (r / (p + (p + r))) := by
    field_simp
  have hfactor : r / (p + (p + r)) ≤ 1 := by
    rw [div_le_one hw]
    linarith
  rw [hleft]
  exact mul_le_of_le_one_right (div_nonneg (mul_self_nonneg d) hv.le) hfactor

/-- The same where `h` and `y` say what the build keeps of the axis. -/
theorem axis_shrinks_kept {p r h y : K} (hp : 0 < p) (hr : 0 < r) (hh : h = 0 ∨ h = 1)
    (hy : y = 0 ∨ y = 1) (hbalanced : h = 1 → y = 1) (d : K) :
    ((1 - y * (p / (p + r))) * d) * ((1 - y * (p / (p + r))) * d) /
        ((1 - h * (p / (p + r))) * p + r) ≤ d * d / (p + r) := by
  have hv : 0 < p + r := add_pos hp hr
  have hfactor : 1 - 1 * (p / (p + r)) = r / (p + r) := one_sub_gain hv.ne'
  rcases hh with rfl | rfl
  · rw [zero_mul, sub_zero, one_mul]
    rcases hy with rfl | rfl
    · rw [zero_mul, sub_zero, one_mul]
    · -- the innovation alone: a smaller residual over the same variance
      have hle : r / (p + r) ≤ 1 := (div_le_one hv).mpr (le_add_of_nonneg_left hp.le)
      have hnonneg : 0 ≤ r / (p + r) := (div_pos hr hv).le
      rw [hfactor, div_le_div_iff_of_pos_right hv, mul_mul_mul_comm]
      exact mul_le_of_le_one_left (mul_self_nonneg d) (mul_le_one₀ hle hnonneg hle)
  · rw [hbalanced rfl, hfactor]
    exact axis_shrinks hp hr d

/-- **An update brings the track nearer** to its detection. -/
theorem distance_update_le {libm : Libm K} (hbalanced : libm.stack.Balanced)
    (hmono : ∀ a b, 0 ≤ a → a ≤ b → libm.sqrt a ≤ libm.sqrt b) {t : FusedTrack K}
    (h : FilterOk t.filterState) (sensorId : Int) (meas : TargetTrack K) :
    calculateTrackDistance libm (absorb libm sensorId t meas) meas ≤
      calculateTrackDistance libm t meas := by
  have hpx : 0 < t.filterState.covariance.toMatrix 0 0 := h.definite.diag_pos 0
  have hpy : 0 < t.filterState.covariance.toMatrix 1 1 := h.definite.diag_pos 1
  obtain ⟨⟨hdx, hdy⟩, hP0, hP1⟩ := update_position libm h meas
  have hcov := (update_ok libm h meas).covarianceOk
  have htenth : (0 : K) < 0.1 := by positivity
  refine hmono _ _ ?_ ?_
  · exact add_nonneg (div_nonneg (mul_self_nonneg _) (htenth.trans hcov.varX).le)
      (div_nonneg (mul_self_nonneg _) (htenth.trans hcov.varY).le)
  · refine add_le_add ?_ ?_
    · have hvar : varX (absorb libm sensorId t meas).filterState = _ :=
        congrArg (· + 0.1) hP0
      rw [show meas.position.longitude - (absorb libm sensorId t meas).filterState.x = _ from hdx,
        hvar]
      exact axis_shrinks_kept hpx htenth (kept_eq_zero_or_one _ _) (kept_eq_zero_or_one _ _)
        (fun hh => kept_eq_one.mpr (hbalanced.1 (kept_eq_one.mp hh))) _
    · have hvar : varY (absorb libm sensorId t meas).filterState = _ :=
        congrArg (· + 0.1) hP1
      rw [show meas.position.latitude - (absorb libm sensorId t meas).filterState.y = _ from hdy,
        hvar]
      exact axis_shrinks_kept hpy htenth (kept_eq_zero_or_one _ _) (kept_eq_zero_or_one _ _)
        (fun hh => kept_eq_one.mpr (hbalanced.2 (kept_eq_one.mp hh))) _

end Shrink

/-! ## The second delivery -/

/-- The filter of a live track has only been initialised, predicted and updated. -/
theorem reachable_rule (libm : Libm K) (config : FusionConfig K) :
    TrackRule libm config fun _ t => FilterReachable libm t.filterState where
  created _ _ _ meas old _ := .init old.filterState meas
  absorbed _ _ t meas h := .update t.filterState meas h
  aged _ now t h _ := .predict t (elapsed now t.lastUpdate) h
  other _ _ _ _ h _ := h

section Repeat

variable {libm : Libm K} {p : FusionProcessor K}

omit [LinearOrder K] in
theorem newTrack_distance (hzero : libm.sqrt 0 = 0) (old : FusedTrack K) (globalId : Int)
    (meas : TargetTrack K) (sensorId : Int) :
    calculateTrackDistance libm (newTrack libm old globalId meas sensorId) meas = 0 := by
  have hx : meas.position.longitude -
      (newTrack libm old globalId meas sensorId).filterState.x = 0 := sub_self _
  have hy : meas.position.latitude -
      (newTrack libm old globalId meas sensorId).filterState.y = 0 := sub_self _
  unfold calculateTrackDistance
  dsimp only
  rw [hx, hy, mul_zero, zero_div, zero_div, add_zero, hzero]

theorem nearest_created (hzero : libm.sqrt 0 = 0) (hthr : 0 < p.config.associationThreshold)
    (sensorId : Int) {meas : TargetTrack K} (hnone : associate libm p meas = none)
    (hroom : p.trackCount < p.trackCapacity) :
    ∃ t, Nearest libm p.config.associationThreshold (addDetection libm sensorId p meas).1.live
        meas p.live.length t ∧
      ∀ id, (addDetection libm sensorId p meas).2.about id ↔ t.globalId = id := by
  obtain ⟨old, hev, hlive, -⟩ := addDetection_new sensorId hnone hroom
  refine ⟨newTrack libm old p.nextGlobalId meas sensorId, ?_, fun id => ?_⟩
  · rw [hlive]
    refine .concat (associate_none_iff.mp hnone) ?_
    rw [newTrack_distance hzero]
    exact hthr
  · rw [hev]
    exact beq_iff_eq

variable [IsStrictOrderedRing K]

/-- After a detection was absorbed or made a track, that track is the nearest to
the same detection. -/
theorem nearest_after (hbalanced : libm.stack.Balanced) (hzero : libm.sqrt 0 = 0)
    (hmono : ∀ a b, 0 ≤ a → a ≤ b → libm.sqrt a ≤ libm.sqrt b)
    (hthr : 0 < p.config.associationThreshold) (hok : TableOk p) (sensorId : Int)
    (meas : TargetTrack K) :
    (∃ j t, Nearest libm p.config.associationThreshold (addDetection libm sensorId p meas).1.live
        meas j t ∧ ∀ id, (addDetection libm sensorId p meas).2.about id ↔ t.globalId = id) ∨
      associate libm p meas = none ∧ ¬p.trackCount < p.trackCapacity := by
  cases hassoc : associate libm p meas with
  | some j =>
    have hnear := associate_eq_some.mp hassoc
    obtain ⟨hev, hlive⟩ := addDetection_nearest sensorId hnear
    have hle := distance_update_le hbalanced hmono
      (hok.filters _ (List.mem_of_getElem? hnear.at_index)) sensorId meas
    refine .inl ⟨j, absorb libm sensorId (p.track j j.isLt) meas, ?_, fun id => ?_⟩
    · rw [hlive]
      exact hnear.set hle
    · rw [hev]
      exact beq_iff_eq
  | none =>
    by_cases hroom : p.trackCount < p.trackCapacity
    · exact .inl ⟨_, nearest_created hzero hthr sensorId hassoc hroom⟩
    · exact .inr ⟨rfl, hroom⟩

/-- What is to be shown of two deliveries of `meas` with the outcomes `r` and
`r'`: the second goes to the track of the first, or both are dropped. -/
structure RepeatOk (meas : TargetTrack K) (r r' : FusionProcessor K × Touch K) : Prop where
  same : ∀ id, r.2.about id → r'.2 = .absorbed id meas
  dropped : r.2 = .dropped meas → r' = (r.1, .dropped meas)
  ids : r'.1.ids = r.1.ids

omit [IsStrictOrderedRing K] in
theorem repeatOk_full (sensorId sensorId' : Int) {meas : TargetTrack K}
    (hnone : associate libm p meas = none) (hfull : ¬p.trackCount < p.trackCapacity) :
    RepeatOk meas (addDetection libm sensorId p meas)
      (addDetection libm sensorId' (addDetection libm sensorId p meas).1 meas) := by
  have hdrop (s : Int) : addDetection libm s p meas = (p, .dropped meas) :=
    addDetection_full s hnone hfull
  rw [hdrop sensorId]
  dsimp only
  rw [hdrop sensorId']
  refine ⟨fun id habout => ?_, fun _ => rfl, rfl⟩
  cases habout

theorem repeatOk_of_balanced (hbalanced : libm.stack.Balanced) (hzero : libm.sqrt 0 = 0)
    (hmono : ∀ a b, 0 ≤ a → a ≤ b → libm.sqrt a ≤ libm.sqrt b)
    (hthr : 0 < p.config.associationThreshold) (hok : TableOk p) (sensorId sensorId' : Int)
    (meas : TargetTrack K) :
    RepeatOk meas (addDetection libm sensorId p meas)
      (addDetection libm sensorId' (addDetection libm sensorId p meas).1 meas) := by
  rcases nearest_after hbalanced hzero hmono hthr hok sensorId meas with
    ⟨j, t, hnear, hid⟩ | ⟨hnone, hfull⟩
  · rw [← addDetection_config libm sensorId p meas] at hnear
    obtain ⟨hev, hlive⟩ := addDetection_nearest sensorId' hnear
    refine ⟨fun id habout => ?_, fun hdropped => ?_, ?_⟩
    · rw [hev, (hid id).mp habout]
    · have habout := (hid t.globalId).mpr rfl
      rw [hdropped] at habout
      cases habout
    · unfold FusionProcessor.ids
      rw [hlive, set_absorb_globalId hnear.at_index]
  · exact repeatOk_full sensorId sensorId' hnone hfull

/-- To a working table, absorbing a detection is undefined. -/
theorem addDetectionChecked_eq_none (hok : TableOk p) (sensorId : Int) {meas : TargetTrack K}
    (hsome : associate libm p meas ≠ none) : addDetectionChecked libm sensorId p meas = none := by
  obtain ⟨j, hassoc⟩ := Option.ne_none_iff_exists'.mp hsome
  have hfilter := hok.filters _ (List.mem_of_getElem? (p.track_eq_live j j.isLt))
  unfold addDetectionChecked
  rw [hassoc]
  dsimp only
  rw [updateKalmanFilterChecked_eq_none hfilter, Option.map_none]

omit [IsStrictOrderedRing K] in
theorem addDetectionChecked_of_none (sensorId : Int) {meas : TargetTrack K}
    (hnone : associate libm p meas = none) :
    addDetectionChecked libm sensorId p meas = some (addDetection libm sensorId p meas) := by
  unfold addDetectionChecked
  rw [hnone]

/-- **A repeated detection** is handled as it should be exactly where it finds no
near track and no room, in every reachable processor: otherwise the first or the
second delivery is absorbed, and that update is undefined. In a build with a
balanced stack it always goes to the track that absorbed it or that it created,
and delivering it twice leaves the ids that delivering it once leaves. -/
theorem repeated_detection_iff (hzero : libm.sqrt 0 = 0)
    (hmono : ∀ a b, 0 ≤ a → a ≤ b → libm.sqrt a ≤ libm.sqrt b) {config : FusionConfig K}
    {fresh : Fresh K} {tr : List (FusionAct K × List (Touch K))}
    (h : Run (fusionStep libm) (fusionProcessorCreate config fresh) tr p)
    (hthr : 0 < config.associationThreshold) (sensorId sensorId' : Int) (meas : TargetTrack K) :
    ((∃ r r', addDetectionChecked libm sensorId p meas = some r ∧
        addDetectionChecked libm sensorId' r.1 meas = some r' ∧ RepeatOk meas r r') ↔
      associate libm p meas = none ∧ ¬p.trackCount < p.trackCapacity) ∧
    (libm.stack.Balanced →
      RepeatOk meas (addDetection libm sensorId p meas)
        (addDetection libm sensorId' (addDetection libm sensorId p meas).1 meas) ∧
      ∀ once twice : TrackList K, once.contents = [meas] → twice.contents = [meas, meas] →
        (fusionProcessorAddTracks libm p twice sensorId).2.ids =
          (fusionProcessorAddTracks libm p once sensorId).2.ids) := by
  have hinv := (reachable_rule libm config).of_run h
  have hok := hinv.table
  have hthr' : 0 < p.config.associationThreshold := by rw [hinv.config_eq]; exact hthr
  refine ⟨⟨?_, fun ⟨hnone, hfull⟩ => ?_⟩, fun hbalanced => ⟨?_, fun once twice h1 h2 => ?_⟩⟩
  · rintro ⟨r, r', hr, hr', -⟩
    have hnone : associate libm p meas = none := by
      by_contra hsome
      rw [addDetectionChecked_eq_none hok sensorId hsome] at hr
      cases hr
    refine ⟨hnone, fun hroom => ?_⟩
    -- the first delivery has made a track, so the second is absorbed by it
    rw [addDetectionChecked_of_none sensorId hnone] at hr
    obtain rfl := Option.some.inj hr
    obtain ⟨t, hnear, -⟩ := nearest_created hzero hthr' sensorId hnone hroom
    rw [← addDetection_config libm sensorId p meas] at hnear
    obtain ⟨hlt, htrack⟩ := live_getElem?.mp hnear.at_index
    have hsome := associate_eq_some (j := ⟨_, hlt⟩).mpr (htrack ▸ hnear)
    rw [addDetectionChecked_eq_none (hok.add sensorId meas) sensorId' (by rw [hsome]; simp)] at hr'
    cases hr'
  · have hdrop : addDetection libm sensorId p meas = (p, .dropped meas) :=
      addDetection_full sensorId hnone hfull
    refine ⟨_, _, addDetectionChecked_of_none sensorId hnone, ?_,
      repeatOk_full sensorId sensorId' hnone hfull⟩
    rw [hdrop]
    exact addDetectionChecked_of_none sensorId' hnone
  · exact repeatOk_of_balanced hbalanced hzero hmono hthr' hok sensorId sensorId' meas
  · unfold fusionProcessorAddTracks
    rw [h1, h2]
    exact (repeatOk_of_balanced hbalanced hzero hmono hthr' hok sensorId sensorId meas).ids

end Repeat

theorem repeated_detection_iff_car :
    (addDetection .rat 2 (addDetection .rat 1 carSeen (rollingCar ⟨101, 0⟩)).1
        (rollingCar ⟨101, 0⟩)).1.ids =
      (addDetection .rat 1 carSeen (rollingCar ⟨101, 0⟩)).1.ids := by
  obtain ⟨-, hbuild⟩ := repeated_detection_iff rfl (fun _ _ _ h => h) carSeen_run (by decide) 1 2
    (rollingCar ⟨101, 0⟩)
  exact (hbuild ⟨fun _ => rfl, fun _ => rfl⟩).1.ids

/-- The second delivery of a car to an empty table is undefined. -/
theorem repeated_detection_undefined :
    ¬∀ meas : TargetTrack ℚ, ∃ r r', addDetectionChecked .rat 1 emptyProcessor meas = some r ∧
      addDetectionChecked .rat 1 r.1 meas = some r' ∧ RepeatOk meas r r' := by
  intro h
  obtain ⟨r, r', hr, hr', -⟩ := h (rollingCar ⟨100, 0⟩)
  obtain rfl := Option.some.inj hr
  have hnone : (addDetectionChecked .rat 1
      (addDetection .rat 1 emptyProcessor (rollingCar ⟨100, 0⟩)).1 (rollingCar ⟨100, 0⟩)).isNone :=
    by decide +kernel
  rw [hr'] at hnone
  cases hnone

end Mec
