import Mec.Fusion.Elapsed
import Mec.Fusion.History
import Mec.Fusion.Identity
import Mec.Lib.Binary64
import Mec.Lib.Smoothing

/-!
# What a track's confidence remembers

Absorbing a detection moves a track's confidence towards the detection's by three
tenths of the distance, so it is the exponential smoothing of the confidences of all
its detections, from its first one on, up to the rounding of `double`: a step forgets
more of the old error than it makes, so the error stays below `drift`. What came before
the last `n` detections counts for `0.7 ^ n`: a track that has become unsure is deleted
soon, whatever it was before, and one that is seen surely again is soon safe from
deletion.
-/

namespace Mec

open Lib.Lts Lib.Rounding Lib.Smoothing

variable {K : Type} [Field K] [LinearOrder K]

/-- The confidences of a track's detections. -/
def confidences (id : Int) (H : List (FusionEvent K)) : List K :=
  (detections id H).map fun d => d.2.confidence

/-- How far rounding takes a confidence from the exact one, for detections of
confidence up to `A`. -/
def drift (u η A : K) : K := 16 * (u * A + η)

/-- A track's confidence is smoothed over its detections. -/
def Smoothed (u η : K) (H : List (FusionEvent K)) (t : FusedTrack K) : Prop :=
  ∃ c ms, confidences t.globalId H = c :: ms ∧
    ∀ A, (∀ m ∈ c :: ms, |m| ≤ A) → |t.confidence - smooth 0.3 c ms| ≤ drift u η A

section Rule

variable [IsStrictOrderedRing K] {u η : K} {libm : Libm K} {config : FusionConfig K}

theorem smoothConfidence_near (hround : Rounds u η libm.round) {c m B : K} (hc : |c| ≤ B)
    (hm : |m| ≤ B) :
    |smoothConfidence libm c m - ((1 - 0.3) * c + 0.3 * m)| ≤ 4 * (u * B) + 4 * η := by
  have h7 : (0.7 : K) = 1 - 0.3 := by norm_num
  rw [← h7]
  exact hround.average (by norm_num) (by norm_num) (by norm_num) hc hm

omit [LinearOrder K] [IsStrictOrderedRing K] in
theorem drift_eq (u η A : K) : drift u η A = 16 * (u * A + η) := rfl

theorem drift_nonneg (hround : Rounds u η libm.round) {A : K} (hA : 0 ≤ A) : 0 ≤ drift u η A :=
  mul_nonneg (by norm_num) (add_nonneg (mul_nonneg hround.u_nonneg hA) hround.η_nonneg)

theorem Rounds.drift (hround : Rounds u η libm.round) {A : K} (hA : 0 ≤ A) :
    (1 - 0.3) * drift u η A + (4 * (u * (A + drift u η A)) + 4 * η) ≤ drift u η A := by
  have hE := drift_nonneg hround hA
  have hsmall : u * Mec.drift u η A ≤ 1 / 100 * Mec.drift u η A :=
    mul_le_mul_of_nonneg_right hround.u_le hE
  have hsum : Mec.drift u η A = 16 * (u * A) + 16 * η := by rw [drift_eq, mul_add]
  have huA : 0 ≤ u * A := mul_nonneg hround.u_nonneg hA
  have hη := hround.η_nonneg
  rw [mul_add u]
  norm_num
  linarith

theorem smoothed_rule (hround : Rounds u η libm.round) (config : FusionConfig K) :
    TrackRule libm config (Smoothed u η) where
  created H sensorId globalId meas old hnew := by
    have habout : (Touch.created globalId meas old).about globalId := beq_self_eq_true _
    refine ⟨meas.confidence, [], ?_, fun A hA => ?_⟩
    · show confidences globalId _ = _
      rw [confidences, detections_about habout, detections_eq_nil hnew]
      rfl
    · have hexact : (newTrack libm old globalId meas sensorId).confidence -
          smooth 0.3 meas.confidence [] = 0 := sub_self _
      rw [hexact, abs_zero]
      exact drift_nonneg hround ((abs_nonneg _).trans (hA _ List.mem_cons_self))
  absorbed H sensorId t meas h := by
    obtain ⟨c, ms, hconf, ht⟩ := h
    have habout : (Touch.absorbed t.globalId meas).about t.globalId := beq_self_eq_true _
    refine ⟨c, ms ++ [meas.confidence], ?_, fun A hA => ?_⟩
    · show confidences t.globalId _ = _
      rw [confidences, detections_about habout, List.map_append, ← confidences, hconf]
      rfl
    · have hold : ∀ m ∈ c :: ms, |m| ≤ A := fun m hm =>
        hA m (List.mem_append_left [meas.confidence] hm)
      have hmeas : |meas.confidence| ≤ A :=
        hA _ (List.mem_cons_of_mem _ (List.mem_append_right _ (List.mem_singleton_self _)))
      have hA0 : 0 ≤ A := (abs_nonneg _).trans hmeas
      have hsmooth : |smooth 0.3 c ms| ≤ A := abs_smooth_le (by norm_num) (by norm_num) hold
      have hsize : |t.confidence| ≤ A + Mec.drift u η A := by
        have htriangle := abs_add_le (smooth 0.3 c ms) (t.confidence - smooth 0.3 c ms)
        rw [add_sub_cancel] at htriangle
        exact htriangle.trans (add_le_add hsmooth (ht A hold))
      have hstep := smoothConfidence_near hround hsize
        (hmeas.trans (le_add_of_nonneg_right (drift_nonneg hround hA0)))
      exact near_smooth (by norm_num) (Rounds.drift hround hA0) (ht A hold) hstep
  aged H now t h _ := by
    unfold Smoothed confidences
    rw [ageTrack_globalId, ageTrack_confidence, detections_pass]
    exact h
  other H sensorId touch t h habout := by
    unfold Smoothed confidences
    rw [detections_other habout]
    exact h

theorem Smoothed.between {H : List (FusionEvent K)} {t : FusedTrack K} (h : Smoothed u η H t)
    {A : K} (hA : ∀ d ∈ detections t.globalId H, |d.2.confidence| ≤ A) :
    (∃ d ∈ detections t.globalId H, d.2.confidence - drift u η A ≤ t.confidence) ∧
      ∃ d ∈ detections t.globalId H, t.confidence ≤ d.2.confidence + drift u η A := by
  obtain ⟨c, ms, hconf, ht⟩ := h
  have hmem : ∀ m ∈ c :: ms, ∃ d ∈ detections t.globalId H, d.2.confidence = m := by
    intro m hm
    rw [← hconf] at hm
    exact List.mem_map.mp hm
  have hnear := abs_le.mp (ht A fun m hm => by
    obtain ⟨d, hd, rfl⟩ := hmem m hm
    exact hA d hd)
  constructor
  · obtain ⟨m, hm, hle⟩ := exists_le_smooth (w := (0.3 : K)) (by norm_num) (by norm_num)
    obtain ⟨d, hd, rfl⟩ := hmem m hm
    exact ⟨d, hd, by linarith⟩
  · obtain ⟨m, hm, hle⟩ := exists_smooth_le (w := (0.3 : K)) (by norm_num) (by norm_num)
    obtain ⟨d, hd, rfl⟩ := hmem m hm
    exact ⟨d, hd, by linarith⟩

theorem Smoothed.bounds {H : List (FusionEvent K)} {t : FusedTrack K} (h : Smoothed u η H t)
    {before recent : List K} (hsplit : confidences t.globalId H = before ++ recent)
    (hne : before ≠ []) {A : K} (hA : ∀ c ∈ confidences t.globalId H, |c| ≤ A) :
    (∀ b M, (∀ c ∈ recent, c ≤ b) → (∀ c ∈ before, c ≤ M) →
      t.confidence ≤ b + (7 / 10) ^ recent.length * (M - b) + drift u η A) ∧
    ∀ b m, (∀ c ∈ recent, b ≤ c) → (∀ c ∈ before, m ≤ c) →
      b + (7 / 10) ^ recent.length * (m - b) - drift u η A ≤ t.confidence := by
  obtain ⟨c, ms, hconf, ht⟩ := h
  obtain ⟨c', before, rfl⟩ := List.exists_cons_of_ne_nil hne
  rw [hconf] at hsplit hA
  rw [List.cons_append] at hsplit
  obtain ⟨rfl, rfl⟩ := List.cons.inj hsplit
  have hnear := abs_le.mp (ht A hA)
  have h0 : (0 : K) ≤ 0.3 := by norm_num
  have h1 : (0.3 : K) ≤ 1 := by norm_num
  have hw : (1 : K) - 0.3 = 7 / 10 := by norm_num
  have hpow : ∀ n, (0 : K) ≤ (7 / 10) ^ n := fun n => pow_nonneg (by norm_num) n
  rw [smooth_append] at hnear
  constructor
  · intro b M hrecent hbefore
    have hold : smooth 0.3 c before ≤ M := by
      have h := smooth_le h0 h1 (c := c) fun m hm => hbefore m (List.mem_cons_of_mem _ hm)
      have hc := mul_nonpos_of_nonneg_of_nonpos (hpow before.length)
        (sub_nonpos.mpr (hbefore c List.mem_cons_self))
      rw [hw] at h
      linarith
    have h := smooth_le h0 h1 (c := smooth 0.3 c before) hrecent
    rw [hw] at h
    have hscale : (7 / 10 : K) ^ recent.length * (smooth 0.3 c before - b) ≤
        (7 / 10) ^ recent.length * (M - b) := by gcongr
    linarith
  · intro b m hrecent hbefore
    have hold : m ≤ smooth 0.3 c before := by
      have h := le_smooth h0 h1 (c := c) fun x hx => hbefore x (List.mem_cons_of_mem _ hx)
      have hc := mul_nonneg (hpow before.length) (sub_nonneg.mpr (hbefore c List.mem_cons_self))
      rw [hw] at h
      linarith
    have h := le_smooth h0 h1 (c := smooth 0.3 c before) hrecent
    rw [hw] at h
    have hscale : (7 / 10 : K) ^ recent.length * (m - b) ≤
        (7 / 10) ^ recent.length * (smooth 0.3 c before - b) := by gcongr
    linarith

/-- **A track's confidence forgets.** Cut the detections of a live track in any reachable
state into the first ones and the last `n`: its confidence is within `0.7 ^ n` times the
distance that the first ones' bounds have from bounds of the last ones, and the rounding.
So a track whose last detections are unsure enough is deleted by the next pass, whenever
it comes, and one whose last detections are sure enough, seen within `max_track_age`
passes, is not. -/
theorem confidence_forgets (hround : Rounds u η libm.round) {fresh : Fresh K}
    {tr : List (FusionAct K × List (Touch K))} {p : FusionProcessor K}
    (h : Run (fusionStep libm) (fusionProcessorCreate config fresh) tr p) :
    ∀ t ∈ p.live, ∀ before recent A,
      confidences t.globalId (history tr) = before ++ recent → before ≠ [] →
      (∀ c ∈ confidences t.globalId (history tr), |c| ≤ A) →
      (∀ b M, (∀ c ∈ recent, c ≤ b) → (∀ c ∈ before, c ≤ M) →
        t.confidence ≤ b + (7 / 10) ^ recent.length * (M - b) + drift u η A ∧
          (b + (7 / 10) ^ recent.length * (M - b) + drift u η A < config.confidenceThreshold →
            ∀ env, t.globalId ∉ (fusionPass libm env p).ids)) ∧
      ∀ b m, (∀ c ∈ recent, b ≤ c) → (∀ c ∈ before, m ≤ c) →
        b + (7 / 10) ^ recent.length * (m - b) - drift u η A ≤ t.confidence ∧
          (config.confidenceThreshold ≤ b + (7 / 10) ^ recent.length * (m - b) - drift u η A →
            t.age < config.maxTrackAge → ∀ env, t.globalId ∈ (fusionPass libm env p).ids) := by
  intro t ht before recent A hsplit hne hA
  have htracked := (smoothed_rule hround config).of_run h
  obtain ⟨hupper, hlower⟩ := (htracked.tracks t ht).bounds hsplit hne hA
  have hkept : ∀ env, t.globalId ∈ (fusionPass libm env p).ids ↔
      t.age + 1 ≤ config.maxTrackAge ∧ config.confidenceThreshold ≤ t.confidence := by
    intro env
    rw [FusionProcessor.ids, htracked.table.mem_ids_fusionPass env ht, retained_eq_decide,
      decide_eq_true_iff, htracked.config_eq, ageTrack_age, ageTrack_confidence]
  constructor
  · intro b M hrecent hbefore
    have hle := hupper b M hrecent hbefore
    refine ⟨hle, fun hlt env hmem => ?_⟩
    exact absurd ((hkept env).mp hmem).2 (not_le.mpr (hle.trans_lt hlt))
  · intro b m hrecent hbefore
    have hle := hlower b m hrecent hbefore
    exact ⟨hle, fun hthreshold hage env => (hkept env).mpr ⟨hage, hthreshold.trans hle⟩⟩

end Rule

/-! ## A run in `double` -/

def Libm.ratDouble : Libm ℚ := { Libm.rat with round := Lib.Binary64.nearest }

theorem ratDouble_rounds : Lib.Rounding.Rounds (Lib.Binary64.pow2 (-53))
    (Lib.Binary64.pow2 (-1075)) Libm.ratDouble.round := Lib.Binary64.rounds_nearest

def fourFifths : ℚ := Lib.Binary64.nearest 0.8

def sureConfig : FusionConfig ℚ := { defaultConfig with confidenceThreshold := fourFifths }

def sureCar (timestamp : Timeval) : TargetTrack ℚ :=
  { rollingCar timestamp with confidence := fourFifths }

def sureList (timestamp : Timeval) : TrackList ℚ :=
  { oneCar timestamp with
    tracks := [sureCar timestamp]
    tracks_length := rfl }

def sureStart : FusionProcessor ℚ :=
  fusionProcessorCreate sureConfig (some fun _ => rollingCar ⟨0, 0⟩)

def sureOnce : FusionProcessor ℚ :=
  (fusionProcessorAddTracks .ratDouble sureStart (sureList ⟨100, 0⟩) 1).2

def sureTwice : FusionProcessor ℚ :=
  (fusionProcessorAddTracks .ratDouble sureOnce (sureList ⟨101, 0⟩) 1).2

def sureTrack : FusedTrack ℚ :=
  absorb .ratDouble 1 (newTrack .ratDouble .zero 1 (sureCar ⟨100, 0⟩) 1) (sureCar ⟨101, 0⟩)

theorem addDetection_sureOnce : addDetection .ratDouble 1 sureOnce (sureCar ⟨101, 0⟩) =
    (sureOnce.setTrack 0 sureTrack, .absorbed 1 (sureCar ⟨101, 0⟩)) := by
  have hnear : associate .ratDouble sureOnce (sureCar ⟨101, 0⟩) = some ⟨0, by decide⟩ := by
    decide +kernel
  rw [addDetection, hnear]
  rfl

theorem sureTwice_live : sureTwice.live = [sureTrack] := by
  show (addDetection .ratDouble 1 sureOnce (sureCar ⟨101, 0⟩)).1.live = _
  rw [addDetection_sureOnce]
  rfl

def sureAdds : List (FusionAct ℚ × List (Touch ℚ)) :=
  [(.addTracks (sureList ⟨100, 0⟩) 1, [.created 1 (sureCar ⟨100, 0⟩) .zero]),
    (.addTracks (sureList ⟨101, 0⟩) 1, [.absorbed 1 (sureCar ⟨101, 0⟩)])]

theorem sureTwice_run : Run (fusionStep .ratDouble) sureStart sureAdds sureTwice := by
  have hfirst : Run (fusionStep .ratDouble) sureStart
      [(.addTracks (sureList ⟨100, 0⟩) 1, [.created 1 (sureCar ⟨100, 0⟩) .zero])] sureOnce :=
    .single rfl
  refine hfirst.snoc ?_
  show some (sureTwice, [(addDetection .ratDouble 1 sureOnce (sureCar ⟨101, 0⟩)).2]) = _
  rw [addDetection_sureOnce]

theorem confidence_forgets_sure :
    let off := drift (Lib.Binary64.pow2 (-53)) (Lib.Binary64.pow2 (-1075)) fourFifths
    sureTrack.confidence ≤ fourFifths + (7 / 10) ^ 1 * (1 - fourFifths) + off ∧
      fourFifths + (7 / 10) ^ 1 * (fourFifths - fourFifths) - off ≤ sureTrack.confidence := by
  intro off
  have hsure : sureTrack ∈ sureTwice.live := by
    rw [sureTwice_live]
    exact List.mem_singleton_self _
  have hsplit : confidences sureTrack.globalId (history sureAdds) =
      [fourFifths] ++ [fourFifths] := rfl
  have hpos : |fourFifths| ≤ fourFifths := by decide +kernel
  obtain ⟨hupper, hlower⟩ := confidence_forgets ratDouble_rounds sureTwice_run
    sureTrack hsure [fourFifths] [fourFifths] fourFifths hsplit (by decide)
    (by rw [hsplit]; simpa using hpos)
  exact ⟨(hupper fourFifths 1 (by simp) (by simpa using (by decide +kernel))).1,
    (hlower fourFifths fourFifths (by simp) (by simp)).1⟩

end Mec
