import Mec.Fusion.Confidence

/-!
# How long a track lives

`age` counts the passes since the last detection and `confidence` stays among
the confidences of the detections, up to the rounding of `double` (`Lifetime`),
wherever the track is moved. A pass therefore deletes it for one of two reasons
that can be read off the history, and a track that is seen often and surely
enough is not deleted. Surely enough means by a margin: at the threshold itself
the rounding can take the confidence below it.
-/

namespace Mec

open Lib.Lts Lib.Rounding

variable {K : Type} [Field K] [LinearOrder K]

/-- What a live record says about the track's past. -/
structure Lifetime (u η : K) (config : FusionConfig K) (H : List (FusionEvent K))
    (t : FusedTrack K) : Prop where
  age_eq : t.age = passesSince t.globalId H
  age_le : t.age ≤ config.maxTrackAge
  smoothed : Smoothed u η H t

section Lifetime

variable [IsStrictOrderedRing K] {u η A : K} {libm : Libm K} {config : FusionConfig K}
  {p : FusionProcessor K}

theorem lifetime_rule (hround : Rounds u η libm.round) (hage : 0 ≤ config.maxTrackAge) :
    TrackRule libm config (Lifetime u η config) where
  created H sensorId globalId meas old hnew := by
    have habout : (Touch.created globalId meas old).about globalId := beq_self_eq_true _
    refine ⟨?_, hage, (smoothed_rule hround config).created H sensorId globalId meas old hnew⟩
    show (0 : Int) = passesSince globalId _
    rw [passesSince_about habout]
    rfl
  absorbed H sensorId t meas h := by
    have habout : (Touch.absorbed t.globalId meas).about t.globalId := beq_self_eq_true _
    refine ⟨?_, hage, (smoothed_rule hround config).absorbed H sensorId t meas h.smoothed⟩
    show (0 : Int) = passesSince t.globalId _
    rw [passesSince_about habout]
    rfl
  aged H now t h hkeep := by
    have hsmoothed := (smoothed_rule hround config).aged H now t h.smoothed hkeep
    rw [retained_eq_decide, decide_eq_true_iff] at hkeep
    refine ⟨?_, hkeep.1, hsmoothed⟩
    rw [ageTrack_age, ageTrack_globalId, passesSince_pass, h.age_eq]
    rfl
  other H sensorId touch t h habout := by
    refine ⟨?_, h.age_le,
      (smoothed_rule hround config).other H sensorId touch t h.smoothed habout⟩
    rw [passesSince_other habout]
    exact h.age_eq

omit [IsStrictOrderedRing K] in
theorem Lifetime.deleted_iff {H : List (FusionEvent K)}
    (hinv : Tracked config (Lifetime u η config) H p) (env : PassEnv K) {t : FusedTrack K}
    (ht : t ∈ p.live) :
    t.globalId ∉ (fusionPass libm env p).ids ↔
      (passesSince t.globalId (H ++ [.pass env.now]) : Int) = config.maxTrackAge + 1 ∨
        t.confidence < config.confidenceThreshold := by
  have hlife := hinv.tracks t ht
  have hage := hlife.age_eq
  have hle := hlife.age_le
  rw [FusionProcessor.ids, hinv.table.mem_ids_fusionPass env ht, retained_eq_decide,
    decide_eq_true_iff, hinv.config_eq, ageTrack_age, ageTrack_confidence, not_and_or, not_le,
    not_le, passesSince_pass]
  refine or_congr ?_ Iff.rfl
  constructor
  · intro hlt
    omega
  · intro heq
    omega

/-- The track `id` was created, all its detections so far were sure enough by
the margin that rounding needs, and since its creation it never went longer than
`max_track_age` passes without one. -/
structure WellSeen (u η A : K) (config : FusionConfig K) (id : Int) (H : List (FusionEvent K)) :
    Prop where
  created : detections id H ≠ []
  bounded : ∀ d ∈ detections id H, |d.2.confidence| ≤ A
  confident : ∀ d ∈ detections id H,
    config.confidenceThreshold + drift u η A ≤ d.2.confidence
  often : ∀ H₁ H₂, H = H₁ ++ H₂ → detections id H₁ ≠ [] →
    (passesSince id H₁ : Int) ≤ config.maxTrackAge

omit [IsStrictOrderedRing K] in
theorem WellSeen.of_append {id : Int} {H H' : List (FusionEvent K)}
    (h : WellSeen u η A config id (H ++ H')) (hcreated : detections id H ≠ []) :
    WellSeen u η A config id H where
  created := hcreated
  bounded d hd := h.bounded d (mem_detections_append hd H')
  confident d hd := h.confident d (mem_detections_append hd H')
  often H₁ H₂ heq hne := h.often H₁ (H₂ ++ H') (by rw [heq, List.append_assoc]) hne

omit [IsStrictOrderedRing K] in
theorem ids_subset_addDetection (libm : Libm K) (sensorId : Int) (p : FusionProcessor K)
    (meas : TargetTrack K) : p.ids ⊆ (addDetection libm sensorId p meas).1.ids := by
  intro id hid
  unfold FusionProcessor.ids at hid ⊢
  rcases addDetection_cases libm sensorId p meas with
    ⟨j, t, hj, -, hlive, -⟩ | ⟨old, -, hlive, -⟩ | hdrop
  · rwa [hlive, set_absorb_globalId hj]
  · rw [hlive, List.map_append]
    exact List.mem_append_left _ hid
  · rwa [hdrop]

omit [IsStrictOrderedRing K] in
theorem about_mem_ids (libm : Libm K) (sensorId : Int) (p : FusionProcessor K)
    (meas : TargetTrack K) {id : Int} (habout : (addDetection libm sensorId p meas).2.about id) :
    id ∈ (addDetection libm sensorId p meas).1.ids := by
  unfold FusionProcessor.ids
  rcases addDetection_cases libm sensorId p meas with
    ⟨j, t, hj, hev, hlive, -⟩ | ⟨old, hev, hlive, -⟩ | hdrop
  · rw [hev] at habout
    obtain rfl : t.globalId = id := eq_of_beq habout
    rw [hlive, set_absorb_globalId hj]
    exact List.mem_map_of_mem (List.mem_of_getElem? hj)
  · rw [hev] at habout
    obtain rfl : p.nextGlobalId = id := eq_of_beq habout
    rw [hlive, List.map_append]
    exact List.mem_append_right _ (List.mem_singleton_self _)
  · rw [hdrop] at habout
    cases habout

/-- Tracks seen often and surely enough are live. -/
def Persistent (u η : K) (config : FusionConfig K) (H : List (FusionEvent K))
    (p : FusionProcessor K) : Prop :=
  ∀ id A, WellSeen u η A config id H → id ∈ p.ids

omit [IsStrictOrderedRing K] in
theorem Persistent.add {H : List (FusionEvent K)} (h : Persistent u η config H p) (sensorId : Int)
    (meas : TargetTrack K) :
    Persistent u η config (H ++ [.detection sensorId (addDetection libm sensorId p meas).2])
      (addDetection libm sensorId p meas).1 := by
  intro id A hseen
  by_cases habout : (addDetection libm sensorId p meas).2.about id
  · exact about_mem_ids libm sensorId p meas habout
  · have hcreated := hseen.created
    rw [detections_other habout] at hcreated
    exact ids_subset_addDetection libm sensorId p meas (h id A (hseen.of_append hcreated))

theorem Persistent.pass {H : List (FusionEvent K)} (h : Persistent u η config H p)
    (hinv : Tracked config (Lifetime u η config) H p) (env : PassEnv K) :
    Persistent u η config (H ++ [.pass env.now]) (fusionPass libm env p) := by
  intro id A hseen
  have hcreated := hseen.created
  rw [detections_pass] at hcreated
  have hbefore := hseen.of_append hcreated
  obtain ⟨t, ht, rfl⟩ := List.mem_map.mp (h id A hbefore)
  by_contra hgone
  rcases (Lifetime.deleted_iff hinv env ht).mp hgone with hold | hunsure
  · have hoften := hseen.often _ [] (List.append_nil _).symm hseen.created
    omega
  · obtain ⟨d, hd, hle⟩ := ((hinv.tracks t ht).smoothed.between hbefore.bounded).1
    have hsure := hbefore.confident d hd
    linarith

/-- **Track lifetime.** In every reachable state a live track's age is the
number of passes since its last detection, and its confidence lies between the
least and the greatest confidence of its detections, up to the rounding. The next
pass deletes it exactly if that pass is number `max_track_age + 1` without a
detection or the confidence is below the threshold. So a track seen often and
surely enough is still live. -/
theorem track_lifetime (hround : Rounds u η libm.round) {fresh : Fresh K}
    {tr : List (FusionAct K × List (Touch K))}
    (h : Run (fusionStep libm) (fusionProcessorCreate config fresh) tr p)
    (hage : 0 ≤ config.maxTrackAge) :
    (∀ t ∈ p.live, t.age = passesSince t.globalId (history tr) ∧
      t.age ≤ config.maxTrackAge ∧
      (∀ A, (∀ d ∈ detections t.globalId (history tr), |d.2.confidence| ≤ A) →
        (∃ d ∈ detections t.globalId (history tr),
            d.2.confidence - drift u η A ≤ t.confidence) ∧
          ∃ d ∈ detections t.globalId (history tr),
            t.confidence ≤ d.2.confidence + drift u η A) ∧
      ∀ env, t.globalId ∉ (fusionPass libm env p).ids ↔
        (passesSince t.globalId (history tr ++ [.pass env.now]) : Int) =
            config.maxTrackAge + 1 ∨
          t.confidence < config.confidenceThreshold) ∧
      ∀ id A, detections id (history tr) ≠ [] →
        (∀ d ∈ detections id (history tr), |d.2.confidence| ≤ A ∧
          config.confidenceThreshold + drift u η A ≤ d.2.confidence) →
        (∀ H₁ H₂, history tr = H₁ ++ H₂ → detections id H₁ ≠ [] →
          (passesSince id H₁ : Int) ≤ config.maxTrackAge) →
        id ∈ p.ids := by
  have hrule := lifetime_rule hround hage
  obtain ⟨hinv, hpersist⟩ := fusionHistory_invariant
    (I := fun H p => Tracked config (Lifetime u η config) H p ∧ Persistent u η config H p)
    (fun sensorId _ _ meas hp => ⟨hp.1.add hrule sensorId meas, hp.2.add sensorId meas⟩)
    (fun _ _ env hp => ⟨hp.1.pass hrule env, hp.2.pass hp.1 env⟩) h (H := [])
    ⟨.start config fresh _, fun _ _ hseen => absurd rfl hseen.created⟩
  refine ⟨fun t ht => ?_, fun id A hcreated hsure hoften => hpersist id A
    ⟨hcreated, fun d hd => (hsure d hd).1, fun d hd => (hsure d hd).2, hoften⟩⟩
  have hlife := hinv.tracks t ht
  exact ⟨hlife.age_eq, hlife.age_le, fun A hA => hlife.smoothed.between hA,
    fun env => Lifetime.deleted_iff hinv env ht⟩

end Lifetime

/-- Two detections of a car in `double`, both of the confidence 0.8. -/
theorem track_lifetime_sure :
    sureTrack.age = 0 ∧
      ∃ d ∈ detections sureTrack.globalId (history sureAdds),
        d.2.confidence - drift (Lib.Binary64.pow2 (-53)) (Lib.Binary64.pow2 (-1075)) 1 ≤
          sureTrack.confidence := by
  have hsure : sureTrack ∈ sureTwice.live := by
    rw [sureTwice_live]
    exact List.mem_singleton_self _
  obtain ⟨hage, -, hbetween, -⟩ := (track_lifetime ratDouble_rounds sureTwice_run
    (by decide)).1 sureTrack hsure
  have hbounded : ∀ d ∈ detections sureTrack.globalId (history sureAdds), |d.2.confidence| ≤ 1 := by
    decide +kernel
  exact ⟨hage, (hbetween 1 hbounded).1⟩

/-- In `double`, `0.7 * 0.8 + 0.3 * 0.8` is below 0.8, so a car detected twice with
the confidence 0.8 is deleted at the threshold 0.8. -/
theorem confidence_rounds_below :
    (¬∀ (tr : List (FusionAct ℚ × List (Touch ℚ))) (p : FusionProcessor ℚ),
      Run (fusionStep .ratDouble) sureStart tr p → ∀ t ∈ p.live,
        ∃ d ∈ detections t.globalId (history tr), d.2.confidence ≤ t.confidence) ∧
    (∀ d ∈ detections 1 (history sureAdds), sureConfig.confidenceThreshold ≤ d.2.confidence) ∧
    sureTrack.globalId ∉ (fusionPass .ratDouble (tick 102) sureTwice).ids := by
  have hsure : sureTrack ∈ sureTwice.live := by
    rw [sureTwice_live]
    exact List.mem_singleton_self _
  have hbelow : sureTrack.confidence < fourFifths := by decide +kernel
  refine ⟨fun h => ?_, by decide +kernel, ?_⟩
  · obtain ⟨d, hd, hle⟩ := h sureAdds sureTwice sureTwice_run sureTrack hsure
    have hconf : ∀ d ∈ detections sureTrack.globalId (history sureAdds),
        d.2.confidence = fourFifths := by decide +kernel
    exact absurd hle (not_le.mpr (by rw [hconf d hd]; exact hbelow))
  · rw [FusionProcessor.ids,
      (tableOk_of_run sureTwice_run).mem_ids_fusionPass (tick 102) hsure]
    decide +kernel

end Mec
