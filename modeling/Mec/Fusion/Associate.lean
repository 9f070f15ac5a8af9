import Mec.Fusion.Repeat

/-!
# Where each detection goes

One round of the outer loop of `fusion_processor_add_tracks` as a relation
between the processor before and after it (`Placed`): the running minimum
starts at the threshold, so the detection goes to the first nearest track below
it if there is one, else to a new slot, else nowhere. Every field of the
processor that this does not name is the same afterwards.
-/

namespace Mec

open Lib.Argmin Lib.Prefix

variable {K : Type} [Field K] [LinearOrder K]

/-- No live track is nearer than the threshold. -/
def Far (libm : Libm K) (p : FusionProcessor K) (meas : TargetTrack K) : Prop :=
  ∀ t ∈ p.live, p.config.associationThreshold ≤ calculateTrackDistance libm t meas

/-- `q` is `p` with one more track. -/
structure Created (libm : Libm K) (sensorId : Int) (p q : FusionProcessor K)
    (meas : TargetTrack K) (old : FusedTrack K) : Prop where
  slot : p.tracks[p.trackCount]? = some old
  tracks : q.tracks = p.tracks.set p.trackCount (newTrack libm old p.nextGlobalId meas sensorId)
  trackCount : q.trackCount = p.trackCount + 1
  nextGlobalId : q.nextGlobalId = p.nextGlobalId + 1
  config : q.config = p.config
  trackCapacity : q.trackCapacity = p.trackCapacity
  outputTracks : q.outputTracks = p.outputTracks

/-- The detection `meas` takes the processor from `p` to `q`. -/
structure Placed (libm : Libm K) (sensorId : Int) (p q : FusionProcessor K)
    (meas : TargetTrack K) : Prop where
  /-- Which track absorbs it is determined. -/
  unique : ∀ j t k s, Nearest libm p.config.associationThreshold p.live meas j t →
    Nearest libm p.config.associationThreshold p.live meas k s → j = k
  far_iff : Far libm p meas ↔
    ¬∃ j t, Nearest libm p.config.associationThreshold p.live meas j t
  absorbed : ∀ j t, Nearest libm p.config.associationThreshold p.live meas j t →
    q = p.setTrack j (absorb libm sensorId t meas)
  created : Far libm p meas → p.trackCount < p.trackCapacity →
    ∃ old, Created libm sensorId p q meas old
  dropped : Far libm p meas → ¬p.trackCount < p.trackCapacity → q = p
  /-- Every other track is the same record at the same index. -/
  others : ∀ k s, p.live[k]? = some s →
    ¬Nearest libm p.config.associationThreshold p.live meas k s → q.live[k]? = some s
  /-- No track is moved or removed. -/
  ids : p.ids <+: q.ids

section Round

variable {libm : Libm K} {p : FusionProcessor K} {meas : TargetTrack K}

theorem Nearest.unique {bound : K} {l : List (FusedTrack K)} {j k : Nat} {t s : FusedTrack K}
    (h : Nearest libm bound l meas j t) (h' : Nearest libm bound l meas k s) : j = k := by
  rcases Nat.lt_trichotomy j k with hlt | heq | hgt
  · exact absurd (h'.before j t h.at_index hlt) (not_lt.mpr (h.after k s h'.at_index hlt))
  · exact heq
  · exact absurd (h.before k s h'.at_index hgt) (not_lt.mpr (h'.after j t h.at_index hgt))

theorem far_iff_no_nearest : Far libm p meas ↔
    ¬∃ j t, Nearest libm p.config.associationThreshold p.live meas j t := by
  constructor
  · rintro hfar ⟨j, t, h⟩
    exact absurd h.near (not_lt.mpr (hfar t (List.mem_of_getElem? h.at_index)))
  · intro hno
    refine associate_none_iff.mp ?_
    cases hassoc : associate libm p meas with
    | none => rfl
    | some j => exact absurd ⟨_, _, associate_eq_some.mp hassoc⟩ hno

theorem addDetection_absorbed (sensorId : Int) {j : Nat} {t : FusedTrack K}
    (h : Nearest libm p.config.associationThreshold p.live meas j t) :
    (addDetection libm sensorId p meas).1 = p.setTrack j (absorb libm sensorId t meas) := by
  obtain ⟨hlt, rfl⟩ := live_getElem?.mp h.at_index
  have hassoc : associate libm p meas = some ⟨j, hlt⟩ := associate_eq_some.mpr h
  unfold addDetection placeDetection
  rw [hassoc]

theorem addDetection_created (sensorId : Int) (hfar : Far libm p meas)
    (hroom : p.trackCount < p.trackCapacity) :
    ∃ old, Created libm sensorId p (addDetection libm sensorId p meas).1 meas old := by
  have hlt : p.trackCount < p.tracks.length := by rw [p.tracks_length]; exact hroom
  unfold addDetection placeDetection
  rw [associate_none_iff.mpr hfar]
  dsimp only
  rw [dif_pos hroom]
  exact ⟨p.tracks[p.trackCount], List.getElem?_eq_getElem hlt, rfl, rfl, rfl, rfl, rfl, rfl⟩

omit [LinearOrder K] in
theorem Created.live {sensorId : Int} {q : FusionProcessor K} {old : FusedTrack K}
    (h : Created libm sensorId p q meas old) :
    q.live = p.live ++ [newTrack libm old p.nextGlobalId meas sensorId] := by
  unfold FusionProcessor.live
  rw [h.tracks, h.trackCount]
  exact take_succ_set (List.getElem?_eq_some_iff.mp h.slot).1 _

theorem addDetection_placed (libm : Libm K) (sensorId : Int) (p : FusionProcessor K)
    (meas : TargetTrack K) :
    Placed libm sensorId p (addDetection libm sensorId p meas).1 meas where
  unique _ _ _ _ h h' := h.unique h'
  far_iff := far_iff_no_nearest
  absorbed _ _ h := addDetection_absorbed sensorId h
  created hfar hroom := addDetection_created sensorId hfar hroom
  dropped hfar hfull := by
    rw [addDetection_full sensorId (associate_none_iff.mpr hfar) hfull]
  others k s hs hk := by
    by_cases hnear : ∃ j t, Nearest libm p.config.associationThreshold p.live meas j t
    · obtain ⟨j, t, h⟩ := hnear
      have hne : j ≠ k := by
        rintro rfl
        obtain rfl := Option.some.inj (h.at_index.symm.trans hs)
        exact hk h
      rw [addDetection_absorbed sensorId h, p.setTrack_live, List.getElem?_set_ne hne]
      exact hs
    · have hfar := far_iff_no_nearest.mpr hnear
      by_cases hroom : p.trackCount < p.trackCapacity
      · obtain ⟨old, h⟩ := addDetection_created sensorId hfar hroom
        rw [h.live, List.getElem?_append_left (List.getElem?_eq_some_iff.mp hs).1]
        exact hs
      · rw [addDetection_full sensorId (associate_none_iff.mpr hfar) hroom]
        exact hs
  ids := by
    unfold FusionProcessor.ids
    by_cases hnear : ∃ j t, Nearest libm p.config.associationThreshold p.live meas j t
    · obtain ⟨j, t, h⟩ := hnear
      rw [addDetection_absorbed sensorId h, p.setTrack_live, set_absorb_globalId h.at_index]
    · have hfar := far_iff_no_nearest.mpr hnear
      by_cases hroom : p.trackCount < p.trackCapacity
      · obtain ⟨old, h⟩ := addDetection_created sensorId hfar hroom
        rw [h.live, List.map_append]
        exact List.prefix_append _ _
      · rw [addDetection_full sensorId (associate_none_iff.mpr hfar) hroom]

end Round

/-! ## The outer loop -/

/-- The processor after the first `i` rounds of the outer loop. -/
def processed (libm : Libm K) (sensorId : Int) (p : FusionProcessor K)
    (detections : List (TargetTrack K)) (i : Nat) : FusionProcessor K :=
  (detections.take i).foldl (fun p meas => (addDetection libm sensorId p meas).1) p

theorem processed_succ (libm : Libm K) (sensorId : Int) (p : FusionProcessor K)
    {detections : List (TargetTrack K)} {i : Nat} {meas : TargetTrack K}
    (h : detections[i]? = some meas) :
    processed libm sensorId p detections (i + 1) =
      (addDetection libm sensorId (processed libm sensorId p detections i) meas).1 := by
  unfold processed
  rw [List.take_add_one, h, List.foldl_append]
  rfl

theorem processed_ids (libm : Libm K) (sensorId : Int) (p : FusionProcessor K)
    (detections : List (TargetTrack K)) {i k : Nat} (hik : i ≤ k) :
    (processed libm sensorId p detections i).ids <+:
      (processed libm sensorId p detections k).ids := by
  induction k, hik using Nat.le_induction with
  | base => exact List.prefix_rfl
  | succ k _ ih =>
    cases hk : detections[k]? with
    | none =>
      have hsame : processed libm sensorId p detections (k + 1) =
          processed libm sensorId p detections k := by
        unfold processed
        rw [List.take_add_one, hk, Option.toList_none, List.append_nil]
      rw [hsame]
      exact ih
    | some meas =>
      rw [processed_succ libm sensorId p hk]
      exact ih.trans (addDetection_placed libm sensorId _ meas).ids

/-- **Nearest-neighbour association with frame.** A call processes its
detections in order. Each one, on the tracks there are by then, is absorbed by
the first nearest track below the threshold, or becomes a new track at the end
of the table, or is dropped because the table is full; all other tracks and
fields are unchanged. Tracks created on the way stay at their index. -/
theorem addTracks_associates (libm : Libm K) (p : FusionProcessor K) (tracks : TrackList K)
    (sensorId : Int) :
    fusionProcessorAddTracks libm p tracks sensorId =
        (0, processed libm sensorId p tracks.contents tracks.count) ∧
      processed libm sensorId p tracks.contents 0 = p ∧
      (∀ i meas, tracks.contents[i]? = some meas →
        Placed libm sensorId (processed libm sensorId p tracks.contents i)
          (processed libm sensorId p tracks.contents (i + 1)) meas) ∧
      ∀ i k, i ≤ k → (processed libm sensorId p tracks.contents i).ids <+:
        (processed libm sensorId p tracks.contents k).ids := by
  refine ⟨?_, rfl, fun i meas h => ?_, fun i k hik => processed_ids libm sensorId p _ hik⟩
  · unfold fusionProcessorAddTracks processed
    rw [← tracks.contents_length, List.take_length]
  · rw [processed_succ libm sensorId p h]
    exact addDetection_placed libm sensorId _ meas

end Mec
