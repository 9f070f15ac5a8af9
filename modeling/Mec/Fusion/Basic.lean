import Mec.Fusion.Kalman
import Mec.TrackList

/-!
# The fusion processor (`fusion_processor.c`)

The table of fused tracks, the association of detections with it
(`fusion_processor_add_tracks`) and one pass of the loop of
`fusion_processing_thread`. The lock makes either an atomic step. `tracks` is
the whole array: a slot past `trackCount` keeps the record of its last
occupant, and a new track is written over that record field by field.
-/

namespace Mec

open Lib.RowMajor Lib.Prefix

structure FusionConfig (K : Type) where
  associationThreshold : K
  confidenceThreshold : K
  maxTrackAge : Int

/-- `fusion_processor_t` without its thread. `outputTracks` is `none` when
`track_list_create` returned `NULL`; otherwise its buffer has room for the
whole table. -/
structure FusionProcessor (K : Type) where
  config : FusionConfig K
  tracks : List (FusedTrack K)
  trackCount : Nat
  trackCapacity : Nat
  nextGlobalId : Int
  outputTracks : Option (TrackList K)
  tracks_length : tracks.length = trackCapacity
  count_le : trackCount ≤ trackCapacity
  output_capacity : ∀ o ∈ outputTracks, trackCapacity ≤ o.capacity

namespace FusionProcessor

variable {K : Type}

def live (p : FusionProcessor K) : List (FusedTrack K) := p.tracks.take p.trackCount

@[simp] theorem live_length (p : FusionProcessor K) : p.live.length = p.trackCount := by
  rw [live, List.length_take, p.tracks_length, Nat.min_eq_left p.count_le]

theorem lt_length (p : FusionProcessor K) {i : Nat} (h : i < p.trackCount) :
    i < p.tracks.length := by
  rw [p.tracks_length]
  exact Nat.lt_of_lt_of_le h p.count_le

/-- `&processor->tracks[i]` for a live index. -/
def track (p : FusionProcessor K) (i : Nat) (h : i < p.trackCount) : FusedTrack K :=
  p.tracks.get ⟨i, p.lt_length h⟩

def setTrack (p : FusionProcessor K) (i : Nat) (t : FusedTrack K) : FusionProcessor K :=
  { p with
    tracks := p.tracks.set i t
    tracks_length := by rw [List.length_set, p.tracks_length] }

theorem track_eq_live (p : FusionProcessor K) (i : Nat) (h : i < p.trackCount) :
    p.live[i]? = some (p.track i h) := by
  rw [live, List.getElem?_take_of_lt h, List.getElem?_eq_getElem (p.lt_length h)]
  rfl

theorem track_last_live (p : FusionProcessor K) (h : p.trackCount - 1 < p.trackCount) :
    p.live.getLast? = some (p.track (p.trackCount - 1) h) := by
  rw [List.getLast?_eq_getElem?, p.live_length]
  exact p.track_eq_live _ h

@[simp] theorem setTrack_live (p : FusionProcessor K) (i : Nat) (t : FusedTrack K) :
    (p.setTrack i t).live = p.live.set i t := List.take_set

/-- `track_count--`. -/
def dropLast (p : FusionProcessor K) : FusionProcessor K :=
  { p with
    trackCount := p.trackCount - 1
    count_le := Nat.le_trans (Nat.sub_le _ _) p.count_le }

@[simp] theorem dropLast_live (p : FusionProcessor K) : p.dropLast.live = p.live.dropLast := by
  rw [List.dropLast_eq_take, p.live_length, live, live, List.take_take]
  exact congrArg (p.tracks.take ·) (Nat.min_eq_left (Nat.sub_le _ _)).symm

/-- `track_count++` below the capacity. -/
def extend (p : FusionProcessor K) (h : p.trackCount < p.trackCapacity) : FusionProcessor K :=
  { p with
    trackCount := p.trackCount + 1
    count_le := h }

end FusionProcessor

variable {K : Type} [Field K] [LinearOrder K]

/-- `fusion_processor_create`, once its two blocks are allocated; `fresh` is the
allocator's answer to `track_list_create`. -/
def fusionProcessorCreate (config : FusionConfig K) (fresh : Fresh K) : FusionProcessor K where
  config := config
  tracks := List.replicate 100 .zero
  trackCount := 0
  trackCapacity := 100
  nextGlobalId := 1
  outputTracks := trackListCreate fresh 100
  tracks_length := List.length_replicate
  count_le := Nat.zero_le _
  output_capacity := by
    intro o ho
    cases fresh with
    | none => cases ho
    | some g => cases ho; exact Nat.le_refl _

/-! ## Association -/

/-- `0.7 * confidence + 0.3 * sensor` in `double`: the two constants, the products
and the sum are rounded. -/
def smoothConfidence (libm : Libm K) (confidence sensor : K) : K :=
  libm.round (libm.round (libm.round 0.7 * confidence) + libm.round (libm.round 0.3 * sensor))

/-- `update_fused_track`: the filter's return code is ignored. -/
def updateFusedTrack (libm : Libm K) (fusedTrack : FusedTrack K) (sensorTrack : TargetTrack K) :
    FusedTrack K :=
  { fusedTrack with
    filterState := (updateKalmanFilter libm fusedTrack.filterState sensorTrack).2
    confidence := smoothConfidence libm fusedTrack.confidence sensorTrack.confidence
    age := 0
    lastUpdate := sensorTrack.timestamp }

def sensorBit (sensorId : Int) : BitVec 32 := 1#32 <<< (sensorId - 1).toNat

/-- The distance of a detection from the track at `j`. -/
def distanceAt (libm : Libm K) (p : FusionProcessor K) (meas : TargetTrack K)
    (j : Fin p.trackCount) : K :=
  calculateTrackDistance libm (p.track j j.isLt) meas

/-- `best_idx` after the inner loop of `fusion_processor_add_tracks`: the first
track strictly nearer than every one before it and than the threshold. -/
def associate (libm : Libm K) (p : FusionProcessor K) (meas : TargetTrack K) :
    Option (Fin p.trackCount) :=
  let closer (best : Option (Fin p.trackCount) × K) (j : Fin p.trackCount) :=
    let dist := distanceAt libm p meas j
    if dist < best.2 then (some j, dist) else best
  ((List.finRange p.trackCount).foldl closer (none, p.config.associationThreshold)).1

theorem associate_eq_none {libm : Libm K} {p : FusionProcessor K} {meas : TargetTrack K}
    (h : ∀ t ∈ p.live,
      ¬ calculateTrackDistance libm t meas < p.config.associationThreshold) :
    associate libm p meas = none := by
  refine congrArg Prod.fst (List.foldl_fixed' (fun j => ?_) (List.finRange p.trackCount))
  exact if_neg (h _ (List.mem_of_getElem? (p.track_eq_live j j.isLt)))

/-- The record of a new track, written into the slot `old`. -/
def newTrack (libm : Libm K) (old : FusedTrack K) (globalId : Int) (meas : TargetTrack K)
    (sensorId : Int) : FusedTrack K :=
  { old with
    globalId := globalId
    type := meas.type
    confidence := meas.confidence
    age := 0
    sensorMask := sensorBit sensorId
    filterState := (initializeKalmanFilter libm old.filterState meas).2 }

/-- What a track becomes when it absorbs a detection. -/
def absorb (libm : Libm K) (sensorId : Int) (t : FusedTrack K) (meas : TargetTrack K) :
    FusedTrack K :=
  let t := updateFusedTrack libm t meas
  { t with sensorMask := t.sensorMask ||| sensorBit sensorId }

/-- What became of a detection: it was absorbed by the track `globalId`, or
created it over a slot whose record was `old`, or found no room. -/
inductive Touch (K : Type) where
  | absorbed (globalId : Int) (meas : TargetTrack K)
  | created (globalId : Int) (meas : TargetTrack K) (old : FusedTrack K)
  | dropped (meas : TargetTrack K)

/-- The part of a round of `fusion_processor_add_tracks` that follows the
association: `found` is `best_idx`. -/
def placeDetection (libm : Libm K) (sensorId : Int) (p : FusionProcessor K)
    (meas : TargetTrack K) (found : Option (Fin p.trackCount)) : FusionProcessor K × Touch K :=
  match found with
  | some j =>
    let t := absorb libm sensorId (p.track j j.isLt) meas
    (p.setTrack j t, .absorbed t.globalId meas)
  | none =>
    if h : p.trackCount < p.trackCapacity then
      let p' := p.extend h
      let old := p'.track p.trackCount (Nat.lt_succ_self _)
      ({ p'.setTrack p.trackCount (newTrack libm old p.nextGlobalId meas sensorId) with
          nextGlobalId := p.nextGlobalId + 1 },
        .created p.nextGlobalId meas old)
    else (p, .dropped meas)

/-- One round of the outer loop of `fusion_processor_add_tracks`. -/
def addDetection (libm : Libm K) (sensorId : Int) (p : FusionProcessor K)
    (meas : TargetTrack K) : FusionProcessor K × Touch K :=
  placeDetection libm sensorId p meas (associate libm p meas)

/-- The same round as far as C defines it: the update of the nearest track may
not be. -/
def addDetectionChecked (libm : Libm K) (sensorId : Int) (p : FusionProcessor K)
    (meas : TargetTrack K) : Option (FusionProcessor K × Touch K) :=
  match associate libm p meas with
  | some j => (updateKalmanFilterChecked (p.track j j.isLt).filterState meas).map fun _ =>
      addDetection libm sensorId p meas
  | none => some (addDetection libm sensorId p meas)

theorem addDetection_cases (libm : Libm K) (sensorId : Int) (p : FusionProcessor K)
    (meas : TargetTrack K) :
    (∃ (j : Nat) (t : FusedTrack K), p.live[j]? = some t ∧
      (addDetection libm sensorId p meas).2 = .absorbed t.globalId meas ∧
      (addDetection libm sensorId p meas).1.live = p.live.set j (absorb libm sensorId t meas) ∧
      (addDetection libm sensorId p meas).1.nextGlobalId = p.nextGlobalId) ∨
    (∃ old, (addDetection libm sensorId p meas).2 = .created p.nextGlobalId meas old ∧
      (addDetection libm sensorId p meas).1.live =
        p.live ++ [newTrack libm old p.nextGlobalId meas sensorId] ∧
      (addDetection libm sensorId p meas).1.nextGlobalId = p.nextGlobalId + 1) ∨
    addDetection libm sensorId p meas = (p, .dropped meas) := by
  unfold addDetection placeDetection
  split
  · next j _ =>
    exact .inl ⟨j, _, p.track_eq_live j j.isLt, rfl, p.setTrack_live _ _, rfl⟩
  · split
    · next h =>
      refine .inr (.inl ⟨_, rfl, ?_, rfl⟩)
      have hlt : p.trackCount < p.tracks.length := by rw [p.tracks_length]; exact h
      exact take_succ_set hlt _
    · exact .inr (.inr rfl)

/-- With room in the table such a detection becomes a track. -/
theorem addDetection_new {libm : Libm K} (sensorId : Int) {p : FusionProcessor K}
    {meas : TargetTrack K} (hnone : associate libm p meas = none)
    (hroom : p.trackCount < p.trackCapacity) :
    ∃ old, (addDetection libm sensorId p meas).2 = .created p.nextGlobalId meas old ∧
      (addDetection libm sensorId p meas).1.live =
        p.live ++ [newTrack libm old p.nextGlobalId meas sensorId] ∧
      (addDetection libm sensorId p meas).1.nextGlobalId = p.nextGlobalId + 1 ∧
      (addDetection libm sensorId p meas).1.config = p.config := by
  unfold addDetection placeDetection
  rw [hnone]
  dsimp only
  rw [dif_pos hroom]
  refine ⟨_, rfl, ?_, rfl, rfl⟩
  have hlt : p.trackCount < p.tracks.length := by rw [p.tracks_length]; exact hroom
  exact take_succ_set hlt _

theorem addDetection_frame (libm : Libm K) (sensorId : Int) (p : FusionProcessor K)
    (meas : TargetTrack K) :
    (addDetection libm sensorId p meas).1.trackCapacity = p.trackCapacity ∧
      (addDetection libm sensorId p meas).1.outputTracks = p.outputTracks := by
  unfold addDetection placeDetection
  split
  · exact ⟨rfl, rfl⟩
  · split
    · exact ⟨rfl, rfl⟩
    · exact ⟨rfl, rfl⟩

/-- `fusion_processor_add_tracks` on non-`NULL` arguments. -/
def fusionProcessorAddTracks (libm : Libm K) (p : FusionProcessor K) (tracks : TrackList K)
    (sensorId : Int) : Int × FusionProcessor K :=
  (0, tracks.contents.foldl (fun p meas => (addDetection libm sensorId p meas).1) p)

end Mec
