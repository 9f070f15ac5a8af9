import Mec.Fusion.Kalman
import Mec.V2x.Codec

/-!
# The video thread (`video_processor.cpp`)

One round of the loop of `video_processing_thread` on a frame that was read: the
detections are matched with the tracks of the frame before, moved to world
coordinates if the camera is calibrated, and copied for the next round. A round
whose `cap.read` fails changes nothing and is left out. The lock makes a round
atomic.
-/

namespace Mec

variable {K : Type}

structure ImageCoord where
  x : Int
  y : Int
  deriving DecidableEq, Repr

/-- `perspective_transform_t`, the matrix row by row. -/
structure PerspectiveTransform (K : Type) where
  matrix : Vector K 9
  calibrated : Int

/-- The same camera without its calibration. -/
def PerspectiveTransform.uncalibrated (transform : PerspectiveTransform K) :
    PerspectiveTransform K :=
  { transform with calibrated := 0 }

/-- What a round works on: the size of the frame, what `detect_targets` returned
and left in the cleared list, and the allocator's answers while the tracks are
copied. -/
structure VideoFrame (K : Type) where
  cols : Int
  rows : Int
  code : Int
  detections : List (TargetTrack K)
  fresh : Nat → Fresh K

/-- The thread's `previous_tracks` and the counter `new_id`. -/
structure VideoThread (K : Type) where
  previousTracks : TrackList K
  newId : Int

/-- Before the first frame; the counter is where earlier threads left it. -/
def videoThreadStart (fresh : Fresh K) (newId : Int) : Option (VideoThread K) :=
  (trackListCreate fresh 100).map fun previousTracks => ⟨previousTracks, newId⟩

def copyTracks (list : TrackList K) : List (TargetTrack K) → (Nat → Fresh K) → TrackList K
  | [], _ => list
  | t :: ts, fresh => copyTracks (trackListAdd (fresh 0) list t).2 ts fun n => fresh (n + 1)

section Arithmetic

variable [Field K] [LinearOrder K]

/-- `transform_image_to_wgs84`, `none` where it returns -1. -/
def transformImageToWgs84 (transform : PerspectiveTransform K) (imageCoord : ImageCoord) :
    Option (Wgs84Coord K) :=
  if transform.calibrated = 0 then none
  else
    let m := transform.matrix
    let x : K := imageCoord.x
    let y : K := imageCoord.y
    let w := m[6] * x + m[7] * y + m[8]
    if |w| < 1e-10 then none
    else
      let worldX := (m[0] * x + m[1] * y + m[2]) / w
      let worldY := (m[3] * x + m[4] * y + m[5]) / w
      some { latitude := worldY, longitude := worldX, altitude := 0 }

/-- Where the loop over the output tracks puts a detection at `position`. -/
def worldPosition (host : Host K) (transform : PerspectiveTransform K) (frame : VideoFrame K)
    (position : Wgs84Coord K) : Wgs84Coord K :=
  let imgCoord : ImageCoord :=
    ⟨(host.toInt32 (position.longitude * frame.cols)).toInt,
      (host.toInt32 (position.latitude * frame.rows)).toInt⟩
  (transformImageToWgs84 transform imgCoord).getD position

/-- The test of `track_targets`. -/
def near (libm : Libm K) (current previous : Wgs84Coord K) : Bool :=
  let dx := current.longitude - previous.longitude
  let dy := current.latitude - previous.latitude
  libm.sqrt (dx * dx + dy * dy) < 0.1

/-- The id of the first previous track near the detection. -/
def matchedId (libm : Libm K) (previous : List (TargetTrack K)) (t : TargetTrack K) : Option Int :=
  (previous.find? fun u => near libm t.position u.position).map TargetTrack.id

/-- `track_targets`; `newId` is its static counter. -/
def trackTargets (libm : Libm K) (previous : List (TargetTrack K)) :
    List (TargetTrack K) → Int → List (TargetTrack K) × Int
  | [], newId => ([], newId)
  | t :: ts, newId =>
    match matchedId libm previous t with
    | some id =>
      let (rest, n) := trackTargets libm previous ts newId
      ({ t with id } :: rest, n)
    | none =>
      let (rest, n) := trackTargets libm previous ts (newId + 1)
      ({ t with id := newId } :: rest, n)

def transformTracks (host : Host K) (transform : PerspectiveTransform K) (frame : VideoFrame K)
    (tracks : List (TargetTrack K)) : List (TargetTrack K) :=
  if transform.calibrated = 0 then tracks
  else tracks.map fun t => { t with position := worldPosition host transform frame t.position }

/-- One round of `video_processing_thread`: the output tracks and the thread
after it. -/
def videoRound (libm : Libm K) (host : Host K) (transform : PerspectiveTransform K)
    (s : VideoThread K) (frame : VideoFrame K) : List (TargetTrack K) × VideoThread K :=
  let (output, newId) :=
    if frame.code = 0 then
      let tracked := trackTargets libm s.previousTracks.contents frame.detections s.newId
      (transformTracks host transform frame tracked.1, tracked.2)
    else (frame.detections, s.newId)
  (output, ⟨copyTracks (trackListClear s.previousTracks) output frame.fresh, newId⟩)

/-- The output tracks of every round. -/
def videoProcessingThread (libm : Libm K) (host : Host K) (transform : PerspectiveTransform K) :
    VideoThread K → List (VideoFrame K) → List (List (TargetTrack K))
  | _, [] => []
  | s, frame :: frames =>
    (videoRound libm host transform s frame).1 ::
      videoProcessingThread libm host transform (videoRound libm host transform s frame).2 frames

end Arithmetic

/-! ## What a round keeps -/

/-- The copy of a frame's tracks cannot fail: the list has room for them from
the start, or the allocator always finds more. -/
def VideoFrame.Copied (frame : VideoFrame K) : Prop :=
  frame.detections.length ≤ 100 ∨ ∀ n, (frame.fresh n).isSome

theorem copyTracks_capacity (ts : List (TargetTrack K)) (fresh : Nat → Fresh K)
    (l : TrackList K) : l.capacity ≤ (copyTracks l ts fresh).capacity := by
  induction ts generalizing l fresh with
  | nil => exact Nat.le_refl _
  | cons t ts ih => exact Nat.le_trans (trackListAdd_capacity _ l t) (ih _ _)

theorem copyTracks_contents {l : TrackList K} (hpos : 0 < l.capacity) (ts : List (TargetTrack K))
    (fresh : Nat → Fresh K)
    (h : l.count + ts.length ≤ l.capacity ∨ ∀ n, (fresh n).isSome) :
    (copyTracks l ts fresh).contents = l.contents ++ ts := by
  induction ts generalizing l fresh with
  | nil => exact (List.append_nil _).symm
  | cons t ts ih =>
    have hroom : l.count < l.capacity ∨ (fresh 0).isSome :=
      h.imp (fun h => by rw [List.length_cons] at h; omega) (fun h => h 0)
    have hret := (trackListAdd_eq_zero hpos t).mpr hroom
    have hcap := trackListAdd_capacity (fresh 0) l t
    rcases trackListAdd_cases (fresh 0) l t with ⟨-, hadd⟩ | hfail
    · have hcount : (trackListAdd (fresh 0) l t).2.count = l.count + 1 := by
        rw [← TrackList.contents_length, hadd, List.length_append, l.contents_length]
        rfl
      rw [copyTracks, ih (by omega), hadd, List.append_assoc]
      · rfl
      · refine h.imp (fun h => ?_) (fun h n => h (n + 1))
        rw [List.length_cons] at h
        omega
    · rw [hfail] at hret
      cases hret

section Arithmetic

variable [Field K] [LinearOrder K] (libm : Libm K) (host : Host K)

theorem transformImageToWgs84_uncalibrated (transform : PerspectiveTransform K)
    (imageCoord : ImageCoord) : transformImageToWgs84 transform.uncalibrated imageCoord = none :=
  if_pos rfl

/-- Where a frame's detections are stored for the next round. -/
def VideoFrame.storedPositions (transform : PerspectiveTransform K) (frame : VideoFrame K) :
    List (Wgs84Coord K) :=
  if frame.code = 0 then
    frame.detections.map fun t => worldPosition host transform frame t.position
  else frame.detections.map TargetTrack.position

theorem storedPositions_uncalibrated (transform : PerspectiveTransform K) (frame : VideoFrame K) :
    frame.storedPositions host transform.uncalibrated =
      frame.detections.map TargetTrack.position := by
  unfold VideoFrame.storedPositions
  split
  · refine List.map_congr_left fun t _ => ?_
    rw [worldPosition, transformImageToWgs84_uncalibrated]
    rfl
  · rfl

theorem transformTracks_position (transform : PerspectiveTransform K) (frame : VideoFrame K)
    (tracks : List (TargetTrack K)) :
    (transformTracks host transform frame tracks).map TargetTrack.position =
      (tracks.map TargetTrack.position).map (worldPosition host transform frame) := by
  unfold transformTracks
  split
  case isTrue hcal =>
    have hstay : worldPosition host transform frame = id := by
      funext position
      simp only [worldPosition, transformImageToWgs84, if_pos hcal, Option.getD_none, id]
    rw [hstay, List.map_id]
  case isFalse => rw [List.map_map, List.map_map]; rfl

@[simp] theorem transformTracks_id (transform : PerspectiveTransform K) (frame : VideoFrame K)
    (tracks : List (TargetTrack K)) :
    (transformTracks host transform frame tracks).map TargetTrack.id =
      tracks.map TargetTrack.id := by
  unfold transformTracks
  split
  · rfl
  · rw [List.map_map]
    rfl

theorem trackTargets_position (previous ts : List (TargetTrack K)) (newId : Int) :
    (trackTargets libm previous ts newId).1.map TargetTrack.position =
      ts.map TargetTrack.position := by
  induction ts generalizing newId with
  | nil => rfl
  | cons t ts ih =>
    rw [trackTargets]
    split
    · exact congrArg (t.position :: ·) (ih newId)
    · exact congrArg (t.position :: ·) (ih (newId + 1))

theorem trackTargets_congr {P Q : List (TargetTrack K)} {ts : List (TargetTrack K)}
    (h : ∀ t ∈ ts, matchedId libm P t = matchedId libm Q t) (newId : Int) :
    trackTargets libm P ts newId = trackTargets libm Q ts newId := by
  induction ts generalizing newId with
  | nil => rfl
  | cons t ts ih =>
    rw [trackTargets, trackTargets, h t List.mem_cons_self]
    split
    · rw [ih fun t ht => h t (List.mem_cons_of_mem _ ht)]
    · rw [ih fun t ht => h t (List.mem_cons_of_mem _ ht)]

theorem trackTargets_id {previous ts : List (TargetTrack K)} {i : Nat} {t : TargetTrack K}
    {id : Int} (ht : ts[i]? = some t) (hid : matchedId libm previous t = some id) (newId : Int) :
    ((trackTargets libm previous ts newId).1.map TargetTrack.id)[i]? = some id := by
  induction ts generalizing i newId with
  | nil => cases ht
  | cons t₀ ts ih =>
    rw [trackTargets]
    cases i with
    | zero =>
      obtain rfl : t₀ = t := Option.some.inj ht
      rw [hid]
      rfl
    | succ i =>
      rw [List.getElem?_cons_succ] at ht
      split
      · exact ih ht newId
      · exact ih ht (newId + 1)

theorem videoRound_position (transform : PerspectiveTransform K) (s : VideoThread K)
    (frame : VideoFrame K) :
    (videoRound libm host transform s frame).1.map TargetTrack.position =
      frame.storedPositions host transform := by
  unfold videoRound VideoFrame.storedPositions
  by_cases hcode : frame.code = 0
  · rw [if_pos hcode, if_pos hcode, transformTracks_position, trackTargets_position,
      List.map_map]
    rfl
  · rw [if_neg hcode, if_neg hcode]

@[simp] theorem videoRound_length (transform : PerspectiveTransform K) (s : VideoThread K)
    (frame : VideoFrame K) :
    (videoRound libm host transform s frame).1.length = frame.detections.length := by
  have h := congrArg List.length (videoRound_position libm host transform s frame)
  unfold VideoFrame.storedPositions at h
  split at h <;> rwa [List.length_map, List.length_map] at h

theorem videoRound_capacity (transform : PerspectiveTransform K) (s : VideoThread K)
    (frame : VideoFrame K) :
    s.previousTracks.capacity ≤
      (videoRound libm host transform s frame).2.previousTracks.capacity :=
  copyTracks_capacity _ _ (trackListClear s.previousTracks)

theorem videoRound_previousTracks (transform : PerspectiveTransform K) {s : VideoThread K}
    (hcap : 100 ≤ s.previousTracks.capacity) {frame : VideoFrame K} (hcopied : frame.Copied) :
    (videoRound libm host transform s frame).2.previousTracks.contents =
      (videoRound libm host transform s frame).1 := by
  refine copyTracks_contents (l := trackListClear s.previousTracks) ?_ _ _ ?_
  · exact Nat.lt_of_lt_of_le (by decide) hcap
  · refine hcopied.imp_left fun h => ?_
    show 0 + (videoRound libm host transform s frame).1.length ≤ s.previousTracks.capacity
    rw [videoRound_length]
    omega

end Arithmetic

end Mec
