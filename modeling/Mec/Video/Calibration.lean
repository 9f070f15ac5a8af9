import Mec.V2x.Encodable
import Mec.Video.Basic

/-!
# Calibration and track identity

Two runs on the same frames, one with the camera's calibration and one without.
A round matches the detections, which are image positions, with the tracks the
last round stored. These stand where the transform put them: the comparison is
between an image position and a world position. The ids of the two runs agree
as long as every detection meets the same first track either way.
-/

namespace Mec

variable {K : Type} [Field K] [LinearOrder K]

section Match

variable (libm : Libm K)

/-- The first of the positions near `position`. -/
def firstNear (position : Wgs84Coord K) (positions : List (Wgs84Coord K)) : Option Nat :=
  positions.findIdx? (near libm position)

theorem matchedId_eq (previous : List (TargetTrack K)) (t : TargetTrack K) :
    matchedId libm previous t =
      (firstNear libm t.position (previous.map TargetTrack.position)).bind fun j =>
        (previous.map TargetTrack.id)[j]? := by
  unfold matchedId firstNear
  rw [List.find?_eq_bind_findIdx?_getElem?, List.findIdx?_map, Option.map_bind]
  refine congrArg (Option.bind _) (funext fun j => ?_)
  exact List.getElem?_map.symm

theorem firstNear_of_unique {position q : Wgs84Coord K} {positions : List (Wgs84Coord K)}
    {j : Nat} (hj : positions[j]? = some q) (hnear : near libm position q = true)
    (honly : ∀ j' q', positions[j']? = some q' → near libm position q' = true → j' = j) :
    firstNear libm position positions = some j := by
  cases h : firstNear libm position positions with
  | none =>
    have hnone := List.findIdx?_eq_none_iff.mp h q (List.mem_of_getElem? hj)
    rw [hnear] at hnone
    cases hnone
  | some j' =>
    obtain ⟨hlt, hp, -⟩ := List.findIdx?_eq_some_iff_getElem.mp h
    rw [honly j' _ (List.getElem?_eq_getElem hlt) hp]

end Match

section Runs

variable (libm : Libm K) (host : Host K) (transform : PerspectiveTransform K)

def videoIds (s : VideoThread K) (frames : List (VideoFrame K)) : List (List Int) :=
  (videoProcessingThread libm host transform s frames).map (List.map TargetTrack.id)

def idAt (s : VideoThread K) (frames : List (VideoFrame K)) (k i : Nat) : Option Int :=
  (videoIds libm host transform s frames)[k]?.bind fun ids => ids[i]?

/-- The ids are those of the run without calibration, and a detection near
exactly one detection of the previous frame has that detection's id. -/
def KeepsIdentity (s : VideoThread K) (frames : List (VideoFrame K)) : Prop :=
  videoIds libm host transform s frames = videoIds libm host transform.uncalibrated s frames ∧
  ∀ (k : Nat) (f g : VideoFrame K) (i j : Nat) (t u : TargetTrack K),
    frames[k]? = some f → frames[k + 1]? = some g → g.code = 0 →
    g.detections[i]? = some t → f.detections[j]? = some u →
    near libm t.position u.position = true →
    (∀ j' u', f.detections[j']? = some u' → near libm t.position u'.position = true → j' = j) →
    ∃ id, idAt libm host transform s frames k j = some id ∧
      idAt libm host transform s frames (k + 1) i = some id

/-- Every detection of `g` meets the same first track of `f` whether the tracks
stand where they were detected or where the transform put them. -/
def SameMatches (f g : VideoFrame K) : Prop :=
  g.code = 0 → ∀ t ∈ g.detections,
    firstNear libm t.position (f.storedPositions host transform) =
      firstNear libm t.position (f.detections.map TargetTrack.position)

/-! ## The two runs side by side -/

/-- A round's ids and the counter after it come from the matches alone. -/
theorem videoRound_ids_congr (transform' : PerspectiveTransform K) {s s' : VideoThread K}
    {frame : VideoFrame K} (hnew : s.newId = s'.newId)
    (hmatch : frame.code = 0 → ∀ t ∈ frame.detections,
      matchedId libm s.previousTracks.contents t = matchedId libm s'.previousTracks.contents t) :
    (videoRound libm host transform s frame).1.map TargetTrack.id =
        (videoRound libm host transform' s' frame).1.map TargetTrack.id ∧
      (videoRound libm host transform s frame).2.newId =
        (videoRound libm host transform' s' frame).2.newId := by
  unfold videoRound
  by_cases hcode : frame.code = 0
  · rw [if_pos hcode, if_pos hcode, transformTracks_id, transformTracks_id,
      trackTargets_congr libm (hmatch hcode), hnew]
    exact ⟨rfl, rfl⟩
  · rw [if_neg hcode, if_neg hcode]
    exact ⟨rfl, hnew⟩

/-- The matches in the frame after `f`, in terms of `f`. -/
theorem matchedId_next {s : VideoThread K} (hcap : 100 ≤ s.previousTracks.capacity)
    {f : VideoFrame K} (hcopied : f.Copied) (t : TargetTrack K) :
    matchedId libm (videoRound libm host transform s f).2.previousTracks.contents t =
      (firstNear libm t.position (f.storedPositions host transform)).bind fun j =>
        ((videoRound libm host transform s f).1.map TargetTrack.id)[j]? := by
  rw [videoRound_previousTracks libm host transform hcap hcopied, matchedId_eq,
    videoRound_position]

variable {libm host transform}

theorem videoIds_eq_uncalibrated {frames : List (VideoFrame K)}
    (hcopied : ∀ f ∈ frames, f.Copied)
    (hsame : frames.IsChain (SameMatches libm host transform)) {s s' : VideoThread K}
    (hcap : 100 ≤ s.previousTracks.capacity) (hcap' : 100 ≤ s'.previousTracks.capacity)
    (hnew : s.newId = s'.newId)
    (hfirst : ∀ f ∈ frames.head?, f.code = 0 → ∀ t ∈ f.detections,
      matchedId libm s.previousTracks.contents t = matchedId libm s'.previousTracks.contents t) :
    videoIds libm host transform s frames =
      videoIds libm host transform.uncalibrated s' frames := by
  induction frames generalizing s s' with
  | nil => rfl
  | cons f frames ih =>
    obtain ⟨hnext, hsame⟩ := List.isChain_cons.mp hsame
    have hf := hcopied f List.mem_cons_self
    obtain ⟨hids, hnew⟩ := videoRound_ids_congr libm host transform transform.uncalibrated hnew
      (hfirst f rfl)
    have hrest := ih (fun g hg => hcopied g (List.mem_cons_of_mem _ hg)) hsame
      (hcap.trans (videoRound_capacity ..)) (hcap'.trans (videoRound_capacity ..)) hnew ?_
    · exact congrArg₂ List.cons hids hrest
    · -- the two runs stored the same ids, at the positions the condition compares
      intro g hg hcode t ht
      rw [matchedId_next libm host transform hcap hf,
        matchedId_next libm host transform.uncalibrated hcap' hf, hids,
        storedPositions_uncalibrated, hnext g hg hcode t ht]

theorem videoRound_takes_id {s : VideoThread K} (hcap : 100 ≤ s.previousTracks.capacity)
    {f g : VideoFrame K} (hcopied : f.Copied) (hcode : g.code = 0) {i j : Nat}
    {t u : TargetTrack K} (ht : g.detections[i]? = some t) (hu : f.detections[j]? = some u)
    (hfirst : firstNear libm t.position (f.storedPositions host transform) = some j) :
    ∃ id, ((videoRound libm host transform s f).1.map TargetTrack.id)[j]? = some id ∧
      ((videoRound libm host transform (videoRound libm host transform s f).2 g).1.map
        TargetTrack.id)[i]? = some id := by
  have hj : j < ((videoRound libm host transform s f).1.map TargetTrack.id).length := by
    rw [List.length_map, videoRound_length]
    exact (List.getElem?_eq_some_iff.mp hu).1
  refine ⟨_, List.getElem?_eq_getElem hj, ?_⟩
  have hid := matchedId_next libm host transform hcap hcopied t
  rw [hfirst, Option.bind_some, List.getElem?_eq_getElem hj] at hid
  have htaken := trackTargets_id libm ht hid (videoRound libm host transform s f).2.newId
  rw [videoRound, if_pos hcode, transformTracks_id]
  exact htaken

theorem idAt_succ {frames : List (VideoFrame K)}
    {s : VideoThread K} (hcap : 100 ≤ s.previousTracks.capacity) {k : Nat} {f g : VideoFrame K}
    (hf : frames[k]? = some f) (hg : frames[k + 1]? = some g) :
    ∃ s' : VideoThread K, 100 ≤ s'.previousTracks.capacity ∧
      (∀ j, idAt libm host transform s frames k j =
        ((videoRound libm host transform s' f).1.map TargetTrack.id)[j]?) ∧
      ∀ i, idAt libm host transform s frames (k + 1) i =
        ((videoRound libm host transform (videoRound libm host transform s' f).2 g).1.map
          TargetTrack.id)[i]? := by
  induction frames generalizing s k with
  | nil => cases hf
  | cons f₀ frames ih =>
    cases k with
    | zero =>
      obtain rfl : f₀ = f := Option.some.inj hf
      cases frames with
      | nil => cases hg
      | cons g₀ frames =>
        obtain rfl : g₀ = g := Option.some.inj hg
        exact ⟨s, hcap, fun _ => rfl, fun _ => rfl⟩
    | succ k =>
      exact ih (hcap.trans (videoRound_capacity ..)) hf hg

variable (libm host transform)

/-- **When calibration keeps the identities**: every detection meets the same
first track before and after the transform, and no copy of a frame's tracks is
cut short. -/
theorem calibration_keeps_identity {fresh : Fresh K} {newId : Int} {s : VideoThread K}
    (hs : videoThreadStart fresh newId = some s) {frames : List (VideoFrame K)}
    (hcopied : ∀ f ∈ frames, f.Copied)
    (hsame : frames.IsChain (SameMatches libm host transform)) :
    KeepsIdentity libm host transform s frames := by
  obtain ⟨l, hl, rfl⟩ := Option.map_eq_some_iff.mp hs
  have hcap : 100 ≤ l.capacity := (trackListCreate_eq hl).2.1.ge
  refine ⟨videoIds_eq_uncalibrated hcopied hsame hcap hcap rfl fun _ _ _ _ _ => rfl, ?_⟩
  intro k f g i j t u hf hg hcode ht hu hnear honly
  have hfirst : firstNear libm t.position (f.detections.map TargetTrack.position) = some j := by
    refine firstNear_of_unique libm (by rw [List.getElem?_map, hu]; rfl) hnear ?_
    intro j' q' hj' hq'
    rw [List.getElem?_map] at hj'
    obtain ⟨u', hu', rfl⟩ := Option.map_eq_some_iff.mp hj'
    exact honly j' u' hu' hq'
  have hpair : SameMatches libm host transform f g := by
    obtain ⟨hk, rfl⟩ := List.getElem?_eq_some_iff.mp hf
    obtain ⟨hk', rfl⟩ := List.getElem?_eq_some_iff.mp hg
    exact List.isChain_iff_getElem.mp hsame k hk'
  have hstored := (hpair hcode t (List.mem_of_getElem? ht)).trans hfirst
  obtain ⟨s', hcap', hidf, hidg⟩ := idAt_succ (s := ⟨l, newId⟩) hcap hf hg
  rw [hidf, hidg]
  exact videoRound_takes_id hcap' (hcopied f (List.mem_of_getElem? hf)) hcode ht hu hstored

end Runs

/-! ## A car that does not move -/

def carFrame : VideoFrame ℚ where
  cols := 100
  rows := 100
  code := 0
  detections := [{ parkedCar 1 with position := ⟨0.3, 0.4, 0⟩ }]
  fresh _ := none

/-- A camera calibrated to the scale of the image: pixels go back to where they
came from. -/
def scaled : PerspectiveTransform ℚ := ⟨#v[1 / 100, 0, 0, 0, 1 / 100, 0, 0, 0, 1], 1⟩

theorem calibration_keeps_identity_scaled :
    ∃ s, videoThreadStart (some fun _ => parkedCar 0) 1000 = some s ∧
      KeepsIdentity .ratSqrt (Host.wrapping .little) scaled s [carFrame, carFrame] := by
  have hsame : SameMatches .ratSqrt (Host.wrapping .little) scaled carFrame carFrame := by
    intro _ t ht
    obtain rfl := List.mem_singleton.mp ht
    decide +kernel
  obtain ⟨s, hs⟩ : ∃ s, videoThreadStart (some fun _ => parkedCar 0) 1000 = some s := ⟨_, rfl⟩
  refine ⟨s, hs, calibration_keeps_identity .ratSqrt (Host.wrapping .little) scaled hs ?_ ?_⟩
  · intro f hf
    obtain rfl : f = carFrame := by simpa using hf
    exact .inl (by decide)
  · exact .cons_cons hsame (.singleton _)

def shifted : PerspectiveTransform ℚ := ⟨#v[1 / 100, 0, 3, 0, 1 / 100, 4, 0, 0, 1], 1⟩

/-- The car is a new one in every frame. -/
theorem calibration_changes_ids :
    ∃ s, videoThreadStart (some fun _ => parkedCar 0) 1000 = some s ∧
      ¬∀ (transform : PerspectiveTransform ℚ) (frames : List (VideoFrame ℚ)),
        transform.calibrated ≠ 0 →
          KeepsIdentity .ratSqrt (Host.wrapping .little) transform s frames := by
  refine ⟨_, rfl, fun h => ?_⟩
  have hids := (h shifted [carFrame, carFrame] (by decide)).1
  revert hids
  decide +kernel

end Mec
