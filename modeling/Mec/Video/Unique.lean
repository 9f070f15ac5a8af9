import Mec.Video.Calibration

/-!
# The ids of one frame

`track_targets` gives every detection the id of the first previous track near it,
and a fresh one if there is none. It does not keep book of the previous tracks
it has used: two detections whose first near track is the same get its id.
-/

namespace Mec

variable {K : Type} [Field K] [LinearOrder K]

section Unique

variable (libm : Libm K) {previous : List (TargetTrack K)} {newId : Int}

/-- The previous tracks the detections find, one entry for each detection that finds
one. -/
def foundTracks (previous current : List (TargetTrack K)) : List Nat :=
  current.filterMap fun t => firstNear libm t.position (previous.map TargetTrack.position)

/-- An id of a near previous track, or one the counter had not given out. -/
def InheritedOrFresh (previous : List (TargetTrack K)) (newId nextId : Int) (t : TargetTrack K) :
    Prop :=
  (∃ u ∈ previous, near libm t.position u.position = true ∧ t.id = u.id) ∨
    newId ≤ t.id ∧ t.id < nextId

theorem matchedId_some {t : TargetTrack K} {id : Int} (h : matchedId libm previous t = some id) :
    ∃ u ∈ previous, near libm t.position u.position = true ∧ id = u.id := by
  obtain ⟨u, hfind, rfl⟩ := Option.map_eq_some_iff.mp h
  have hnear := (List.find?_eq_some_iff_append.mp hfind).1
  exact ⟨u, List.mem_of_find?_eq_some hfind, hnear, rfl⟩

theorem newId_le (previous current : List (TargetTrack K)) (newId : Int) :
    newId ≤ (trackTargets libm previous current newId).2 := by
  induction current generalizing newId with
  | nil => exact Int.le_refl _
  | cons t ts ih =>
    rw [trackTargets]
    cases matchedId libm previous t with
    | some id => exact ih newId
    | none => exact (Int.le_add_one (Int.le_refl _)).trans (ih (newId + 1))

/-- Where the ids come from. -/
theorem trackTargets_inherited (current : List (TargetTrack K)) (newId : Int) :
    ∀ t ∈ (trackTargets libm previous current newId).1,
      InheritedOrFresh libm previous newId (trackTargets libm previous current newId).2 t := by
  induction current generalizing newId with
  | nil => exact fun _ h => nomatch h
  | cons t ts ih =>
    rw [trackTargets]
    cases hmatch : matchedId libm previous t with
    | some id =>
      intro t' ht'
      rcases List.mem_cons.mp ht' with rfl | ht'
      · obtain ⟨u, hu, hnear, rfl⟩ := matchedId_some libm hmatch
        exact .inl ⟨u, hu, hnear, rfl⟩
      · exact ih newId t' ht'
    | none =>
      intro t' ht'
      rcases List.mem_cons.mp ht' with rfl | ht'
      · exact .inr ⟨Int.le_refl _, Int.lt_of_add_one_le (newId_le libm previous ts (newId + 1))⟩
      · exact (ih (newId + 1) t' ht').imp_right (And.imp_left fun h => by omega)

theorem mem_trackTargets_id (current : List (TargetTrack K)) (newId : Int) {id : Int}
    (hid : id < newId) :
    id ∈ (trackTargets libm previous current newId).1.map TargetTrack.id ↔
      id ∈ current.filterMap (matchedId libm previous) := by
  induction current generalizing newId with
  | nil => rfl
  | cons t ts ih =>
    rw [trackTargets]
    cases hmatch : matchedId libm previous t with
    | some found =>
      rw [List.filterMap_cons_some hmatch, List.mem_cons, ← ih newId hid]
      exact List.mem_cons
    | none =>
      rw [List.filterMap_cons_none hmatch, ← ih (newId + 1) (by omega)]
      refine List.mem_cons.trans (or_iff_right ?_)
      rintro rfl
      exact absurd hid (Int.lt_irrefl _)

/-- Fresh ids never collide; found ones do if they are found twice. -/
theorem nodup_trackTargets_id (hbelow : ∀ u ∈ previous, u.id < newId)
    (current : List (TargetTrack K)) :
    ((trackTargets libm previous current newId).1.map TargetTrack.id).Nodup ↔
      (current.filterMap (matchedId libm previous)).Nodup := by
  induction current generalizing newId with
  | nil => rfl
  | cons t ts ih =>
    rw [trackTargets]
    cases hmatch : matchedId libm previous t with
    | some id =>
      obtain ⟨u, hu, -, rfl⟩ := matchedId_some libm hmatch
      rw [List.filterMap_cons_some hmatch, List.nodup_cons, ← ih hbelow,
        ← mem_trackTargets_id libm ts newId (hbelow u hu)]
      exact List.nodup_cons
    | none =>
      have hnext := @ih (newId + 1) fun u hu => (hbelow u hu).trans (by omega)
      rw [List.filterMap_cons_none hmatch, ← hnext]
      refine List.nodup_cons.trans (and_iff_right fun hmem => ?_)
      obtain ⟨t', ht', hid⟩ := List.mem_map.mp hmem
      rcases trackTargets_inherited libm ts (newId + 1) t' ht' with ⟨u, hu, -, heq⟩ | ⟨hle, -⟩
      · have hlt := hbelow u hu
        simp only at hid
        omega
      · simp only at hid
        omega

theorem nodup_filterMap_getElem {α : Type} {xs : List α} (hxs : xs.Nodup) {js : List Nat}
    (hlt : ∀ j ∈ js, j < xs.length) : (js.filterMap fun j => xs[j]?).Nodup ↔ js.Nodup := by
  induction js with
  | nil => exact iff_of_true .nil .nil
  | cons j js ih =>
    obtain ⟨hj, hjs⟩ := List.forall_mem_cons.mp hlt
    have hmem : xs[j] ∈ js.filterMap (fun j => xs[j]?) ↔ j ∈ js := by
      rw [List.mem_filterMap]
      constructor
      · rintro ⟨i, hi, hget⟩
        rw [List.getElem?_eq_getElem (hjs i hi)] at hget
        rwa [← hxs.getElem_inj_iff.mp (Option.some.inj hget)]
      · exact fun hmem => ⟨j, hmem, List.getElem?_eq_getElem hj⟩
    rw [List.filterMap_cons_some (List.getElem?_eq_getElem hj), List.nodup_cons, List.nodup_cons,
      hmem, ih hjs]

theorem nodup_matchedId (hnodup : (previous.map TargetTrack.id).Nodup)
    (current : List (TargetTrack K)) :
    (current.filterMap (matchedId libm previous)).Nodup ↔
      (foundTracks libm previous current).Nodup := by
  have hfound : current.filterMap (matchedId libm previous) =
      (foundTracks libm previous current).filterMap fun j =>
        (previous.map TargetTrack.id)[j]? := by
    rw [foundTracks, List.filterMap_filterMap]
    exact List.filterMap_congr fun t _ => matchedId_eq libm previous t
  rw [hfound]
  refine nodup_filterMap_getElem hnodup fun j hj => ?_
  obtain ⟨t, -, hfirst⟩ := List.mem_filterMap.mp hj
  obtain ⟨hlt, -, -⟩ := List.findIdx?_eq_some_iff_getElem.mp hfirst
  rwa [List.length_map] at hlt ⊢

/-- **Video ids are unique within a frame** exactly if no two detections have the
same first near previous track. -/
theorem trackTargets_unique_ids (hnodup : (previous.map TargetTrack.id).Nodup)
    (hbelow : ∀ u ∈ previous, u.id < newId) (current : List (TargetTrack K)) :
    (((trackTargets libm previous current newId).1.map TargetTrack.id).Nodup ∧
      ∀ t ∈ (trackTargets libm previous current newId).1,
        InheritedOrFresh libm previous newId (trackTargets libm previous current newId).2 t) ↔
      (foundTracks libm previous current).Nodup := by
  rw [nodup_trackTargets_id libm hbelow, nodup_matchedId libm hnodup]
  exact and_iff_left (trackTargets_inherited libm current newId)

end Unique

theorem trackTargets_unique_ids_apart :
    ((trackTargets Libm.ratSqrt [parkedCar 1000, { parkedCar 1001 with position := ⟨5, 5, 0⟩ }]
      [parkedCar 0, { parkedCar 1 with position := ⟨5, 5.05, 0⟩ }] 1002).1.map
        TargetTrack.id).Nodup :=
  ((trackTargets_unique_ids Libm.ratSqrt (by decide) (by decide) _).mpr
    (by decide +kernel)).1

/-- Two detections near one track. -/
theorem two_cars_one_id :
    (([parkedCar 1000].map TargetTrack.id).Nodup ∧ ∀ u ∈ [parkedCar 1000], u.id < 1001) ∧
    ¬ ((trackTargets Libm.ratSqrt [parkedCar 1000]
      [parkedCar 0, { parkedCar 1 with position := ⟨0.05, 0, 0⟩ }] 1001).1.map
        TargetTrack.id).Nodup :=
  ⟨by decide, by decide +kernel⟩

end Mec
