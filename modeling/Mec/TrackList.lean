import Mec.Common
import Mec.Lib.Prefix

/-!
# Track lists (`track_list.c`)

A `TrackList` is the growable array behind a `track_list_t`: the cells of its
buffer, the count of cells in use, the capacity and the reference count. The
buffer's cells past the count keep whatever was last stored there. What
`mec_malloc` and `mec_realloc` answer is an argument of type `Fresh`: `none`
for `NULL`, else the contents of the cells nobody has written yet.
-/

namespace Mec

open Lib.Prefix

variable {K : Type}

/-- An allocator's answer: `NULL`, or a block with these unwritten cells. -/
abbrev Fresh (K : Type) := Option (Nat → TargetTrack K)

@[ext] structure TrackList (K : Type) where
  tracks : List (TargetTrack K)
  count : Nat
  capacity : Nat
  refCount : Int
  tracks_length : tracks.length = capacity
  count_le : count ≤ capacity

namespace TrackList

/-- The sequence a list holds: `tracks[0..count)`. -/
def contents (l : TrackList K) : List (TargetTrack K) := l.tracks.take l.count

@[simp] theorem contents_length (l : TrackList K) : l.contents.length = l.count := by
  rw [contents, List.length_take, l.tracks_length, Nat.min_eq_left l.count_le]

/-- Replace the reference count. -/
def setRef (l : TrackList K) (n : Int) : TrackList K := { l with refCount := n }

@[simp] theorem setRef_contents (l : TrackList K) (n : Int) : (l.setRef n).contents = l.contents :=
  rfl

/-- `list->tracks[list->count] = *track; list->count++`. -/
def store (l : TrackList K) (t : TargetTrack K) (h : l.count < l.capacity) : TrackList K :=
  { l with
    tracks := l.tracks.set l.count t
    count := l.count + 1
    tracks_length := by rw [List.length_set, l.tracks_length]
    count_le := h }

@[simp] theorem store_contents (l : TrackList K) (t : TargetTrack K) (h : l.count < l.capacity) :
    (l.store t h).contents = l.contents ++ [t] := by
  have hlt : l.count < l.tracks.length := by rw [l.tracks_length]; exact h
  exact take_succ_set hlt t

/-- The buffer doubled by `mec_realloc`: the old cells, then unwritten ones. -/
def grown (l : TrackList K) (g : Nat → TargetTrack K) : TrackList K :=
  { l with
    tracks := l.tracks ++ (List.range l.capacity).map g
    capacity := l.capacity * 2
    tracks_length := by
      rw [List.length_append, List.length_map, List.length_range, l.tracks_length]; omega
    count_le := by have := l.count_le; omega }

@[simp] theorem grown_contents (l : TrackList K) (g : Nat → TargetTrack K) :
    (l.grown g).contents = l.contents := by
  simp only [contents, grown]
  rw [List.take_append_of_le_length (by rw [l.tracks_length]; exact l.count_le)]

end TrackList

/-- `track_list_create`. A negative capacity asks for more than the address
space holds, which the allocator refuses. -/
def trackListCreate (fresh : Fresh K) (initialCapacity : Int) : Option (TrackList K) :=
  if initialCapacity < 0 then none
  else fresh.map fun g =>
    { tracks := (List.range initialCapacity.toNat).map g
      count := 0
      capacity := initialCapacity.toNat
      refCount := 1
      tracks_length := by simp
      count_le := Nat.zero_le _ }

/-- `track_list_add` on a non-`NULL` list. `mec_realloc` to size 0 returns
`NULL`, so an empty buffer never grows. -/
def trackListAdd (fresh : Fresh K) (list : TrackList K) (track : TargetTrack K) :
    Int × TrackList K :=
  if h : list.count < list.capacity then (0, list.store track h)
  else if h0 : list.capacity = 0 then (-1, list)
  else match fresh with
    | none => (-1, list)
    | some g => (0, (list.grown g).store track (by
        have := list.count_le
        show list.count < list.capacity * 2
        omega))

/-- `track_list_clear` on a non-`NULL` list. -/
def trackListClear (list : TrackList K) : TrackList K :=
  { list with count := 0, count_le := Nat.zero_le _ }

theorem trackListCreate_eq {fresh : Fresh K} {cap : Int} {l : TrackList K}
    (h : trackListCreate fresh cap = some l) :
    l.contents = [] ∧ l.capacity = cap.toNat ∧ l.refCount = 1 := by
  unfold trackListCreate at h
  split at h
  · cases h
  · obtain ⟨g, -, rfl⟩ := Option.map_eq_some_iff.mp h
    exact ⟨rfl, rfl, rfl⟩

theorem trackListAdd_of_lt {fresh : Fresh K} {l : TrackList K} (h : l.count < l.capacity)
    (t : TargetTrack K) : trackListAdd fresh l t = (0, l.store t h) := dif_pos h

theorem trackListAdd_capacity (fresh : Fresh K) (l : TrackList K) (t : TargetTrack K) :
    l.capacity ≤ (trackListAdd fresh l t).2.capacity := by
  unfold trackListAdd
  split
  · exact Nat.le_refl _
  · split
    · exact Nat.le_refl _
    · split
      · exact Nat.le_refl _
      · show l.capacity ≤ l.capacity * 2
        omega

@[simp] theorem trackListAdd_refCount (fresh : Fresh K) (l : TrackList K) (t : TargetTrack K) :
    (trackListAdd fresh l t).2.refCount = l.refCount := by
  unfold trackListAdd
  split
  · rfl
  · split
    · rfl
    · split <;> rfl

/-- An add appends and returns 0, or returns -1 and changes nothing. -/
theorem trackListAdd_cases (fresh : Fresh K) (l : TrackList K) (t : TargetTrack K) :
    ((trackListAdd fresh l t).1 = 0 ∧
      (trackListAdd fresh l t).2.contents = l.contents ++ [t]) ∨
    trackListAdd fresh l t = (-1, l) := by
  unfold trackListAdd
  split
  · exact .inl ⟨rfl, l.store_contents t _⟩
  · split
    · exact .inr rfl
    · split
      · exact .inr rfl
      · exact .inl ⟨rfl, by rw [TrackList.store_contents, TrackList.grown_contents]⟩

/-- An add to a buffer that is not empty fails only when it has to grow and cannot. -/
theorem trackListAdd_eq_zero {fresh : Fresh K} {l : TrackList K} (hpos : 0 < l.capacity)
    (t : TargetTrack K) :
    (trackListAdd fresh l t).1 = 0 ↔ l.count < l.capacity ∨ fresh.isSome := by
  unfold trackListAdd
  split
  · simp [*]
  · rw [dif_neg (by omega)]
    cases fresh <;> simp [*]

end Mec
