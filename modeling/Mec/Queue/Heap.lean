import Mathlib.Logic.Function.Basic
import Mec.TrackList

/-!
# The heap of track lists

Track lists are shared by reference count (`track_list_retain`,
`track_list_release`). `ListHeap` is the store of live lists. A pointer is an
allocation number and is never handed out twice, so that a stale pointer stays
recognisable: touching a list that is not live raises `fault`, the model's mark
of undefined behaviour. `freed` is the log of frees, newest first.
-/

namespace Mec

variable {K : Type}

/-- A non-`NULL` `track_list_t *`. -/
abbrev ListPtr := Nat

structure ListHeap (K : Type) where
  cell : ListPtr → Option (TrackList K)
  next : Nat
  freed : List ListPtr
  fault : Bool

namespace ListHeap

def empty : ListHeap K := { cell := fun _ => none, next := 0, freed := [], fault := false }

/-- Overwrite the list at `p`. -/
def write (h : ListHeap K) (p : ListPtr) (l : TrackList K) : ListHeap K :=
  { h with cell := Function.update h.cell p (some l) }

@[simp] theorem write_cell_self (h : ListHeap K) (p : ListPtr) (l : TrackList K) :
    (h.write p l).cell p = some l := by simp [write]

@[simp] theorem write_cell_ne (h : ListHeap K) {p q : ListPtr} (hq : q ≠ p) (l : TrackList K) :
    (h.write p l).cell q = h.cell q := by simp [write, hq]

/-- Give the list at `p` back to the allocator. -/
def free (h : ListHeap K) (p : ListPtr) : ListHeap K :=
  { h with cell := Function.update h.cell p none, freed := p :: h.freed }

def touchDead (h : ListHeap K) : ListHeap K := { h with fault := true }

/-- The sequence the list at `p` holds now. -/
def contents (h : ListHeap K) (p : ListPtr) : List (TargetTrack K) :=
  ((h.cell p).map TrackList.contents).getD []

theorem contents_of_cell {h : ListHeap K} {p : ListPtr} {l : TrackList K}
    (hl : h.cell p = some l) : h.contents p = l.contents := by simp [contents, hl]

end ListHeap

/-- `track_list_create`, placing the list in the heap. -/
def trackListNew (fresh : Fresh K) (initialCapacity : Int) (h : ListHeap K) :
    Option ListPtr × ListHeap K :=
  match trackListCreate fresh initialCapacity with
  | none => (none, h)
  | some l => (some h.next, { h.write h.next l with next := h.next + 1 })

def trackListRetain (h : ListHeap K) : Option ListPtr → ListHeap K
  | none => h
  | some p => match h.cell p with
    | none => h.touchDead
    | some l => h.write p (l.setRef (l.refCount + 1))

/-- `track_list_release`: the list goes back to the allocator when the count
reaches zero. -/
def trackListRelease (h : ListHeap K) : Option ListPtr → ListHeap K
  | none => h
  | some p => match h.cell p with
    | none => h.touchDead
    | some l =>
      if l.refCount - 1 ≤ 0 then h.free p else h.write p (l.setRef (l.refCount - 1))

theorem trackListRetain_live {h : ListHeap K} {p : ListPtr} {l : TrackList K}
    (hl : h.cell p = some l) :
    trackListRetain h (some p) = h.write p (l.setRef (l.refCount + 1)) := by
  simp only [trackListRetain, hl]

theorem trackListRelease_keep {h : ListHeap K} {p : ListPtr} {l : TrackList K}
    (hl : h.cell p = some l) (hn : 1 < l.refCount) :
    trackListRelease h (some p) = h.write p (l.setRef (l.refCount - 1)) := by
  simp only [trackListRelease, hl]
  rw [if_neg (by omega)]

theorem trackListRelease_free {h : ListHeap K} {p : ListPtr} {l : TrackList K}
    (hl : h.cell p = some l) (hn : l.refCount ≤ 1) :
    trackListRelease h (some p) = h.free p := by
  simp only [trackListRelease, hl]
  rw [if_pos (by omega)]

theorem trackListRetain_frame (h : ListHeap K) (list : Option ListPtr) (p : ListPtr) :
    ((trackListRetain h list).cell p).map TrackList.contents =
      (h.cell p).map TrackList.contents := by
  cases list with
  | none => rfl
  | some q =>
    cases hl : h.cell q with
    | none => simp only [trackListRetain, hl]; rfl
    | some l =>
      rw [trackListRetain_live hl]
      by_cases hp : p = q
      · subst hp; simp [hl]
      · simp [hp]

end Mec
