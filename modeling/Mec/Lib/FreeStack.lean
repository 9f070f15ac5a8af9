import Mathlib.Data.List.Range
import Mathlib.Data.List.Perm.Basic

/-!
# Free slots on a stack

An array of slots is managed by a stack of free indices: a slot is taken by a
pop and given back by a push. `Partition free used n` says that the stack and
the slots in use are, together, every index below `n` exactly once. Both moves
keep it, in whatever order slots come back.
-/

namespace Lib.FreeStack

def Partition (free used : List Nat) (n : Nat) : Prop := (free ++ used).Perm (List.range n)

variable {free used used' : List Nat} {n i : Nat}

theorem Partition.start (n : Nat) : Partition (List.range n) [] n := by
  rw [Partition, List.append_nil]

theorem Partition.perm (h : Partition free used n) (hu : used.Perm used') :
    Partition free used' n := (hu.append_left free).symm.trans h

theorem Partition.pop (h : Partition (free ++ [i]) used n) : Partition free (i :: used) n := by
  rwa [Partition, List.append_assoc, List.singleton_append] at h

theorem Partition.push (h : Partition free (i :: used) n) : Partition (free ++ [i]) used n := by
  rwa [Partition, List.append_assoc, List.singleton_append]

theorem Partition.nodup (h : Partition free used n) : (free ++ used).Nodup :=
  h.nodup_iff.mpr List.nodup_range

theorem Partition.lt (h : Partition free used n) (hi : i ∈ free ++ used) : i < n :=
  List.mem_range.mp (h.subset hi)

theorem Partition.length (h : Partition free used n) : free.length + used.length = n := by
  rw [← List.length_append, h.length_eq, List.length_range]

theorem Partition.room (h : Partition free used n) (hi : i ∈ used) : free.length < n := by
  have hlen := h.length
  have hpos := List.length_pos_of_mem hi
  omega

end Lib.FreeStack
