import Mathlib.Data.List.Range
import Mathlib.Tactic.Common

/-!
# Ranges and arrays of records in a memory

A memory is a function from addresses to cells. `SameOn m a m' a' n`: the `n`
cells at `a'` in `m'` are those at `a` in `m`. A record takes `w` cells;
`records w m a n` are the `n` records that stand one after the other from `a` on.
-/

namespace Lib.Records

variable {β : Type*} {m m' m'' : Nat → β} {a a' a'' n k w : Nat}

/-! ## Ranges -/

def SameOn (m : Nat → β) (a : Nat) (m' : Nat → β) (a' n : Nat) : Prop :=
  ∀ i < n, m' (a' + i) = m (a + i)

instance [DecidableEq β] : Decidable (SameOn m a m' a' n) :=
  inferInstanceAs (Decidable (∀ i < n, _))

theorem SameOn.refl : SameOn m a m a n := fun _ _ => rfl

theorem SameOn.mono (h : SameOn m a m' a' n) (hk : k ≤ n) : SameOn m a m' a' k :=
  fun i hi => h i (hi.trans_le hk)

theorem SameOn.trans (h : SameOn m a m' a' n) (h' : SameOn m' a' m'' a'' n) :
    SameOn m a m'' a'' n := fun i hi => (h' i hi).trans (h i hi)

/-! ## Records -/

def read (w : Nat) (m : Nat → β) (a : Nat) : Fin w → β := fun i => m (a + i)

def write (w : Nat) (m : Nat → β) (a : Nat) (r : Fin w → β) : Nat → β :=
  fun x => if h : a ≤ x ∧ x < a + w then r ⟨x - a, by omega⟩ else m x

def records (w : Nat) (m : Nat → β) (a n : Nat) : List (Fin w → β) :=
  (List.range n).map fun k => read w m (a + k * w)

theorem read_write {r : Fin w → β} : read w (write w m a r) a = r := by
  funext i
  unfold read write
  rw [dif_pos ⟨Nat.le_add_right a i, Nat.add_lt_add_left i.isLt a⟩]
  congr 1
  exact Fin.ext (Nat.add_sub_cancel_left a i)

theorem write_outside {r : Fin w → β} {x : Nat} (h : x < a ∨ a + w ≤ x) :
    write w m a r x = m x := dif_neg (by omega)

theorem sameOn_write {r : Fin w → β} (h : a' + n ≤ a ∨ a + w ≤ a') :
    SameOn m a' (write w m a r) a' n := fun i hi => write_outside (by omega)

@[simp] theorem records_length : (records w m a n).length = n := by
  rw [records, List.length_map, List.length_range]

theorem records_zero : records w m a 0 = [] := rfl

theorem records_succ : records w m a (n + 1) = records w m a n ++ [read w m (a + n * w)] := by
  rw [records, List.range_succ, List.map_append]
  rfl

theorem records_same (h : SameOn m a m' a' (n * w)) : records w m' a' n = records w m a n := by
  refine List.map_congr_left fun k hk => funext fun i => ?_
  have hlt := List.mem_range.mp hk
  have hmul := Nat.mul_le_mul_right w (Nat.succ_le_of_lt hlt)
  rw [Nat.succ_mul] at hmul
  have hi := h (k * w + i) (by omega)
  rwa [← Nat.add_assoc, ← Nat.add_assoc] at hi

theorem records_write {r : Fin w → β} :
    records w (write w m (a + n * w) r) a (n + 1) = records w m a n ++ [r] := by
  rw [records_succ, read_write, records_same (sameOn_write (.inl (Nat.le_refl _)))]

theorem records_write_set {r : Fin w → β} :
    records w (write w m (a + k * w) r) a n = (records w m a n).set k r := by
  refine List.ext_getElem (by simp) fun j hj _ => ?_
  simp only [records, List.getElem_map, List.getElem_range, List.getElem_set]
  split
  · next heq =>
    subst heq
    exact read_write
  · next hne =>
    funext i
    refine write_outside ?_
    rcases Nat.lt_or_gt_of_ne hne with hlt | hlt
    · have hmul := Nat.mul_le_mul_right w (Nat.succ_le_of_lt hlt)
      rw [Nat.succ_mul] at hmul
      omega
    · have hmul := Nat.mul_le_mul_right w (Nat.succ_le_of_lt hlt)
      rw [Nat.succ_mul] at hmul
      omega

theorem records_add : records w m a (n + k) =
    records w m a n ++ (List.range k).map fun j => read w m (a + (n + j) * w) := by
  rw [records, List.range_add, List.map_append, List.map_map]
  rfl

end Lib.Records
