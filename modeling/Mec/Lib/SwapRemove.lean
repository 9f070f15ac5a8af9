import Mathlib.Data.List.Perm.Basic

/-!
# Sweeping an array with swap-removal

A forward loop that transforms the element it stands on and keeps it or
deletes it; a deletion moves the last element into the hole and the loop
stands still. On the part of the array still ahead, a deletion is `refill`.
`visits` is the order in which the loop meets the elements: each of them once
(`visits_perm`), whatever is deleted. `sweep` is what it leaves behind.
-/

namespace Lib.SwapRemove

variable {α : Type*}

/-- What lies ahead once the head is deleted: the last of the others moves to
the front. -/
def refill : List α → List α
  | [] => []
  | y :: ys => (y :: ys).getLast (List.cons_ne_nil y ys) :: (y :: ys).dropLast

theorem refill_perm : ∀ ys : List α, (refill ys).Perm ys
  | [] => .refl _
  | y :: ys => by
    have h := List.dropLast_append_getLast (List.cons_ne_nil y ys)
    calc refill (y :: ys)
        = [(y :: ys).getLast (List.cons_ne_nil y ys)] ++ (y :: ys).dropLast := rfl
      List.Perm _ ((y :: ys).dropLast ++ [(y :: ys).getLast (List.cons_ne_nil y ys)]) :=
        List.perm_append_comm
      List.Perm _ (y :: ys) := by rw [h]

@[simp] theorem refill_length (ys : List α) : (refill ys).length = ys.length :=
  (refill_perm ys).length_eq

/-- A deletion in the array: the last element goes into the hole, the bound
comes down by one. -/
theorem delete_eq_refill {done ys : List α} {i : Nat} (hi : done.length = i) (x : α)
    (h : ys ≠ []) : ((done ++ x :: ys).set i (ys.getLast h)).dropLast = done ++ refill ys := by
  obtain ⟨y, ys, rfl⟩ := List.exists_cons_of_ne_nil h
  subst hi
  rw [List.set_append_right _ _ (Nat.le_refl _), Nat.sub_self, List.set_cons_zero,
    List.dropLast_append_of_ne_nil (List.cons_ne_nil _ _), List.dropLast_cons_of_ne_nil h]
  rfl

variable (f : α → α) (keep : α → Bool)

def visits : List α → List α
  | [] => []
  | x :: xs => x :: if keep (f x) then visits xs else visits (refill xs)
termination_by xs => xs.length

/-- The transformed survivors, in the order of the array. -/
def sweep (xs : List α) : List α := ((visits f keep xs).map f).filter keep

@[simp] theorem visits_nil : visits f keep [] = [] := by rw [visits]

@[simp] theorem sweep_nil : sweep f keep [] = [] := by rw [sweep, visits_nil]; rfl

variable {f keep}

theorem visits_keep {x : α} (h : keep (f x)) (xs : List α) :
    visits f keep (x :: xs) = x :: visits f keep xs := by
  rw [visits, if_pos h]

theorem visits_delete {x : α} (h : ¬keep (f x)) (xs : List α) :
    visits f keep (x :: xs) = x :: visits f keep (refill xs) := by
  rw [visits, if_neg h]

theorem sweep_keep {x : α} (h : keep (f x)) (xs : List α) :
    sweep f keep (x :: xs) = f x :: sweep f keep xs := by
  rw [sweep, visits_keep h, List.map_cons, List.filter_cons_of_pos h]
  rfl

theorem sweep_delete {x : α} (h : ¬keep (f x)) (xs : List α) :
    sweep f keep (x :: xs) = sweep f keep (refill xs) := by
  rw [sweep, visits_delete h, List.map_cons, List.filter_cons_of_neg h]
  rfl

/-- **Each element is met exactly once.** -/
theorem visits_perm (xs : List α) : (visits f keep xs).Perm xs := by
  induction hn : xs.length generalizing xs with
  | zero =>
    obtain rfl := List.eq_nil_of_length_eq_zero hn
    rw [visits_nil]
  | succ n ih =>
    obtain ⟨x, xs, rfl⟩ := List.exists_cons_of_length_eq_add_one hn
    have hlen : xs.length = n := by simpa using hn
    by_cases h : keep (f x)
    · rw [visits_keep h]
      exact (ih xs hlen).cons x
    · rw [visits_delete h]
      exact ((ih (refill xs) (by rw [refill_length, hlen])).trans (refill_perm xs)).cons x

/-- **The survivors** are those the test keeps, none lost and none doubled. -/
theorem sweep_perm (xs : List α) : (sweep f keep xs).Perm ((xs.map f).filter keep) :=
  ((visits_perm xs).map f).filter keep

end Lib.SwapRemove
