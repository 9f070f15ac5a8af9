import Mathlib.Data.List.Basic

/-!
# The used prefix of an array

An array of which the first `c` cells are in use.
-/

namespace Lib.Prefix

variable {α : Type*} {cells : List α} {c : Nat}

theorem take_succ_set (h : c < cells.length) (x : α) :
    (cells.set c x).take (c + 1) = cells.take c ++ [x] := by
  rw [List.take_add_one, List.take_set_of_le (Nat.le_refl c), List.getElem?_set_self h]
  rfl

theorem take_succ_get (h : c < cells.length) :
    cells.take (c + 1) = cells.take c ++ [cells.get ⟨c, h⟩] := by
  rw [List.take_add_one, List.getElem?_eq_getElem h]
  rfl

end Lib.Prefix
