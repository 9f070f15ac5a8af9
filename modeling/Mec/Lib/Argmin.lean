import Mathlib.Data.List.Basic
import Mathlib.Order.Lattice

/-!
# The first minimum below a bound

A loop that keeps the best index so far and replaces it only for something
strictly better. What it returns is the first position of the least value, if
that is below the bound the loop starts from (`firstBelow_eq_some`).
-/

namespace Lib.Argmin

variable {ι K : Type*} [LinearOrder K]

/-- The best index of `l` for `d`, and its value, starting from `best`. -/
def firstBelow (d : ι → K) (best : Option ι × K) (l : List ι) : Option ι × K :=
  l.foldl (fun best j => if d j < best.2 then (some j, d j) else best) best

variable {d : ι → K} {best : Option ι × K} {l : List ι}

theorem firstBelow_append (l' : List ι) :
    firstBelow d best (l ++ l') = firstBelow d (firstBelow d best l) l' := List.foldl_append

theorem firstBelow_eq_self (h : ∀ j ∈ l, best.2 ≤ d j) : firstBelow d best l = best := by
  induction l with
  | nil => rfl
  | cons j l ih =>
    have hj : ¬d j < best.2 := not_lt.mpr (h j List.mem_cons_self)
    rw [firstBelow, List.foldl_cons, if_neg hj]
    exact ih fun k hk => h k (List.mem_cons_of_mem _ hk)

theorem lt_firstBelow {x : K} (hbest : x < best.2) (h : ∀ j ∈ l, x < d j) :
    x < (firstBelow d best l).2 := by
  induction l generalizing best with
  | nil => exact hbest
  | cons j l ih =>
    rw [firstBelow, List.foldl_cons]
    refine ih ?_ fun k hk => h k (List.mem_cons_of_mem _ hk)
    split
    · exact h j List.mem_cons_self
    · exact hbest

theorem firstBelow_of_split {j : ι} {l₁ l₂ : List ι} (hl : l = l₁ ++ j :: l₂) (hj : d j < best.2)
    (hbefore : ∀ k ∈ l₁, d j < d k) (hafter : ∀ k ∈ l₂, d j ≤ d k) :
    firstBelow d best l = (some j, d j) := by
  have hhead := lt_firstBelow hj hbefore
  rw [hl, firstBelow_append, firstBelow, List.foldl_cons, if_pos hhead]
  exact firstBelow_eq_self hafter

theorem firstBelow_cases (d : ι → K) (best : Option ι × K) (l : List ι) :
    (firstBelow d best l = best ∧ ∀ j ∈ l, best.2 ≤ d j) ∨
      ∃ l₁ j l₂, l = l₁ ++ j :: l₂ ∧ firstBelow d best l = (some j, d j) ∧ d j < best.2 ∧
        (∀ k ∈ l₁, d j < d k) ∧ ∀ k ∈ l₂, d j ≤ d k := by
  induction l generalizing best with
  | nil => exact .inl ⟨rfl, fun j hj => absurd hj List.not_mem_nil⟩
  | cons i l ih =>
    by_cases hi : d i < best.2
    · have hfold : firstBelow d best (i :: l) = firstBelow d (some i, d i) l := by
        rw [firstBelow, List.foldl_cons, if_pos hi]
        rfl
      rcases ih (some i, d i) with ⟨heq, hall⟩ | ⟨l₁, j, l₂, rfl, heq, hlt, hbefore, hafter⟩
      · exact .inr ⟨[], i, l, rfl, hfold.trans heq, hi, fun k hk => absurd hk List.not_mem_nil,
          hall⟩
      · refine .inr ⟨i :: l₁, j, l₂, rfl, hfold.trans heq, hlt.trans hi, fun k hk => ?_, hafter⟩
        rcases List.mem_cons.mp hk with rfl | hk
        · exact hlt
        · exact hbefore k hk
    · have hfold : firstBelow d best (i :: l) = firstBelow d best l := by
        rw [firstBelow, List.foldl_cons, if_neg hi]
        rfl
      rcases ih best with ⟨heq, hall⟩ | ⟨l₁, j, l₂, rfl, heq, hlt, hbefore, hafter⟩
      · refine .inl ⟨hfold.trans heq, fun k hk => ?_⟩
        rcases List.mem_cons.mp hk with rfl | hk
        · exact not_lt.mp hi
        · exact hall k hk
      · refine .inr ⟨i :: l₁, j, l₂, rfl, hfold.trans heq, hlt, fun k hk => ?_, hafter⟩
        rcases List.mem_cons.mp hk with rfl | hk
        · exact hlt.trans_le (not_lt.mp hi)
        · exact hbefore k hk

theorem firstBelow_finRange {n : Nat} {d : Fin n → K} {bound : K} {j : Fin n} :
    (firstBelow d (none, bound) (List.finRange n)).1 = some j ↔
      d j < bound ∧ (∀ k < j, d j < d k) ∧ ∀ k, j < k → d j ≤ d k := by
  have hsorted := List.pairwise_lt_finRange n
  have hsplit : ∀ {l₁ i l₂}, List.finRange n = l₁ ++ i :: l₂ →
      (∀ k ∈ l₁, k < i) ∧ ∀ k ∈ l₂, i < k := by
    intro l₁ i l₂ hl
    rw [hl, List.pairwise_append, List.pairwise_cons] at hsorted
    exact ⟨fun k hk => hsorted.2.2 k hk i List.mem_cons_self, hsorted.2.1.1⟩
  constructor
  · intro h
    rcases firstBelow_cases d (none, bound) (List.finRange n) with
      ⟨heq, -⟩ | ⟨l₁, i, l₂, hl, heq, hlt, hbefore, hafter⟩
    · rw [heq] at h
      cases h
    · rw [heq] at h
      obtain rfl := Option.some.inj h
      obtain ⟨hlow, hhigh⟩ := hsplit hl
      have hmem : ∀ k, k ∈ l₁ ∨ k = i ∨ k ∈ l₂ := fun k => by
        have hk := List.mem_finRange k
        rwa [hl, List.mem_append, List.mem_cons] at hk
      refine ⟨hlt, fun k hk => ?_, fun k hk => ?_⟩
      · rcases hmem k with hk' | rfl | hk'
        · exact hbefore k hk'
        · omega
        · have := hhigh k hk'
          omega
      · rcases hmem k with hk' | rfl | hk'
        · have := hlow k hk'
          omega
        · omega
        · exact hafter k hk'
  · rintro ⟨hlt, hbefore, hafter⟩
    obtain ⟨l₁, l₂, hl⟩ := List.append_of_mem (List.mem_finRange j)
    obtain ⟨hlow, hhigh⟩ := hsplit hl
    have hfirst : firstBelow d (none, bound) (List.finRange n) = (some j, d j) :=
      firstBelow_of_split hl hlt (fun k hk => hbefore k (hlow k hk))
        (fun k hk => hafter k (hhigh k hk))
    exact congrArg Prod.fst hfirst

theorem firstBelow_finRange_none {n : Nat} {d : Fin n → K} {bound : K} :
    (firstBelow d (none, bound) (List.finRange n)).1 = none ↔ ∀ j, bound ≤ d j := by
  constructor
  · intro h j
    rcases firstBelow_cases d (none, bound) (List.finRange n) with
      ⟨-, hall⟩ | ⟨l₁, i, l₂, -, heq, -⟩
    · exact hall j (List.mem_finRange j)
    · rw [heq] at h
      cases h
  · intro h
    have hself : firstBelow d (none, bound) (List.finRange n) = (none, bound) :=
      firstBelow_eq_self fun j _ => h j
    exact congrArg Prod.fst hself

end Lib.Argmin
