import Mathlib.Data.List.Count
import Mathlib.Data.List.Perm.Basic
import Mathlib.Logic.Function.Basic

/-!
# Counted references

`rc p` is the count stored in the live object `p`, `none` if `p` is not live,
and `refs` lists every reference held anywhere. `Counted rc refs` says that the
stored counts are right: each live object's count is the positive number of
references to it and nothing refers to a dead object. A retain, a release that
leaves a reference, the last release and an allocation keep it, with the one
reference they add or give up.
-/

namespace Lib.RefCount

variable {P : Type*} [DecidableEq P]

structure Counted (rc : P → Option Int) (refs : List P) : Prop where
  live : ∀ p n, rc p = some n → n = refs.count p ∧ 0 < n
  dead : ∀ p, rc p = none → refs.count p = 0

variable {rc : P → Option Int} {refs : List P} {p : P} {n : Int}

theorem Counted.perm {refs' : List P} (h : Counted rc refs) (hp : refs.Perm refs') :
    Counted rc refs' where
  live q m hq := by rw [← hp.count_eq]; exact h.live q m hq
  dead q hq := by rw [← hp.count_eq]; exact h.dead q hq

theorem Counted.exists_of_mem (h : Counted rc refs) (hp : p ∈ refs) : ∃ n, rc p = some n := by
  cases hn : rc p with
  | some n => exact ⟨n, rfl⟩
  | none =>
    have := List.count_pos_iff.mpr hp
    have := h.dead p hn
    omega

theorem Counted.update {refs' : List P} {c : Option Int} (h : Counted rc refs)
    (hne : ∀ q, q ≠ p → refs'.count q = refs.count q)
    (hlive : ∀ m, c = some m → m = refs'.count p ∧ 0 < m)
    (hdead : c = none → refs'.count p = 0) : Counted (Function.update rc p c) refs' where
  live q m hq := by
    by_cases hqp : q = p
    · subst hqp; exact hlive m (by simpa using hq)
    · rw [hne q hqp]; exact h.live q m (by simpa [hqp] using hq)
  dead q hq := by
    by_cases hqp : q = p
    · subst hqp; exact hdead (by simpa using hq)
    · rw [hne q hqp]; exact h.dead q (by simpa [hqp] using hq)

theorem count_cons_ne {q : P} (hq : q ≠ p) : (p :: refs).count q = refs.count q :=
  List.count_cons_of_ne (Ne.symm hq)

theorem Counted.retain (h : Counted rc refs) (hp : rc p = some n) :
    Counted (Function.update rc p (some (n + 1))) (p :: refs) := by
  obtain ⟨hn, hpos⟩ := h.live p n hp
  refine h.update (fun q hq => count_cons_ne hq) (fun m hm => ?_) (fun hm => by cases hm)
  cases hm
  rw [List.count_cons_self]
  omega

theorem Counted.release (h : Counted rc (p :: refs)) (hp : rc p = some n) (hn : 1 < n) :
    Counted (Function.update rc p (some (n - 1))) refs := by
  obtain ⟨hc, -⟩ := h.live p n hp
  rw [List.count_cons_self] at hc
  refine h.update (fun q hq => (count_cons_ne hq).symm) (fun m hm => ?_) (fun hm => by cases hm)
  cases hm
  omega

theorem Counted.free (h : Counted rc (p :: refs)) (hp : rc p = some n) (hn : n ≤ 1) :
    Counted (Function.update rc p none) refs := by
  obtain ⟨hc, -⟩ := h.live p n hp
  rw [List.count_cons_self] at hc
  exact h.update (fun q hq => (count_cons_ne hq).symm) (fun m hm => by cases hm)
    (fun _ => by omega)

theorem Counted.alloc (h : Counted rc refs) (hp : rc p = none) :
    Counted (Function.update rc p (some 1)) (p :: refs) := by
  have h0 := h.dead p hp
  refine h.update (fun q hq => count_cons_ne hq) (fun m hm => ?_) (fun hm => by cases hm)
  cases hm
  rw [List.count_cons_self, h0]
  decide

end Lib.RefCount
