import Mathlib.Algebra.BigOperators.Fin
import Mathlib.Data.Matrix.Mul
import Mathlib.Logic.Equiv.Fin.Basic

/-!
# Matrices in flat arrays

`Flat K m n` is an `m × n` matrix stored row after row in one array of `m * n`
cells. `toMatrix` reads it back as a Mathlib matrix, so that index arithmetic
is done here once and proofs about array code are proofs about matrices.
-/

namespace Lib.RowMajor

abbrev Flat (K : Type*) (m n : Nat) := Vector K (m * n)

namespace Flat

variable {K : Type*} {m n : Nat}

/-- The entry in row `i`, column `j`: cell `i * n + j`. -/
def entry (A : Flat K m n) (i : Fin m) (j : Fin n) : K := A[(finProdFinEquiv (i, j)).val]

def ofFn (f : Fin m → Fin n → K) : Flat K m n := Vector.ofFn fun x => f x.divNat x.modNat

def toMatrix (A : Flat K m n) : Matrix (Fin m) (Fin n) K := Matrix.of A.entry

theorem toMatrix_apply (A : Flat K m n) (i : Fin m) (j : Fin n) : A.toMatrix i j = A.entry i j :=
  rfl

@[simp] theorem entry_ofFn (f : Fin m → Fin n → K) (i : Fin m) (j : Fin n) :
    (ofFn f).entry i j = f i j := by
  have h : ((finProdFinEquiv (i, j)).divNat, (finProdFinEquiv (i, j)).modNat) = (i, j) :=
    finProdFinEquiv.symm_apply_apply (i, j)
  obtain ⟨h1, h2⟩ := Prod.ext_iff.mp h
  rw [entry, ofFn, Vector.getElem_ofFn]
  exact congrArg₂ f h1 h2

@[simp] theorem toMatrix_ofFn (f : Fin m → Fin n → K) : (ofFn f).toMatrix = Matrix.of f := by
  ext i j
  exact entry_ofFn f i j

theorem toMatrix_inj {A B : Flat K m n} (h : A.toMatrix = B.toMatrix) : A = B := by
  refine Vector.ext fun x hx => ?_
  have hx' := finProdFinEquiv.apply_symm_apply (⟨x, hx⟩ : Fin (m * n))
  have hij := congrFun (congrFun h (finProdFinEquiv.symm ⟨x, hx⟩).1)
    (finProdFinEquiv.symm ⟨x, hx⟩).2
  simp only [toMatrix_apply, entry, Prod.mk.eta, hx'] at hij
  exact hij

def fill (x : K) : Flat K m n := Vector.replicate (m * n) x

theorem entry_fill (x : K) (i : Fin m) (j : Fin n) : (fill x : Flat K m n).entry i j = x :=
  Vector.getElem_replicate _

theorem entry_set (A : Flat K m n) (c : Nat) (hc : c < m * n) (x : K) (i : Fin m) (j : Fin n) :
    entry (A.set c x hc : Flat K m n) i j = if c = j + n * i then x else A.entry i j := by
  rw [entry, Vector.getElem_set]
  rfl

def setEntry (A : Flat K m n) (i : Fin m) (j : Fin n) (x : K) : Flat K m n :=
  A.set (finProdFinEquiv (i, j)).val x

theorem entry_setEntry (A : Flat K m n) (i i' : Fin m) (j j' : Fin n) (x : K) :
    (A.setEntry i j x).entry i' j' = if i = i' ∧ j = j' then x else A.entry i' j' := by
  rw [entry, setEntry, Vector.getElem_set]
  refine if_congr ?_ rfl rfl
  rw [Fin.val_inj, EmbeddingLike.apply_eq_iff_eq, Prod.mk.injEq]

/-- A loop down the diagonal of a square matrix. -/
def onDiagonal (A : Flat K n n) (f : K → K) : Flat K n n :=
  (List.finRange n).foldl (fun A i => A.setEntry i i (f (A.entry i i))) A

theorem entry_foldl_diagonal (f : K → K) (i j : Fin n) : ∀ (rows : List (Fin n)) (A : Flat K n n),
    rows.Nodup →
    (rows.foldl (fun A i => A.setEntry i i (f (A.entry i i))) A).entry i j =
      if i = j ∧ i ∈ rows then f (A.entry i i) else A.entry i j
  | [], A, _ => by simp
  | r :: rows, A, h => by
    obtain ⟨hr, hrows⟩ := List.nodup_cons.mp h
    rw [List.foldl_cons, entry_foldl_diagonal f i j rows _ hrows]
    simp only [entry_setEntry, List.mem_cons]
    by_cases hij : i = j
    · subst hij
      by_cases hri : r = i
      · subst hri
        simp [hr]
      · simp [hri, Ne.symm hri]
    · have : ¬(r = i ∧ r = j) := fun h => hij (h.1.symm.trans h.2)
      simp [hij, this]

theorem entry_onDiagonal (A : Flat K n n) (f : K → K) (i j : Fin n) :
    (A.onDiagonal f).entry i j = if i = j then f (A.entry i i) else A.entry i j := by
  rw [onDiagonal, entry_foldl_diagonal f i j _ _ (List.nodup_finRange n)]
  simp

end Flat

theorem foldl_add_eq_sum {K : Type*} [AddCommMonoid K] {n : Nat} (f : Fin n → K) :
    (List.finRange n).foldl (fun c l => c + f l) 0 = ∑ l, f l := by
  rw [← List.foldl_map (f := f) (g := (· + ·)), ← List.sum_eq_foldl, Fin.sum_univ_def]

end Lib.RowMajor
