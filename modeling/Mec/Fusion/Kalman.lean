import Mathlib.Algebra.Order.Field.Basic
import Mathlib.Algebra.Order.Ring.Rat
import Mathlib.Data.Matrix.Mul
import Mathlib.LinearAlgebra.Matrix.Determinant.Basic
import Mathlib.LinearAlgebra.Matrix.Notation
import Mathlib.Tactic.FinCases
import Mathlib.Tactic.FieldSimp
import Mathlib.Tactic.LinearCombination
import Mec.Common
import Mec.Lib.RowMajor

/-!
# The Kalman filter (`fusion_processor.c`)

Constant acceleration model over the state `[x, y, vx, vy, ax, ay]`. The filter's
arithmetic is exact in an ordered field `K` and decimal literals are read
exactly. Arrays are flat and row-major as in the source. Every array operation
comes with its `toMatrix` lemma, and the proofs above this module see matrices
only.

`update_kalman_filter` writes the twelve products of `HT` and `S_inv` into
`HTSinv[8]`. To C the call is undefined from there on
(`updateKalmanFilterChecked`). What a build makes of it depends on which of its
locals the four doubles behind the array belong to (`updateKalmanFilter`).
-/

namespace Mec

open Lib.RowMajor Matrix

/-- Which of the four doubles behind `HTSinv[8]` a cell of `H` or of `y` is, on
the stack of `update_kalman_filter`. The other locals are dead by then, or
written before they are read, but for `K`: the next product fills it while it
reads the four doubles, and it is taken to lie elsewhere. -/
structure StackLayout where
  H : Fin 12 → Option (Fin 4)
  y : Fin 2 → Option (Fin 4)

def StackLayout.apart : StackLayout where
  H _ := none
  y _ := none

/-- What the sources leave to the platform: the functions of `math.h` in use, how
an operation on doubles rounds where the rounding is modelled, and the stack. -/
structure Libm (K : Type) where
  sqrt : K → K
  cos : K → K
  sin : K → K
  atan2 : K → K → K
  round : K → K
  stack : StackLayout

structure KalmanState (K : Type) where
  state : Flat K 6 1
  covariance : Flat K 6 6
  lastUpdate : Timeval
  initialized : Int

namespace KalmanState

/-! The components of `state`. -/

def x {K : Type} (st : KalmanState K) : K := st.state[0]
def y {K : Type} (st : KalmanState K) : K := st.state[1]
def vx {K : Type} (st : KalmanState K) : K := st.state[2]
def vy {K : Type} (st : KalmanState K) : K := st.state[3]
def ax {K : Type} (st : KalmanState K) : K := st.state[4]
def ay {K : Type} (st : KalmanState K) : K := st.state[5]

end KalmanState

structure FusedTrack (K : Type) where
  globalId : Int
  type : TargetType
  filterState : KalmanState K
  confidence : K
  age : Int
  sensorMask : BitVec 32
  lastUpdate : Timeval

variable {K : Type} {m n k : Nat}

/-! ## Matrix helpers -/

/-- The loops that fill `FT` and `HT`. -/
def matTranspose (A : Flat K m n) : Flat K n m := .ofFn fun i j => A.entry j i

@[simp] theorem toMatrix_matTranspose (A : Flat K m n) :
    (matTranspose A).toMatrix = A.toMatrixᵀ := Flat.toMatrix_ofFn _

theorem toMatrix_two (A : Flat K 2 2) : A.toMatrix = !![A[0], A[1]; A[2], A[3]] := by
  ext i j
  fin_cases i <;> fin_cases j <;> rfl

variable [Field K]

def matMul (A : Flat K m n) (B : Flat K n k) : Flat K m k :=
  .ofFn fun i j => (List.finRange n).foldl (fun c l => c + A.entry i l * B.entry l j) 0

def matAdd (A B : Flat K m n) : Flat K m n := .ofFn fun i j => A.entry i j + B.entry i j

@[simp] theorem toMatrix_matMul (A : Flat K m n) (B : Flat K n k) :
    (matMul A B).toMatrix = A.toMatrix * B.toMatrix := by
  ext i j
  rw [matMul, Flat.toMatrix_ofFn, Matrix.mul_apply]
  exact foldl_add_eq_sum _

@[simp] theorem toMatrix_matAdd (A B : Flat K m n) :
    (matAdd A B).toMatrix = A.toMatrix + B.toMatrix := Flat.toMatrix_ofFn _

/-- `mat_inv_2x2`; `none` is the return value -1. -/
def matInv2x2 [LinearOrder K] (A : Flat K 2 2) : Option (Flat K 2 2) :=
  let det := A[0] * A[3] - A[1] * A[2]
  if |det| < 1e-12 then none
  else
    let invDet := 1 / det
    some #v[A[3] * invDet, -A[1] * invDet, -A[2] * invDet, A[0] * invDet]

theorem matInv2x2_eq_none [LinearOrder K] {A : Flat K 2 2} :
    matInv2x2 A = none ↔ |A.toMatrix.det| < 1e-12 := by
  rw [toMatrix_two, det_fin_two_of]
  simp only [matInv2x2]
  split <;> simp_all

theorem matInv2x2_mul [LinearOrder K] [IsStrictOrderedRing K] {A B : Flat K 2 2}
    (h : matInv2x2 A = some B) : B.toMatrix * A.toMatrix = 1 := by
  simp only [matInv2x2] at h
  split at h
  · cases h
  · rename_i hdet
    have hne : A[0] * A[3] - A[1] * A[2] ≠ 0 := by
      intro h0
      rw [h0, abs_zero] at hdet
      exact hdet (by positivity)
    have hinv := mul_one_div_cancel hne
    obtain rfl := Option.some.inj h
    rw [toMatrix_two, toMatrix_two, Matrix.mul_fin_two, Matrix.one_fin_two]
    ext i j
    fin_cases i <;> fin_cases j <;> simp
    · linear_combination hinv
    · ring
    · ring
    · linear_combination hinv

/-! ## Initialisation -/

def mPi : K := 3.14159265358979323846

/-- `initialize_kalman_filter`: every field of the old state is overwritten. -/
def initializeKalmanFilter (libm : Libm K) (_state : KalmanState K) (track : TargetTrack K) :
    Int × KalmanState K :=
  let angle := track.heading * mPi / 180.0
  let state : Flat K 6 1 := .fill 0
  let state := state.set 0 track.position.longitude
  let state := state.set 1 track.position.latitude
  let state := state.set 2 (track.velocity * libm.cos angle)
  let state := state.set 3 (track.velocity * libm.sin angle)
  let covariance : Flat K 6 6 := .fill 0
  let covariance := covariance.set 0 0.5
  let covariance := covariance.set 7 0.5
  let covariance := covariance.set 14 2.0
  let covariance := covariance.set 21 2.0
  let covariance := covariance.set 28 5.0
  let covariance := covariance.set 35 5.0
  (0, { state, covariance, lastUpdate := track.timestamp, initialized := 1 })

def KalmanState.zero : KalmanState K where
  state := .fill 0
  covariance := .fill 0
  lastUpdate := ⟨0, 0⟩
  initialized := 0

def FusedTrack.zero : FusedTrack K where
  globalId := 0
  type := .vehicle
  filterState := .zero
  confidence := 0
  age := 0
  sensorMask := 0
  lastUpdate := ⟨0, 0⟩

/-! ## Prediction -/

/-- The array `F` of `predict_track_state`. -/
def transition (dt : K) : Flat K 6 6 :=
  let F : Flat K 6 6 := .fill 0
  let F := F.onDiagonal fun _ => 1
  let F := (F.set 2 dt).set 9 dt
  let F := (F.set 4 (0.5 * dt * dt)).set 11 (0.5 * dt * dt)
  (F.set 16 dt).set 23 dt

theorem toMatrix_transition (dt : K) : (transition dt).toMatrix =
    !![1, 0, dt, 0, 0.5 * dt * dt, 0;
       0, 1, 0, dt, 0, 0.5 * dt * dt;
       0, 0, 1, 0, dt, 0;
       0, 0, 0, 1, 0, dt;
       0, 0, 0, 0, 1, 0;
       0, 0, 0, 0, 0, 1] := by
  ext i j
  fin_cases i <;> fin_cases j <;>
    simp [transition, Flat.toMatrix_apply, Flat.entry_set, Flat.entry_onDiagonal,
      Flat.entry_fill]

/-- `predict_track_state` on a non-`NULL` track. -/
def predictTrackState [LinearOrder K] (track : FusedTrack K) (dt : K) : Int × FusedTrack K :=
  if dt ≤ 0 then (-1, track)
  else
    let st := track.filterState
    let F := transition dt
    let nextX := matMul F st.state
    let FPFt := matMul (matMul F st.covariance) (matTranspose F)
    let qVal := 0.01 * dt
    let st := { st with state := nextX, covariance := FPFt.onDiagonal (· + qVal) }
    (0, { track with filterState := st })

theorem toMatrix_onDiagonal_add (P : Flat K n n) (q : K) :
    (P.onDiagonal (· + q)).toMatrix = P.toMatrix + diagonal fun _ => q := by
  ext i j
  rw [Flat.toMatrix_apply, Flat.entry_onDiagonal, Matrix.add_apply, Flat.toMatrix_apply,
    diagonal_apply]
  split
  · next h => rw [h]
  · rw [add_zero]

/-! ## Measurement update -/

/-- The array `H`: only the position is observed. -/
def observation : Flat K 2 6 :=
  #v[1, 0, 0, 0, 0, 0,
     0, 1, 0, 0, 0, 0]

/-- The array `R`. -/
def measurementNoise : Flat K 2 2 := #v[0.1, 0, 0, 0.1]

/-- The array `S` of `update_kalman_filter`. -/
def innovationCovariance (state : KalmanState K) : Flat K 2 2 :=
  matAdd (matMul (matMul observation state.covariance) (matTranspose observation))
    measurementNoise

/-- The array `I_KH`. -/
def identityMinus (KH : Flat K n n) : Flat K n n :=
  .ofFn fun i j => (if i = j then 1 else 0) - KH.entry i j

/-- The vector `y` of `update_kalman_filter`. -/
def residual (state : KalmanState K) (meas : TargetTrack K) : Flat K 2 1 :=
  #v[meas.position.longitude - state.x, meas.position.latitude - state.y]

/-- `mat_mul` into an array of `size` doubles; `none` is a write behind its end. -/
def matMulInto (size : Nat) (A : Flat K m n) (B : Flat K n k) : Option (Flat K m k) :=
  if m * k ≤ size then some (matMul A B) else none

/-- `update_kalman_filter` on non-`NULL` arguments, with every product held
against the size of its array; `none` is undefined behaviour. -/
def updateKalmanFilterChecked [LinearOrder K] (state : KalmanState K) (meas : TargetTrack K) :
    Option (Int × KalmanState K) :=
  if state.initialized = 0 then some (-1, state)
  else do
    let y := residual state meas
    let HP ← matMulInto 12 observation state.covariance
    let S ← matMulInto 4 HP (matTranspose observation)
    match matInv2x2 (matAdd S measurementNoise) with
    | none => some (-1, state)
    | some sInv =>
      let HTSinv ← matMulInto 8 (matTranspose observation) sInv
      let gain ← matMulInto 12 state.covariance HTSinv
      let Ky ← matMulInto 6 gain y
      let KH ← matMulInto 36 gain observation
      let nextP ← matMulInto 36 (identityMinus KH) state.covariance
      some (0, { state with
        state := matAdd state.state Ky
        covariance := nextP
        lastUpdate := meas.timestamp })

/-- The four doubles written behind `HTSinv[8]`. -/
def behind (HTSinv : Flat K 6 2) (c : Fin 4) : K := HTSinv[8 + c.val]

/-- The array `A` once the cells behind `HTSinv[8]` are written. -/
def overrun (HTSinv : Flat K 6 2) (cells : Fin (m * n) → Option (Fin 4)) (A : Flat K m n) :
    Flat K m n :=
  .ofFn fun i j => match cells (finProdFinEquiv (i, j)) with
    | none => A.entry i j
    | some c => behind HTSinv c

/-- `update_kalman_filter` on non-`NULL` arguments, in a build with the stack
`libm.stack`: the product reads the twelve cells that were written, and `H` and
`y` hold what was written over them. -/
def updateKalmanFilter [LinearOrder K] (libm : Libm K) (state : KalmanState K)
    (meas : TargetTrack K) : Int × KalmanState K :=
  if state.initialized = 0 then (-1, state)
  else
    let y := residual state meas
    match matInv2x2 (innovationCovariance state) with
    | none => (-1, state)
    | some sInv =>
      let HTSinv := matMul (matTranspose observation) sInv
      let H := overrun HTSinv libm.stack.H observation
      let y := overrun HTSinv libm.stack.y y
      let gain := matMul state.covariance HTSinv
      let Ky := matMul gain y
      let I_KH := identityMinus (matMul gain H)
      (0, { state with
        state := matAdd state.state Ky
        covariance := matMul I_KH state.covariance
        lastUpdate := meas.timestamp })

/-- The first product that does not fit its array is `HTSinv`. -/
theorem updateKalmanFilterChecked_eq [LinearOrder K] (state : KalmanState K)
    (meas : TargetTrack K) :
    updateKalmanFilterChecked state meas =
      if state.initialized = 0 ∨ matInv2x2 (innovationCovariance state) = none
      then some (-1, state) else none := by
  unfold updateKalmanFilterChecked
  by_cases hinit : state.initialized = 0
  · rw [if_pos hinit, if_pos (.inl hinit)]
  · have hS : matAdd (matMul (matMul observation state.covariance) (matTranspose observation))
        measurementNoise = innovationCovariance state := rfl
    rw [if_neg hinit]
    cases hinv : matInv2x2 (innovationCovariance state) with
    | none =>
      rw [if_pos (.inr rfl)]
      simp only [matMulInto, hS, hinv, Option.bind_eq_bind, Option.bind_some, Nat.reduceMul,
        Nat.reduceLeDiff, if_true]
    | some sInv =>
      rw [if_neg (by simp [hinit])]
      simp only [matMulInto, hS, hinv, Option.bind_eq_bind, Option.bind_some, Nat.reduceMul,
        Nat.reduceLeDiff, if_true, if_false, Option.bind_none]

/-- A defined call does in every build what C says. -/
theorem updateKalmanFilter_of_checked [LinearOrder K] (libm : Libm K) {state : KalmanState K}
    {meas : TargetTrack K} {r : Int × KalmanState K}
    (h : updateKalmanFilterChecked state meas = some r) :
    updateKalmanFilter libm state meas = r := by
  rw [updateKalmanFilterChecked_eq] at h
  split at h
  · next hrefused =>
    obtain rfl := Option.some.inj h
    rw [updateKalmanFilter]
    rcases hrefused with hinit | hinv
    · rw [if_pos hinit]
    · rw [hinv, ite_self]
  · cases h

theorem toMatrix_measurementNoise :
    (measurementNoise : Flat K 2 2).toMatrix = diagonal fun _ => (0.1 : K) := by
  ext i j
  fin_cases i <;> fin_cases j <;> rfl

@[simp] theorem toMatrix_identityMinus (KH : Flat K n n) :
    (identityMinus KH).toMatrix = 1 - KH.toMatrix := by
  ext i j
  rw [identityMinus, Flat.toMatrix_ofFn, Matrix.sub_apply, Matrix.one_apply]
  rfl

/-! ## Association distance -/

def varX (st : KalmanState K) : K := st.covariance[0] + 0.1

def varY (st : KalmanState K) : K := st.covariance[7] + 0.1

/-- `calculate_track_distance` on non-`NULL` arguments. -/
def calculateTrackDistance (libm : Libm K) (track : FusedTrack K) (meas : TargetTrack K) : K :=
  let st := track.filterState
  let dx := meas.position.longitude - st.x
  let dy := meas.position.latitude - st.y
  libm.sqrt (dx * dx / varX st + dy * dy / varY st)

/-! ## A rational instance -/

/-- A `math.h` over the rationals, exact for the roots of 0 and 1 and for the
angle 0; nothing rounds and nothing is overwritten. -/
def Libm.rat : Libm ℚ where
  sqrt q := q
  cos _ := 1
  sin _ := 0
  atan2 _ _ := 0
  round q := q
  stack := .apart

/-- A build that puts `H` directly behind `HTSinv`. -/
def Libm.ratOverrun : Libm ℚ :=
  { Libm.rat with
    stack := { StackLayout.apart with
      H := fun c => if h : c.val < 4 then some ⟨c.val, h⟩ else none } }

def rollingCar (timestamp : Timeval) : TargetTrack ℚ where
  id := 7
  type := .vehicle
  position := ⟨0, 0, 0⟩
  velocity := 1
  heading := 0
  confidence := 9 / 10
  timestamp := timestamp
  sensorId := 1

end Mec
