import Mathlib.Algebra.Order.Field.Basic
import Mathlib.Tactic.GCongr
import Mathlib.Tactic.Linarith
import Mathlib.Tactic.Ring

/-!
# Exponential smoothing

A value that is moved towards each new one by a fixed fraction `w` of the distance.
After `n` steps the value it began with counts for `(1 - w) ^ n` only: what is smoothed
comes as close to bounds of the new values as that (`smooth_le`, `le_smooth`). An
error made in every step does not add up (`near_smooth`).
-/

namespace Lib.Smoothing

variable {K : Type*} [Field K] {w c : K} {ms : List K}

def smooth (w c : K) (ms : List K) : K := ms.foldl (fun c m => (1 - w) * c + w * m) c

theorem smooth_append (w c : K) (ms ms' : List K) :
    smooth w c (ms ++ ms') = smooth w (smooth w c ms) ms' := List.foldl_append

theorem smooth_neg (w c : K) (ms : List K) :
    smooth w (-c) (ms.map fun m => -m) = -smooth w c ms := by
  unfold smooth
  induction ms generalizing c with
  | nil => rfl
  | cons m ms ih =>
    rw [List.map_cons, List.foldl_cons, List.foldl_cons, ← ih]
    congr 1
    ring

variable [LinearOrder K] [IsStrictOrderedRing K]

/-- Values up to `b` bring it down to `b` by the factor `1 - w` each. -/
theorem smooth_le (h0 : 0 ≤ w) (h1 : w ≤ 1) {b : K} (hms : ∀ m ∈ ms, m ≤ b) :
    smooth w c ms ≤ b + (1 - w) ^ ms.length * (c - b) := by
  induction ms generalizing c with
  | nil => simp [smooth]
  | cons m ms ih =>
    have hm : w * (m - b) ≤ 0 :=
      mul_nonpos_of_nonneg_of_nonpos h0 (sub_nonpos.mpr (hms m List.mem_cons_self))
    have hpow : 0 ≤ (1 - w) ^ ms.length := pow_nonneg (sub_nonneg.mpr h1) _
    calc smooth w c (m :: ms) = smooth w ((1 - w) * c + w * m) ms := rfl
      _ ≤ b + (1 - w) ^ ms.length * ((1 - w) * c + w * m - b) :=
        ih fun m' hm' => hms m' (List.mem_cons_of_mem _ hm')
      _ = b + (1 - w) ^ ms.length * ((1 - w) * (c - b) + w * (m - b)) := by ring
      _ ≤ b + (1 - w) ^ ms.length * ((1 - w) * (c - b)) := by
        gcongr
        exact add_le_of_nonpos_right hm
      _ = b + (1 - w) ^ (m :: ms).length * (c - b) := by
        rw [List.length_cons, pow_succ]
        ring

theorem le_smooth (h0 : 0 ≤ w) (h1 : w ≤ 1) {b : K} (hms : ∀ m ∈ ms, b ≤ m) :
    b + (1 - w) ^ ms.length * (c - b) ≤ smooth w c ms := by
  have hneg : ∀ m ∈ ms.map fun m => -m, m ≤ -b := by
    intro m hm
    obtain ⟨m', hm', rfl⟩ := List.mem_map.mp hm
    exact neg_le_neg (hms m' hm')
  have h := smooth_le h0 h1 hneg (c := -c)
  rw [smooth_neg, List.length_map] at h
  linarith

/-- It is never below all the values. -/
theorem exists_le_smooth (h0 : 0 ≤ w) (h1 : w ≤ 1) : ∃ m ∈ c :: ms, m ≤ smooth w c ms := by
  induction ms generalizing c with
  | nil => exact ⟨c, List.mem_cons_self, le_refl c⟩
  | cons m ms ih =>
    obtain ⟨x, hx, hle⟩ := ih (c := (1 - w) * c + w * m)
    rcases List.mem_cons.mp hx with rfl | hx
    · have hw := sub_nonneg.mpr h1
      have haverage : min c m ≤ (1 - w) * c + w * m := by
        calc min c m = (1 - w) * min c m + w * min c m := by ring
          _ ≤ (1 - w) * c + w * m := by
            gcongr
            · exact min_le_left c m
            · exact min_le_right c m
      rcases min_le_iff.mp haverage with hc | hm
      · exact ⟨c, List.mem_cons_self, hc.trans hle⟩
      · exact ⟨m, List.mem_cons_of_mem _ List.mem_cons_self, hm.trans hle⟩
    · exact ⟨x, List.mem_cons_of_mem _ (List.mem_cons_of_mem _ hx), hle⟩

theorem exists_smooth_le (h0 : 0 ≤ w) (h1 : w ≤ 1) : ∃ m ∈ c :: ms, smooth w c ms ≤ m := by
  have hneg : ∃ x ∈ -c :: ms.map fun m => -m, x ≤ smooth w (-c) (ms.map fun m => -m) :=
    exists_le_smooth h0 h1
  obtain ⟨x, hx, hle⟩ := hneg
  rw [smooth_neg] at hle
  rw [← List.map_cons (f := fun m => -m), List.mem_map] at hx
  obtain ⟨m, hm, rfl⟩ := hx
  exact ⟨m, hm, neg_le_neg_iff.mp hle⟩

theorem abs_smooth_le (h0 : 0 ≤ w) (h1 : w ≤ 1) {A : K} (hA : ∀ m ∈ c :: ms, |m| ≤ A) :
    |smooth w c ms| ≤ A := by
  obtain ⟨x, hx, hlow⟩ : ∃ m ∈ c :: ms, m ≤ smooth w c ms := exists_le_smooth h0 h1
  obtain ⟨y, hy, hup⟩ : ∃ m ∈ c :: ms, smooth w c ms ≤ m := exists_smooth_le h0 h1
  exact abs_le.mpr ⟨(abs_le.mp (hA x hx)).1.trans hlow, hup.trans (abs_le.mp (hA y hy)).2⟩

/-- A smoothed value that is off by `E`, moved with an error `δ`, is off by `E`
again if `δ` is the part of `E` that the step forgets. -/
theorem near_smooth (h1 : w ≤ 1) {E δ x x' m : K} (hE : (1 - w) * E + δ ≤ E)
    (hx : |x - smooth w c ms| ≤ E) (hstep : |x' - ((1 - w) * x + w * m)| ≤ δ) :
    |x' - smooth w c (ms ++ [m])| ≤ E := by
  have hlast : smooth w c (ms ++ [m]) = (1 - w) * smooth w c ms + w * m := smooth_append w c ms [m]
  have hforget : |(1 - w) * (x - smooth w c ms)| ≤ (1 - w) * E := by
    rw [abs_mul, abs_of_nonneg (sub_nonneg.mpr h1)]
    exact mul_le_mul_of_nonneg_left hx (sub_nonneg.mpr h1)
  calc |x' - smooth w c (ms ++ [m])|
      = |x' - ((1 - w) * x + w * m) + (1 - w) * (x - smooth w c ms)| := by
        rw [hlast]
        congr 1
        ring
    _ ≤ δ + (1 - w) * E := (abs_add_le _ _).trans (add_le_add hstep hforget)
    _ ≤ E := by rwa [add_comm]

end Lib.Smoothing
