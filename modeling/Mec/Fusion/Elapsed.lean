import Mec.Fusion.Runs

/-!
# Elapsed time

How far the passes of a run carry a track between two absorptions. A pass
measures `dt` from `last_update`, which prediction leaves alone: pass number
`i` moves the state by the whole span from the last absorption, so the spans
add up (`moved_of_run`). The motion model composes (`transition_add`), and one
step of the sum is the step of the last span only if there was one pass or the
state does not move.
-/

namespace Mec

open Lib.Lts Lib.RowMajor Matrix

variable {K : Type} [Field K]

/-! ## The motion model -/

theorem transition_zero : (transition (0 : K)).toMatrix = 1 := by
  rw [toMatrix_transition]
  ext i j
  fin_cases i <;> fin_cases j <;> simp

theorem transition_mul_col (dt : K) (X : Matrix (Fin 6) (Fin 1) K) :
    (transition dt).toMatrix * X =
      !![X 0 0 + dt * X 2 0 + 0.5 * dt * dt * X 4 0;
         X 1 0 + dt * X 3 0 + 0.5 * dt * dt * X 5 0;
         X 2 0 + dt * X 4 0;
         X 3 0 + dt * X 5 0;
         X 4 0;
         X 5 0] := by
  rw [toMatrix_transition]
  ext i j
  simp only [Matrix.mul_apply, Fin.sum_univ_six]
  fin_cases i <;> fin_cases j <;> simp

variable [LinearOrder K] [IsStrictOrderedRing K]

theorem transition_add (a b : K) :
    (transition a).toMatrix * (transition b).toMatrix = (transition (a + b)).toMatrix := by
  rw [toMatrix_transition, toMatrix_transition, toMatrix_transition]
  ext i j
  simp only [Matrix.mul_apply, Fin.sum_univ_six]
  fin_cases i <;> fin_cases j <;> simp <;> ring

/-- Different spans give different states unless nothing moves. -/
theorem transition_mul_inj {a b : K} (hab : a ≠ b) (X : Matrix (Fin 6) (Fin 1) K) :
    (transition a).toMatrix * X = (transition b).toMatrix * X ↔
      X 2 0 = 0 ∧ X 3 0 = 0 ∧ X 4 0 = 0 ∧ X 5 0 = 0 := by
  have hsub : a - b ≠ 0 := sub_ne_zero.mpr hab
  rw [transition_mul_col, transition_mul_col]
  constructor
  · intro h
    have hrow (i : Fin 6) := congrFun (congrFun h i) 0
    have hx : X 0 0 + a * X 2 0 + 0.5 * a * a * X 4 0 =
        X 0 0 + b * X 2 0 + 0.5 * b * b * X 4 0 := hrow 0
    have hy : X 1 0 + a * X 3 0 + 0.5 * a * a * X 5 0 =
        X 1 0 + b * X 3 0 + 0.5 * b * b * X 5 0 := hrow 1
    have hvx : X 2 0 + a * X 4 0 = X 2 0 + b * X 4 0 := hrow 2
    have hvy : X 3 0 + a * X 5 0 = X 3 0 + b * X 5 0 := hrow 3
    -- the velocity rows give the accelerations, then the position rows the velocities
    have hax : X 4 0 = 0 :=
      (mul_eq_zero.mp (show (a - b) * X 4 0 = 0 by linear_combination hvx)).resolve_left hsub
    have hay : X 5 0 = 0 :=
      (mul_eq_zero.mp (show (a - b) * X 5 0 = 0 by linear_combination hvy)).resolve_left hsub
    rw [hax] at hx
    rw [hay] at hy
    exact ⟨(mul_eq_zero.mp (show (a - b) * X 2 0 = 0 by linear_combination hx)).resolve_left hsub,
      (mul_eq_zero.mp (show (a - b) * X 3 0 = 0 by linear_combination hy)).resolve_left hsub,
      hax, hay⟩
  · rintro ⟨hvx, hvy, hax, hay⟩
    simp only [hvx, hvy, hax, hay, mul_zero]

/-! ## The clock -/

theorem elapsed_eq (now last : Timeval) :
    (elapsed now last : K) = ((now.micros - last.micros : Int) : K) / 1000000 := by
  unfold elapsed Timeval.micros
  rw [show (1000000.0 : K) = 1000000 by norm_num]
  push_cast
  ring

theorem elapsed_pos {now last : Timeval} (h : last.micros < now.micros) :
    (0 : K) < elapsed now last := by
  rw [elapsed_eq]
  have : (0 : K) < ((now.micros - last.micros : Int) : K) := by exact_mod_cast sub_pos.mpr h
  positivity

/-- The spans from `u` to each of the times, added up. -/
def totalSpan (u : Timeval) (S : List Timeval) : K := (S.map (elapsed · u)).sum

omit [LinearOrder K] [IsStrictOrderedRing K] in
theorem totalSpan_concat (u : Timeval) (S : List Timeval) (s : Timeval) :
    (totalSpan u (S ++ [s]) : K) = totalSpan u S + elapsed s u := by
  rw [totalSpan, List.map_append, List.sum_append, List.map_singleton, List.sum_singleton]
  rfl

theorem totalSpan_pos {u : Timeval} {S : List Timeval} (hS : S ≠ [])
    (h : ∀ s ∈ S, u.micros < s.micros) : (0 : K) < totalSpan u S := by
  refine List.sum_pos _ (fun x hx => ?_) (by simpa using hS)
  obtain ⟨s, hs, rfl⟩ := List.mem_map.mp hx
  exact elapsed_pos (h s hs)

/-! ## Runs -/

theorem ageTrack_state {now : Timeval} {t : FusedTrack K}
    (h : t.lastUpdate.micros < now.micros) :
    (ageTrack now t).filterState.state.toMatrix =
      (transition (elapsed now t.lastUpdate : K)).toMatrix * t.filterState.state.toMatrix := by
  unfold ageTrack predictTrackState
  rw [if_neg (elapsed_pos h).not_ge]
  exact toMatrix_matMul _ _

/-- The track `id`, untouched since `u` where its state was `X`, after passes at
the times `S`. -/
def Moved (u : Timeval) (id : Int) (X : Matrix (Fin 6) (Fin 1) K) (T : List (Touch K))
    (S : List Timeval) (p : FusionProcessor K) : Prop :=
  (∀ meas, Touch.absorbed id meas ∉ T) → (∀ s ∈ S, u.micros < s.micros) →
    id < p.nextGlobalId ∧ ∀ t ∈ p.live, t.globalId = id → t.lastUpdate = u ∧
      t.filterState.state.toMatrix = (transition (totalSpan u S : K)).toMatrix * X

section Moved

variable {libm : Libm K} {u : Timeval} {id : Int} {X : Matrix (Fin 6) (Fin 1) K}
  {T : List (Touch K)} {S : List Timeval} {p q : FusionProcessor K}

omit [IsStrictOrderedRing K] in
theorem Moved.add (h : Moved u id X T S p) (sensorId : Int) (meas : TargetTrack K) :
    Moved u id X (T ++ [(addDetection libm sensorId p meas).2]) S
      (addDetection libm sensorId p meas).1 := by
  intro hT hS
  obtain ⟨hid, hmoved⟩ := h (fun m hm => hT m (List.mem_append_left _ hm)) hS
  rcases addDetection_cases libm sensorId p meas with
    ⟨j, t, hj, hev, hlive, hnext⟩ | ⟨old, hev, hlive, hnext⟩ | hdrop
  · rw [hnext, hlive]
    refine ⟨hid, fun s hs hsid => ?_⟩
    rcases List.mem_or_eq_of_mem_set hs with hs | rfl
    · exact hmoved s hs hsid
    · -- the absorbing track is another one
      have habs : t.globalId = id := hsid
      refine absurd ?_ (hT meas)
      rw [hev, habs]
      exact List.mem_append_right _ (List.mem_singleton.mpr rfl)
  · rw [hnext, hlive]
    refine ⟨by omega, fun s hs hsid => ?_⟩
    rcases List.mem_append.mp hs with hs | hs
    · exact hmoved s hs hsid
    · obtain rfl := List.mem_singleton.mp hs
      exact absurd hsid hid.ne'
  · rw [hdrop]
    exact ⟨hid, hmoved⟩

theorem Moved.pass (h : Moved u id X T S p) (env : PassEnv K) :
    Moved u id X T (S ++ [env.now]) (fusionPass libm env p) := by
  intro hT hS
  obtain ⟨hid, hmoved⟩ := h hT fun s hs => hS s (List.mem_append_left _ hs)
  rw [(fusionPass_frame libm env p).nextGlobalId]
  refine ⟨hid, fun t ht htid => ?_⟩
  obtain ⟨s, hs, rfl⟩ := mem_fusionPass ht
  rw [ageTrack_globalId] at htid
  obtain ⟨hlast, hstate⟩ := hmoved s hs htid
  have hnow := hS env.now (List.mem_append_right _ (List.mem_singleton.mpr rfl))
  refine ⟨by rw [ageTrack_lastUpdate, hlast], ?_⟩
  rw [ageTrack_state (by rw [hlast]; exact hnow), hlast, hstate, ← Matrix.mul_assoc,
    transition_add, totalSpan_concat, add_comm]

/-- Every pass adds its whole span from the last absorption. -/
theorem moved_of_run {tr : List (FusionAct K × List (Touch K))} (hok : TableOk p)
    {t : FusedTrack K} (ht : t ∈ p.live) (h : Run (fusionStep libm) p tr q) :
    Moved t.lastUpdate t.globalId t.filterState.state.toMatrix (touches tr) (passTimes tr) q := by
  refine fusionRun_invariant (I := Moved t.lastUpdate t.globalId t.filterState.state.toMatrix)
    (fun sensorId _ _ _ meas hp => hp.add sensorId meas) (fun _ _ _ env hp => hp.pass env) h
    (T := []) (S := []) ?_
  refine fun _ _ => ⟨hok.lt_next t ht, fun s hs hid => ?_⟩
  obtain rfl : s = t := List.inj_on_of_nodup_map hok.nodup hs ht hid
  exact ⟨rfl, by rw [totalSpan, List.map_nil, List.sum_nil, transition_zero, Matrix.one_mul]⟩

/-- **When elapsed time is counted once.** A reachable processor's track with
`last_update` `u` and state `X` goes through passes at increasing times after
`u`, the last at `s`, absorbs nothing and survives. Its state is then the
extrapolation of `X` over `s - u` exactly if there was one pass or `X` has
neither velocity nor acceleration. -/
theorem elapsed_once_iff {config : FusionConfig K} {fresh : Fresh K}
    {tr₀ tr : List (FusionAct K × List (Touch K))}
    (h₀ : Run (fusionStep libm) (fusionProcessorCreate config fresh) tr₀ p)
    {t : FusedTrack K} (ht : t ∈ p.live) (h : Run (fusionStep libm) p tr q)
    (hquiet : ∀ meas, Touch.absorbed t.globalId meas ∉ touches tr)
    (htimes : (t.lastUpdate :: passTimes tr).Pairwise fun a b => a.micros < b.micros)
    {s : Timeval} (hlast : (passTimes tr).getLast? = some s)
    {t' : FusedTrack K} (ht' : t' ∈ q.live) (hid : t'.globalId = t.globalId) :
    t'.filterState.state =
        matMul (transition (elapsed s t.lastUpdate)) t.filterState.state ↔
      (passTimes tr).length = 1 ∨
        (t.filterState.vx = 0 ∧ t.filterState.vy = 0 ∧
          t.filterState.ax = 0 ∧ t.filterState.ay = 0) := by
  obtain ⟨hlate, -⟩ := List.pairwise_cons.mp htimes
  obtain ⟨-, hmoved⟩ := moved_of_run (tableOk_of_run h₀) ht h hquiet hlate
  obtain ⟨-, hstate⟩ := hmoved t' ht' hid
  obtain ⟨S, hS⟩ := List.getLast?_eq_some_iff.mp hlast
  rw [hS, totalSpan_concat] at hstate
  have hmat : t'.filterState.state =
      matMul (transition (elapsed s t.lastUpdate)) t.filterState.state ↔
      (transition (totalSpan t.lastUpdate S + elapsed s t.lastUpdate : K)).toMatrix *
          t.filterState.state.toMatrix =
        (transition (elapsed s t.lastUpdate : K)).toMatrix * t.filterState.state.toMatrix := by
    rw [← hstate, ← toMatrix_matMul]
    exact ⟨congrArg _, Flat.toMatrix_inj⟩
  rw [hmat, hS]
  by_cases hnil : S = []
  · subst hnil
    refine iff_of_true ?_ (.inl rfl)
    rw [totalSpan, List.map_nil, List.sum_nil, zero_add]
  · have hspan : totalSpan t.lastUpdate S + elapsed s t.lastUpdate ≠
        (elapsed s t.lastUpdate : K) := by
      have hpos : (0 : K) < totalSpan t.lastUpdate S :=
        totalSpan_pos hnil fun x hx => hlate x (by rw [hS]; exact List.mem_append_left _ hx)
      exact (lt_add_of_pos_left _ hpos).ne'
    have hlen : ¬(S ++ [s]).length = 1 := by
      have := List.length_pos_iff.mpr hnil
      rw [List.length_append, List.length_singleton]
      omega
    rw [transition_mul_inj hspan, or_iff_right hlen]
    rfl

end Moved

/-! ## Two passes -/

def carTracked : FusionProcessor ℚ :=
  (fusionProcessorAddTracks .rat carSeen (oneCar ⟨101, 0⟩) 1).2

def trackedCar : FusedTrack ℚ := absorb .rat 1 newCar (rollingCar ⟨101, 0⟩)

theorem addDetection_carSeen : addDetection .rat 1 carSeen (rollingCar ⟨101, 0⟩) =
    (carSeen.setTrack 0 trackedCar, .absorbed 1 (rollingCar ⟨101, 0⟩)) := by
  have hnear : associate .rat carSeen (rollingCar ⟨101, 0⟩) = some ⟨0, by decide⟩ := by
    decide +kernel
  rw [addDetection, hnear]
  rfl

theorem carTracked_live : carTracked.live = [trackedCar] := by
  show (addDetection .rat 1 carSeen (rollingCar ⟨101, 0⟩)).1.live = _
  rw [addDetection_carSeen]
  rfl

def carAdds : List (FusionAct ℚ × List (Touch ℚ)) :=
  [(.addTracks (oneCar ⟨100, 0⟩) 1, [.created 1 (rollingCar ⟨100, 0⟩) .zero]),
    (.addTracks (oneCar ⟨101, 0⟩) 1, [.absorbed 1 (rollingCar ⟨101, 0⟩)])]

theorem carTracked_run : Run (fusionStep .rat) emptyProcessor carAdds carTracked := by
  refine carSeen_run.snoc ?_
  show some (carTracked, [(addDetection .rat 1 carSeen (rollingCar ⟨101, 0⟩)).2]) = _
  rw [addDetection_carSeen]

def tick (s : Int) : PassEnv ℚ := ⟨⟨s, 0⟩, fun _ => rollingCar ⟨0, 0⟩, fun _ => none⟩

def twoTicks : List (FusionAct ℚ × List (Touch ℚ)) :=
  [(.pass (tick 102), []), (.pass (tick 103), [])]

def tickedTwice : FusionProcessor ℚ :=
  fusionPass .rat (tick 103) (fusionPass .rat (tick 102) carTracked)

def movedCar : FusedTrack ℚ := ageTrack ⟨103, 0⟩ (ageTrack ⟨102, 0⟩ trackedCar)

theorem tickedTwice_run : Run (fusionStep .rat) carTracked twoTicks tickedTwice :=
  .cons rfl (.single rfl)

theorem tickedTwice_live : tickedTwice.live = [movedCar] := by
  have hone : (fusionPass .rat (tick 102) carTracked).live = [ageTrack ⟨102, 0⟩ trackedCar] :=
    fusionPass_singleton carTracked_live (by decide +kernel)
  refine fusionPass_singleton hone ?_
  rw [(fusionPass_frame _ _ _).config]
  decide +kernel

theorem movedCar_globalId : movedCar.globalId = trackedCar.globalId := by
  rw [movedCar, ageTrack_globalId, ageTrack_globalId]

theorem elapsed_once_iff_two_ticks :
    movedCar.filterState.state =
        matMul (transition (elapsed ⟨103, 0⟩ trackedCar.lastUpdate)) trackedCar.filterState.state ↔
      (passTimes twoTicks).length = 1 ∨
        (trackedCar.filterState.vx = 0 ∧ trackedCar.filterState.vy = 0 ∧
          trackedCar.filterState.ax = 0 ∧ trackedCar.filterState.ay = 0) :=
  elapsed_once_iff carTracked_run (by rw [carTracked_live]; exact List.mem_singleton_self _)
    tickedTwice_run (fun _ => List.not_mem_nil) (by decide) rfl
    (by rw [tickedTwice_live]; exact List.mem_singleton_self _) movedCar_globalId

/-- The car last absorbed a detection at second 101 and moves with velocity 1.
After passes at 102 and 103 it stands at 3, where two seconds of motion from 0
would have put it at 2. -/
theorem elapsed_counted_twice :
    Run (fusionStep .rat) emptyProcessor carAdds carTracked ∧ trackedCar ∈ carTracked.live ∧
      trackedCar.lastUpdate = ⟨101, 0⟩ ∧
      Run (fusionStep .rat) carTracked twoTicks tickedTwice ∧
      passTimes twoTicks = [⟨102, 0⟩, ⟨103, 0⟩] ∧
      movedCar ∈ tickedTwice.live ∧ movedCar.globalId = trackedCar.globalId ∧
      movedCar.filterState.state ≠
        matMul (transition (elapsed ⟨103, 0⟩ trackedCar.lastUpdate))
          trackedCar.filterState.state := by
  refine ⟨carTracked_run, ?_, rfl, tickedTwice_run, rfl, ?_, movedCar_globalId, ?_⟩
  · rw [carTracked_live]
    exact List.mem_singleton_self _
  · rw [tickedTwice_live]
    exact List.mem_singleton_self _
  · have hmoved : movedCar.filterState.state[0] = 3 := by decide +kernel
    have hspan : (matMul (transition (elapsed ⟨103, 0⟩ trackedCar.lastUpdate))
        trackedCar.filterState.state)[0] = 2 := by decide +kernel
    intro heq
    rw [heq, hspan] at hmoved
    exact absurd hmoved (by decide)

end Mec
