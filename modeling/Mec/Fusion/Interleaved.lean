import Mec.Fusion.Runs
import Mec.Lib.Critical

/-!
# The processor from close by

`fusion_processor_add_tracks` goes through its list detection by detection and a pass
through the table track by track, both under the processor's mutex. The monitor and the
main loop read `track_count` and the output list without it. The two sections take
effect one after the other, as `fusionStep` has it; a read without the mutex may see
one of them half done, and what it sees is then between the two states.
-/

namespace Mec

open Lib.Lts Lib.Critical

variable {K : Type}

/-- The local variables of the two loops: the detections ahead, or the index `i`. -/
inductive FusionLocal (K : Type) where
  | adding (rest : List (TargetTrack K))
  | passing (i : Nat)

variable [Field K] [LinearOrder K]

/-- One iteration of either loop. -/
def fusionBody (libm : Libm K) : FusionAct K → FusionProcessor K × FusionLocal K →
    Option (FusionProcessor K × FusionLocal K)
  | .addTracks _ sensorId, (p, .adding (meas :: rest)) =>
    some ((addDetection libm sensorId p meas).1, .adding rest)
  | .pass env, (p, .passing i) =>
    if h : i < p.trackCount then
      some ((passBody libm env i p h).2, .passing (passBody libm env i p h).1)
    else none
  | _, _ => none

/-- The two sections; a pass clears the output list first. -/
def fusionCode (libm : Libm K) : Code (FusionProcessor K) (FusionAct K) (FusionLocal K) where
  enter
    | .addTracks tracks _, p => (p, .adding tracks.contents)
    | .pass _, p => (p.clearOutput, .passing 0)
  body := fusionBody libm

/-! ## Left to itself, a section is a step -/

theorem adding_ends (libm : Libm K) (tracks : TrackList K) (sensorId : Int)
    (dets : List (TargetTrack K)) (p : FusionProcessor K) :
    Ends (fusionCode libm) (.addTracks tracks sensorId) (p, .adding dets)
      (dets.foldl (fun p meas => (addDetection libm sensorId p meas).1) p) := by
  induction dets generalizing p with
  | nil => exact .leave rfl
  | cons meas rest ih => exact .body rfl (ih _)

theorem passing_ends (libm : Libm K) (env : PassEnv K) (i : Nat) (p : FusionProcessor K) :
    Ends (fusionCode libm) (.pass env) (p, .passing i) (passLoop libm env i p) := by
  induction i, p using passLoop.induct libm env with
  | case1 i p h ih =>
    rw [passLoop, dif_pos h]
    refine .body ?_ ih
    exact dif_pos h
  | case2 i p h =>
    rw [passLoop, dif_neg h]
    refine .leave ?_
    exact dif_neg h

theorem fusionCode_implements (libm : Libm K) :
    Implements (fusionCode libm) (fusionStep libm) := by
  intro p b
  cases b with
  | addTracks tracks sensorId =>
    exact ⟨_, _, rfl, adding_ends libm tracks sensorId tracks.contents p⟩
  | pass env => exact ⟨_, _, rfl, passing_ends libm env 0 p.clearOutput⟩

/-! ## What a section does to what others read -/

omit [Field K] [LinearOrder K] in
/-- The table grows while detections are added and shrinks in a pass; the output list is
only appended to. -/
structure Advances (b : FusionAct K) (p q : FusionProcessor K) : Prop where
  capacity : q.trackCapacity = p.trackCapacity
  grows : b.time? = none → p.trackCount ≤ q.trackCount
  shrinks : b.time?.isSome → q.trackCount ≤ p.trackCount
  output : ∀ o ∈ p.outputTracks, ∃ o' ∈ q.outputTracks, o.contents <+: o'.contents

namespace Advances

variable {libm : Libm K} {b : FusionAct K} {p q r : FusionProcessor K}

omit [Field K] [LinearOrder K] in
theorem refl (b : FusionAct K) (p : FusionProcessor K) : Advances b p p :=
  ⟨rfl, fun _ => le_rfl, fun _ => le_rfl, fun o ho => ⟨o, ho, List.prefix_rfl⟩⟩

omit [Field K] [LinearOrder K] in
theorem trans (h : Advances b p q) (h' : Advances b q r) : Advances b p r where
  capacity := h'.capacity.trans h.capacity
  grows hb := (h.grows hb).trans (h'.grows hb)
  shrinks hb := (h'.shrinks hb).trans (h.shrinks hb)
  output o ho := by
    obtain ⟨o', ho', hle⟩ := h.output o ho
    obtain ⟨o'', ho'', hle'⟩ := h'.output o' ho'
    exact ⟨o'', ho'', hle.trans hle'⟩

theorem addDetection (libm : Libm K) (tracks : TrackList K) (sensorId : Int)
    (p : FusionProcessor K) (meas : TargetTrack K) :
    Advances (.addTracks tracks sensorId) p (addDetection libm sensorId p meas).1 := by
  have hframe := addDetection_frame libm sensorId p meas
  refine ⟨hframe.1, fun _ => ?_, (fun hb => by cases hb), fun o ho => ?_⟩
  · rw [← FusionProcessor.live_length, ← FusionProcessor.live_length]
    rcases addDetection_cases libm sensorId p meas with
      ⟨j, t, -, -, hlive, -⟩ | ⟨old, -, hlive, -⟩ | hdrop
    · rw [hlive, List.length_set]
    · rw [hlive, List.length_append]
      omega
    · rw [hdrop]
  · rw [hframe.2]
    exact ⟨o, ho, List.prefix_rfl⟩

theorem passBody (libm : Libm K) (env : PassEnv K) (i : Nat) (p : FusionProcessor K)
    (h : i < p.trackCount) : Advances (.pass env) p (passBody libm env i p h).2 := by
  refine ⟨(passBody_frame h).capacity, (fun hb => by cases hb), fun _ => ?_, fun o ho => ?_⟩
  · unfold Mec.passBody settleTrack
    dsimp only
    split
    · split
      · exact Nat.sub_le _ _
      · exact Nat.sub_le _ _
    · exact le_rfl
  · unfold Mec.passBody settleTrack
    dsimp only
    split
    · split
      · exact ⟨o, ho, List.prefix_rfl⟩
      · exact ⟨o, ho, List.prefix_rfl⟩
    · -- the track is kept and its record appended, if the list can grow
      refine ⟨_, Option.mem_map_of_mem _ ho, ?_⟩
      rcases trackListAdd_cases (env.fresh i) o
        (toOutput libm env.now (env.out i) (ageTrack env.now (p.track i h))) with ⟨-, hcont⟩ | heq
      · rw [hcont]
        exact List.prefix_append _ _
      · rw [heq]

end Advances

theorem fusionCode_along (libm : Libm K) : Along (fusionCode libm) Advances where
  refl := Advances.refl
  trans _ _ _ _ h h' := h.trans h'
  body b x y hbody := by
    obtain ⟨p, l⟩ := x
    cases b with
    | addTracks tracks sensorId =>
      cases l with
      | passing i => cases hbody
      | adding dets =>
        cases dets with
        | nil => cases hbody
        | cons meas rest =>
          cases hbody
          exact .addDetection libm tracks sensorId p meas
    | pass env =>
      cases l with
      | adding dets => cases hbody
      | passing i =>
        obtain ⟨h, heq⟩ := Option.dite_none_right_eq_some.mp hbody
        cases heq
        exact .passBody libm env i p h

/-! ## Any interleaving -/

variable {libm : Libm K} {cfg : FusionConfig K} {fresh : Fresh K}

/-- **Atomicity.** However the main loop's calls and the passes compete for the mutex and
whatever is read in between, the sections take effect one after the other, in the order in
which they got it; and the one that has it will, left to itself, do to the processor what
its step in `fusionStep` does. -/
theorem sections_serial {tr : SharedTrace (FusionProcessor K) (FusionAct K)}
    {s : Shared (FusionProcessor K) (FusionAct K) (FusionLocal K)}
    (h : Run (sharedStep (fusionCode libm)) ⟨fusionProcessorCreate cfg fresh, none⟩ tr s) :
    ∃ tr' p, Run (fusionStep libm) (fusionProcessorCreate cfg fresh) tr' p ∧
      ((s.inside = none ∧ s.state = p ∧ entered tr = tr'.map Prod.fst) ∨
        ∃ b l q e, s.inside = some (b, l) ∧ entered tr = tr'.map Prod.fst ++ [b] ∧
          fusionStep libm p b = some (q, e) ∧ Ends (fusionCode libm) b (s.state, l) q) := by
  have hserial := run_serial (fusionCode_implements libm) (fusionCode_along libm) h
  generalize entered tr = bs at hserial
  cases hserial with
  | @outside tr' p hrun => exact ⟨tr', p, hrun, .inl ⟨rfl, rfl, rfl⟩⟩
  | @inside tr' p _ b l hrun hwithin =>
    obtain ⟨q, e, hstep, hends⟩ := hwithin.ends
    exact ⟨tr', p, hrun, .inr ⟨b, l, q, e, rfl, rfl, hstep, hends⟩⟩

def halfPass : SharedTrace (FusionProcessor ℚ) (FusionAct ℚ) ×
    Shared (FusionProcessor ℚ) (FusionAct ℚ) (FusionLocal ℚ) :=
  let distant : TargetTrack ℚ := { rollingCar ⟨100, 0⟩ with position := ⟨100, 100, 0⟩ }
  let cars : TrackList ℚ := (trackListAdd (some fun _ => distant) (oneCar ⟨100, 0⟩) distant).2
  play (sharedStep (fusionCode .rat)) ⟨emptyProcessor, none⟩
    [.enter (.addTracks cars 1), .body, .body, .leave,
      .enter (.pass ⟨⟨101, 0⟩, fun _ => rollingCar ⟨0, 0⟩, fun _ => none⟩), .body]

theorem sections_serial_halfPass :
    halfPass.2.state.trackCount = 2 ∧ ∃ tr p b l q e,
      Run (fusionStep .rat) emptyProcessor tr p ∧ halfPass.2.inside = some (b, l) ∧
      fusionStep .rat p b = some (q, e) ∧ Ends (fusionCode .rat) b (halfPass.2.state, l) q := by
  refine ⟨by decide +kernel, ?_⟩
  obtain ⟨tr, p, hrun, ⟨hout, -⟩ | ⟨b, l, q, e, hin, -, hstep, hends⟩⟩ :=
    sections_serial (s := halfPass.2) (run_play (sharedStep (fusionCode .rat))
      ⟨emptyProcessor, none⟩ _)
  · have hinside : halfPass.2.inside.isSome := by decide +kernel
    rw [hout] at hinside
    cases hinside
  · exact ⟨tr, p, b, l, q, e, hrun, hin, hstep, hends⟩

/-- A read at any time: the processor is between two states of a run of `fusionStep`, the
second one reached by the section that has the mutex, if one has it. -/
theorem seen_between {tr₁ tr₂ : SharedTrace (FusionProcessor K) (FusionAct K)}
    {seen : FusionProcessor K} {s : Shared (FusionProcessor K) (FusionAct K) (FusionLocal K)}
    (h : Run (sharedStep (fusionCode libm)) ⟨fusionProcessorCreate cfg fresh, none⟩
      (tr₁ ++ (.look, some seen) :: tr₂) s) :
    ∃ tr p q, Run (fusionStep libm) (fusionProcessorCreate cfg fresh) tr p ∧
      ((q = p ∧ entered tr₁ = tr.map Prod.fst) ∨
        ∃ b e, entered tr₁ = tr.map Prod.fst ++ [b] ∧ fusionStep libm p b = some (q, e)) ∧
      min p.trackCount q.trackCount ≤ seen.trackCount ∧
      seen.trackCount ≤ max p.trackCount q.trackCount ∧
      ∀ o ∈ seen.outputTracks, ∃ o' ∈ q.outputTracks, o.contents <+: o'.contents := by
  obtain ⟨tr, p, hrun, ⟨rfl, hacts⟩ | ⟨b, q, e, hacts, hstep, hsince, hahead⟩⟩ :=
    look_between (fusionCode_implements libm) (fusionCode_along libm) h
  · exact ⟨tr, seen, seen, hrun, .inl ⟨rfl, hacts⟩, min_le_left _ _, le_max_left _ _,
      fun o ho => ⟨o, ho, List.prefix_rfl⟩⟩
  · have hbounds : min p.trackCount q.trackCount ≤ seen.trackCount ∧
        seen.trackCount ≤ max p.trackCount q.trackCount := by
      cases b with
      | addTracks tracks sensorId =>
        exact ⟨(min_le_left _ _).trans (hsince.grows rfl), (hahead.grows rfl).trans (le_max_right _ _)⟩
      | pass env =>
        exact ⟨(min_le_right _ _).trans (hahead.shrinks rfl),
          (hsince.shrinks rfl).trans (le_max_left _ _)⟩
    exact ⟨tr, p, q, hrun, .inr ⟨b, e, hacts, hstep⟩, hbounds.1, hbounds.2, hahead.output⟩

end Mec
