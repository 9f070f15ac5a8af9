import Mec.Fusion.Associate

/-!
# The thresholds that decide

`fusion_processor_add_tracks` and a pass once more, with every comparison against
a configured threshold on record (`below`). The records are made by the very
comparisons that decide: the first components are the functions themselves. A
detection is compared with the association threshold as long as no track was
chosen, so not at all on an empty table, and a track with the confidence threshold
only if its age did not decide already.
-/

namespace Mec

variable {K : Type} [Field K] [LinearOrder K]

/-- `x < threshold`, with the threshold on record. -/
def below (x threshold : K) : Bool × List K := (decide (x < threshold), [threshold])

/-! ## Association -/

/-- `best_idx`, `min_dist` and the record of the inner loop. -/
structure Search (K : Type) (n : Nat) where
  best : Option (Fin n)
  minDist : K
  compared : List K

/-- One iteration of the inner loop of `fusion_processor_add_tracks`. Until a track
is chosen, `min_dist` is the threshold. -/
def searchStep {n : Nat} (dist : Fin n → K) (s : Search K n) (j : Fin n) : Search K n :=
  let test := below (dist j) s.minDist
  let compared := if s.best.isNone then s.compared ++ test.2 else s.compared
  if test.1 then ⟨some j, dist j, compared⟩ else { s with compared := compared }

def associateLogged (libm : Libm K) (p : FusionProcessor K) (meas : TargetTrack K) :
    Option (Fin p.trackCount) × List K :=
  let s := (List.finRange p.trackCount).foldl (searchStep (distanceAt libm p meas))
    ⟨none, p.config.associationThreshold, []⟩
  (s.best, s.compared)

def addDetectionLogged (libm : Libm K) (sensorId : Int) (p : FusionProcessor K)
    (meas : TargetTrack K) : FusionProcessor K × List K :=
  let found := associateLogged libm p meas
  ((placeDetection libm sensorId p meas found.1).1, found.2)

def addTracksLogged (libm : Libm K) (sensorId : Int) (p : FusionProcessor K) :
    List (TargetTrack K) → FusionProcessor K × List K
  | [] => (p, [])
  | meas :: rest =>
    let first := addDetectionLogged libm sensorId p meas
    let others := addTracksLogged libm sensorId first.1 rest
    (others.1, first.2 ++ others.2)

section Association

omit [Field K]

variable {n : Nat} {dist : Fin n → K}

theorem foldl_searchStep (l : List (Fin n)) (s : Search K n) :
    ((l.foldl (searchStep dist) s).best, (l.foldl (searchStep dist) s).minDist) =
      l.foldl (fun best j => if dist j < best.2 then (some j, dist j) else best)
        (s.best, s.minDist) := by
  induction l generalizing s with
  | nil => rfl
  | cons j l ih =>
    rw [List.foldl_cons, List.foldl_cons, ih]
    congr 1
    simp only [searchStep, below, decide_eq_true_eq]
    split <;> rfl

theorem searchStep_compared (s : Search K n) (j : Fin n) :
    (searchStep dist s j).compared =
      if s.best = none then s.compared ++ [s.minDist] else s.compared := by
  unfold searchStep below
  dsimp only
  cases s.best with
  | none => split <;> rfl
  | some k => split <;> rfl

/-- What the record holds after the loop: the threshold `x` it started from, at
least once if there was anything to compare. -/
theorem foldl_searchStep_compared {x : K} (l : List (Fin n)) (s : Search K n)
    (hstart : s.best = none → s.minDist = x) (hx : ∀ y ∈ s.compared, y = x) :
    (∀ y ∈ (l.foldl (searchStep dist) s).compared, y = x) ∧
      ((l.foldl (searchStep dist) s).compared = [] → s.compared = [] ∧ (s.best = none → l = [])) := by
  induction l generalizing s with
  | nil => exact ⟨hx, fun h => ⟨h, fun _ => rfl⟩⟩
  | cons j l ih =>
    have hnext : ∀ y ∈ (searchStep dist s j).compared, y = x := by
      rw [searchStep_compared]
      split
      · next hnone =>
        intro y hy
        rcases List.mem_append.mp hy with hy | hy
        · exact hx y hy
        · rw [List.mem_singleton.mp hy]
          exact hstart hnone
      · exact hx
    have hbest : (searchStep dist s j).best = none → (searchStep dist s j).minDist = x := by
      simp only [searchStep, below, decide_eq_true_eq]
      split
      · intro h
        cases h
      · exact hstart
    obtain ⟨hall, hempty⟩ := ih _ hbest hnext
    refine ⟨hall, fun h => ?_⟩
    have hrecord := (hempty h).1
    rw [searchStep_compared] at hrecord
    split at hrecord
    · exact absurd (List.append_eq_nil_iff.mp hrecord).2 (List.cons_ne_nil _ _)
    · next hbest => exact ⟨hrecord, fun hnone => absurd hnone hbest⟩

end Association

section AddTracks

variable (libm : Libm K) (sensorId : Int)

theorem associateLogged_fst (p : FusionProcessor K) (meas : TargetTrack K) :
    (associateLogged libm p meas).1 = associate libm p meas :=
  congrArg Prod.fst (foldl_searchStep _ _)

/-- What a detection is compared with, and that it is compared unless the table is
empty. -/
theorem associateLogged_snd (p : FusionProcessor K) (meas : TargetTrack K) :
    (∀ x ∈ (associateLogged libm p meas).2, x = p.config.associationThreshold) ∧
      ((associateLogged libm p meas).2 = [] ↔ p.trackCount = 0) := by
  let start : Search K p.trackCount := ⟨none, p.config.associationThreshold, []⟩
  have hstart : ∀ y ∈ start.compared, y = p.config.associationThreshold :=
    fun y hy => absurd hy List.not_mem_nil
  obtain ⟨hall, hempty⟩ :
      (∀ y ∈ (associateLogged libm p meas).2, y = p.config.associationThreshold) ∧
        ((associateLogged libm p meas).2 = [] →
          start.compared = [] ∧ (start.best = none → List.finRange p.trackCount = [])) :=
    foldl_searchStep_compared (List.finRange p.trackCount) start (fun _ => rfl)
      hstart
  refine ⟨hall, fun h => ?_, fun h => ?_⟩
  · rw [← List.length_finRange (n := p.trackCount), (hempty h).2 rfl]
    rfl
  · have hrange : List.finRange p.trackCount = [] := by
      rw [← List.length_eq_zero_iff, List.length_finRange, h]
    show ((List.finRange p.trackCount).foldl _ _ : Search K p.trackCount).compared = []
    rw [hrange]
    rfl

theorem addDetectionLogged_fst (p : FusionProcessor K) (meas : TargetTrack K) :
    (addDetectionLogged libm sensorId p meas).1 = (addDetection libm sensorId p meas).1 := by
  rw [addDetectionLogged, addDetection, associateLogged_fst]

theorem addTracksLogged_fst (detections : List (TargetTrack K)) (p : FusionProcessor K) :
    (addTracksLogged libm sensorId p detections).1 =
      detections.foldl (fun p meas => (addDetection libm sensorId p meas).1) p := by
  induction detections generalizing p with
  | nil => rfl
  | cons meas rest ih =>
    rw [addTracksLogged, List.foldl_cons, ← addDetectionLogged_fst]
    exact ih _

theorem addDetection_trackCount (p : FusionProcessor K) (meas : TargetTrack K)
    (hroom : 0 < p.trackCapacity) : (addDetection libm sensorId p meas).1.trackCount ≠ 0 := by
  rcases addDetection_cases libm sensorId p meas with
    ⟨j, t, hj, -, hlive, -⟩ | ⟨old, -, hlive, -⟩ | hdrop
  · rw [← FusionProcessor.live_length, hlive, List.length_set]
    have hlt := (List.getElem?_eq_some_iff.mp hj).1
    omega
  · rw [← FusionProcessor.live_length, hlive, List.length_append]
    simp
  · by_cases hcount : p.trackCount < p.trackCapacity
    · rcases hassoc : associate libm p meas with _ | j
      · obtain ⟨old, hev, -⟩ := addDetection_new sensorId hassoc hcount
        rw [hdrop] at hev
        cases hev
      · rw [hdrop]
        exact (Nat.zero_le _).trans_lt j.isLt |>.ne'
    · rw [hdrop]
      show p.trackCount ≠ 0
      omega

/-- **What a message is compared with**: the processor's threshold, at least once
exactly if it has a detection that finds a track, its own second one if need be. -/
theorem addTracksLogged_snd (detections : List (TargetTrack K)) (p : FusionProcessor K)
    (hroom : 0 < p.trackCapacity) :
    (∀ x ∈ (addTracksLogged libm sensorId p detections).2, x = p.config.associationThreshold) ∧
      ((addTracksLogged libm sensorId p detections).2 ≠ [] ↔
        detections ≠ [] ∧ (p.trackCount ≠ 0 ∨ 2 ≤ detections.length)) := by
  induction detections generalizing p with
  | nil => exact ⟨fun x hx => absurd hx List.not_mem_nil, by simp [addTracksLogged]⟩
  | cons meas rest ih =>
    obtain ⟨hfirst, hempty⟩ := associateLogged_snd libm p meas
    have hcount := addDetection_trackCount libm sensorId p meas hroom
    obtain ⟨hrest, hsome⟩ := ih (addDetection libm sensorId p meas).1 (by
      rw [(addDetection_frame libm sensorId p meas).1]
      exact hroom)
    rw [addDetection_config] at hrest
    have hlog : (addTracksLogged libm sensorId p (meas :: rest)).2 =
        (associateLogged libm p meas).2 ++
          (addTracksLogged libm sensorId (addDetection libm sensorId p meas).1 rest).2 := by
      rw [← addDetectionLogged_fst]
      rfl
    rw [hlog]
    constructor
    · intro x hx
      rcases List.mem_append.mp hx with hx | hx
      · exact hfirst x hx
      · exact hrest x hx
    · rw [ne_eq, List.append_eq_nil_iff, not_and_or, hempty, ← ne_eq, ← ne_eq, hsome,
        and_iff_left (.inl hcount), List.length_cons, and_iff_right (List.cons_ne_nil _ _),
        ← List.length_pos_iff]
      omega

end AddTracks

/-! ## Deletion -/

/-- The test for deletion; `||` compares the confidence only if the age is not over
the limit. -/
def expiredLogged (config : FusionConfig K) (t : FusedTrack K) : Bool × List K :=
  if t.age > config.maxTrackAge then (true, []) else below t.confidence config.confidenceThreshold

def passLoopLogged (libm : Libm K) (env : PassEnv K) (i : Nat) (p : FusionProcessor K) :
    FusionProcessor K × List K :=
  if h : i < p.trackCount then
    let test := expiredLogged p.config (ageTrack env.now (p.track i h))
    let next := settleTrack libm env i p h test.1
    let others := passLoopLogged libm env next.1 next.2
    (others.1, test.2 ++ others.2)
  else (p, [])
termination_by p.trackCount - i
decreasing_by
  have := settleTrack_decreases libm env i p h
    (expiredLogged p.config (ageTrack env.now (p.track i h))).1
  omega

def fusionPassLogged (libm : Libm K) (env : PassEnv K) (p : FusionProcessor K) :
    FusionProcessor K × List K :=
  passLoopLogged libm env 0 p.clearOutput

section Pass

omit [Field K] in
theorem expiredLogged_fst (config : FusionConfig K) (t : FusedTrack K) :
    (expiredLogged config t).1 = expired config t := by
  unfold expiredLogged expired below
  split
  · next h => simp [h]
  · next h => simp [h]

omit [Field K] in
theorem mem_expiredLogged {config : FusionConfig K} {t : FusedTrack K} {x : K} :
    x ∈ (expiredLogged config t).2 ↔ t.age ≤ config.maxTrackAge ∧ x = config.confidenceThreshold := by
  unfold expiredLogged below
  split
  · next h => simp [not_le.mpr h]
  · next h => simp [not_lt.mp h]

variable (libm : Libm K) (env : PassEnv K)

/-- The loop is that of `fusion_processing_thread`, and its record is that of the
tracks it visits. -/
theorem passLoopLogged_eq (i : Nat) (p : FusionProcessor K) :
    passLoopLogged libm env i p = (passLoop libm env i p,
      (passVisits libm env i p).flatMap fun t =>
        (expiredLogged p.config (ageTrack env.now t)).2) := by
  induction i, p using passVisits.induct libm env with
  | case1 i p h ih =>
    have hbody : settleTrack libm env i p h
        (expiredLogged p.config (ageTrack env.now (p.track i h))).1 = passBody libm env i p h := by
      rw [expiredLogged_fst]
      rfl
    rw [passLoopLogged, dif_pos h, passLoop, dif_pos h, passVisits, dif_pos h, List.flatMap_cons]
    dsimp only
    rw [hbody, ih, (passBody_frame h).config]
  | case2 i p h =>
    rw [passLoopLogged, dif_neg h, passLoop, dif_neg h, passVisits, dif_neg h, List.flatMap_nil]

theorem fusionPassLogged_fst (p : FusionProcessor K) :
    (fusionPassLogged libm env p).1 = fusionPass libm env p := by
  rw [fusionPassLogged, passLoopLogged_eq]
  rfl

/-- **What a pass compares with**: the processor's threshold, for each live track
that is not too old. -/
theorem mem_fusionPassLogged (p : FusionProcessor K) {x : K} :
    x ∈ (fusionPassLogged libm env p).2 ↔
      (∃ t ∈ p.live, t.age + 1 ≤ p.config.maxTrackAge) ∧ x = p.config.confidenceThreshold := by
  have hvisits (t : FusedTrack K) : t ∈ passVisits libm env 0 p.clearOutput ↔ t ∈ p.live :=
    (fusionPass_exact libm env p).1.mem_iff
  have hconfig : p.clearOutput.config = p.config := rfl
  rw [fusionPassLogged, passLoopLogged_eq]
  simp only [List.mem_flatMap, mem_expiredLogged, ageTrack_age, hvisits, hconfig]
  constructor
  · rintro ⟨t, ht, hage, rfl⟩
    exact ⟨⟨t, ht, hage⟩, rfl⟩
  · rintro ⟨⟨t, ht, hage⟩, rfl⟩
    exact ⟨t, ht, hage, rfl⟩

end Pass

end Mec
