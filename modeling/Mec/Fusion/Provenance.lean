import Mec.Fusion.History

/-!
# Sensor provenance

`sensor_mask` of a live track has the bit of exactly those sensors that
delivered one of its detections. The creation path assigns the mask, so the
slot's former occupant leaves nothing in it, and a moved record takes its mask
along.
-/

namespace Mec

open Lib.Lts

/-- The bit of a sensor, for the ids the shift is defined at. -/
theorem sensorBit_getLsbD {s sensorId : Int} (hs : 1 ≤ s) (h1 : 1 ≤ sensorId)
    (h31 : sensorId ≤ 31) : (sensorBit sensorId).getLsbD (s - 1).toNat ↔ s = sensorId := by
  unfold sensorBit
  rw [BitVec.getLsbD_shiftLeft, BitVec.getLsbD_one]
  simp only [Bool.and_eq_true, Bool.not_eq_true', decide_eq_true_iff, decide_eq_false_iff_not]
  omega

variable {K : Type} [Field K] [LinearOrder K]

/-- The mask of `t` tells the sensors of its detections, provided every sensor
so far has an id the mask has a bit for. -/
def Tagged (H : List (FusionEvent K)) (t : FusedTrack K) : Prop :=
  (∀ sensorId touch, .detection sensorId touch ∈ H → 1 ≤ sensorId ∧ sensorId ≤ 31) →
    ∀ s : Int, 1 ≤ s →
      (t.sensorMask.getLsbD (s - 1).toNat ↔ ∃ meas, (s, meas) ∈ detections t.globalId H)

theorem tagged_rule (libm : Libm K) (config : FusionConfig K) :
    TrackRule libm config Tagged where
  created H sensorId globalId meas old hfresh hids s hs := by
    have habout : (Touch.created globalId meas old).about globalId := beq_self_eq_true _
    have hid := hids _ _ (List.mem_append_right H (List.mem_singleton_self _))
    have hbit : (newTrack libm old globalId meas sensorId).sensorMask.getLsbD (s - 1).toNat ↔
        s = sensorId := sensorBit_getLsbD hs hid.1 hid.2
    have hdet : detections (newTrack libm old globalId meas sensorId).globalId
        (H ++ [.detection sensorId (.created globalId meas old)]) = [(sensorId, meas)] := by
      show detections globalId _ = _
      rw [detections_about habout, detections_eq_nil hfresh]
      rfl
    rw [hbit, hdet]
    constructor
    · rintro rfl
      exact ⟨meas, List.mem_singleton_self _⟩
    · rintro ⟨m, hm⟩
      exact congrArg Prod.fst (List.mem_singleton.mp hm)
  absorbed H sensorId t meas h hids s hs := by
    have habout : (Touch.absorbed t.globalId meas).about t.globalId := beq_self_eq_true _
    have hid := hids _ _ (List.mem_append_right H (List.mem_singleton_self _))
    have hold := h (fun i touch hmem => hids i touch (List.mem_append_left _ hmem)) s hs
    have hbit : (absorb libm sensorId t meas).sensorMask.getLsbD (s - 1).toNat ↔
        t.sensorMask.getLsbD (s - 1).toNat ∨ s = sensorId := by
      show (t.sensorMask ||| sensorBit sensorId).getLsbD (s - 1).toNat ↔ _
      rw [BitVec.getLsbD_or, Bool.or_eq_true, sensorBit_getLsbD hs hid.1 hid.2]
    have hdet : detections (absorb libm sensorId t meas).globalId
        (H ++ [.detection sensorId (.absorbed t.globalId meas)]) =
          detections t.globalId H ++ [(sensorId, meas)] := detections_about habout
    rw [hbit, hdet, hold]
    constructor
    · rintro (⟨m, hm⟩ | rfl)
      · exact ⟨m, List.mem_append_left _ hm⟩
      · exact ⟨meas, List.mem_append_right _ (List.mem_singleton_self _)⟩
    · rintro ⟨m, hm⟩
      rcases List.mem_append.mp hm with hm | hm
      · exact .inl ⟨m, hm⟩
      · exact .inr (congrArg Prod.fst (List.mem_singleton.mp hm))
  aged H now t h _ hids s hs := by
    rw [ageTrack_sensorMask, ageTrack_globalId, detections_pass]
    exact h (fun i touch hmem => hids i touch (List.mem_append_left _ hmem)) s hs
  other H sensorId touch t h habout hids s hs := by
    rw [detections_other habout]
    exact h (fun i touch hmem => hids i touch (List.mem_append_left _ hmem)) s hs

omit [Field K] [LinearOrder K] in
theorem sensors_of_history {tr : List (FusionAct K × List (Touch K))}
    (hids : ∀ tracks sensorId T, (.addTracks tracks sensorId, T) ∈ tr →
      1 ≤ sensorId ∧ sensorId ≤ 31)
    (sensorId : Int) (touch : Touch K) (hmem : .detection sensorId touch ∈ history tr) :
    1 ≤ sensorId ∧ sensorId ≤ 31 := by
  obtain ⟨⟨a, T⟩, ha, hev⟩ := List.mem_flatMap.mp hmem
  cases a with
  | addTracks tracks i =>
    obtain ⟨touch', -, heq⟩ := List.mem_map.mp hev
    cases heq
    exact hids tracks sensorId T ha
  | pass env => cases List.mem_singleton.mp hev

/-- **Provenance.** In every run whose calls carry sensor ids in `[1, 31]`, bit
`s - 1` of a live track's mask is set exactly if a detection delivered with
sensor id `s` created or was absorbed by the track of that global id. -/
theorem sensorMask_provenance [IsStrictOrderedRing K] {libm : Libm K} {config : FusionConfig K}
    {fresh : Fresh K} {p : FusionProcessor K} {tr : List (FusionAct K × List (Touch K))}
    (h : Run (fusionStep libm) (fusionProcessorCreate config fresh) tr p)
    (hids : ∀ tracks sensorId T, (.addTracks tracks sensorId, T) ∈ tr →
      1 ≤ sensorId ∧ sensorId ≤ 31)
    {t : FusedTrack K} (ht : t ∈ p.live) (s : Int) (hs : 1 ≤ s) :
    t.sensorMask.getLsbD (s - 1).toNat ↔
      ∃ meas, (s, meas) ∈ detections t.globalId (history tr) :=
  ((tagged_rule libm config).of_run h).tracks t ht (sensors_of_history hids) s hs

theorem sensorMask_provenance_car :
    newCar.sensorMask.getLsbD ((1 : Int) - 1).toNat ↔
      ∃ meas, ((1 : Int), meas) ∈ detections newCar.globalId
        (history [(.addTracks (oneCar ⟨100, 0⟩) 1, [.created 1 (rollingCar ⟨100, 0⟩) .zero])]) :=
  sensorMask_provenance carSeen_run
    (by
      intro tracks sensorId T hmem
      cases List.mem_singleton.mp hmem
      decide)
    (by
      rw [carSeen_live]
      exact List.mem_singleton_self _)
    1 (le_refl 1)

end Mec
