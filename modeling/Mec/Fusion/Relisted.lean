import Mec.Fusion.Associate

/-!
# The order of the detections in a list

`fusion_processor_add_tracks` goes through a list front to back, and each
detection meets the tracks as the ones before it left them. Where every
detection of the list is nearest to a track of its own, whether or not the other
tracks have absorbed theirs yet, that order makes no difference: the calls come
to one and the same processor (`Unambiguous.perm`). So runs that differ only in
how such lists are ordered end alike (`relisted_same`).
-/

namespace Mec

open Lib.Lts

variable {K : Type} [Field K] [LinearOrder K]

/-- `own` gives every detection a track that is nearer to it than the threshold and than
any other track, be that as it is or after its own detection. No two get the same. -/
structure Unambiguous (libm : Libm K) (sensorId : Int) (own : TargetTrack K → Nat)
    (p : FusionProcessor K) (dets : List (TargetTrack K)) : Prop where
  nodup : (dets.map own).Nodup
  nearest : ∀ d ∈ dets, ∃ t, p.live[own d]? = some t ∧
    calculateTrackDistance libm t d < p.config.associationThreshold ∧
    ∀ k s, p.live[k]? = some s → k ≠ own d →
      calculateTrackDistance libm t d < calculateTrackDistance libm s d ∧
      ∀ d' ∈ dets, own d' = k →
        calculateTrackDistance libm t d < calculateTrackDistance libm (absorb libm sensorId s d') d

/-- The table after the outer loop. -/
abbrev addAll (libm : Libm K) (sensorId : Int) (p : FusionProcessor K)
    (dets : List (TargetTrack K)) : FusionProcessor K :=
  dets.foldl (fun p meas => (addDetection libm sensorId p meas).1) p

section Call

variable {libm : Libm K} {sensorId : Int} {own : TargetTrack K → Nat} {p : FusionProcessor K}
  {d e : TargetTrack K} {dets dets' : List (TargetTrack K)}

theorem Unambiguous.of_perm (h : Unambiguous libm sensorId own p dets) (hperm : dets.Perm dets') :
    Unambiguous libm sensorId own p dets' where
  nodup := (hperm.map own).nodup_iff.mp h.nodup
  nearest d hd := by
    obtain ⟨t, ht, hnear, hother⟩ := h.nearest d (hperm.mem_iff.mpr hd)
    exact ⟨t, ht, hnear, fun k s hs hk =>
      ⟨(hother k s hs hk).1, fun d' hd' => (hother k s hs hk).2 d' (hperm.mem_iff.mpr hd')⟩⟩

theorem Unambiguous.head (h : Unambiguous libm sensorId own p (d :: dets)) :
    ∃ t, p.live[own d]? = some t ∧
      (addDetection libm sensorId p d).1 = p.setTrack (own d) (absorb libm sensorId t d) := by
  obtain ⟨t, ht, hnear, hother⟩ := h.nearest d List.mem_cons_self
  refine ⟨t, ht, addDetection_absorbed sensorId ⟨ht, hnear, ?_, ?_⟩⟩
  · exact fun k s hs hk => (hother k s hs hk.ne).1
  · exact fun k s hs hk => (hother k s hs hk.ne').1.le

theorem Unambiguous.tail (h : Unambiguous libm sensorId own p (d :: dets)) :
    Unambiguous libm sensorId own (addDetection libm sensorId p d).1 dets := by
  obtain ⟨t, ht, hadd⟩ := h.head
  obtain ⟨hfresh, hnodup⟩ := List.nodup_cons.mp (List.map_cons ▸ h.nodup)
  have hne : ∀ d' ∈ dets, own d' ≠ own d := fun d' hd' heq =>
    hfresh (heq ▸ List.mem_map_of_mem hd')
  rw [hadd]
  refine ⟨hnodup, fun d' hd' => ?_⟩
  obtain ⟨t', ht', hnear, hother⟩ := h.nearest d' (List.mem_cons_of_mem d hd')
  refine ⟨t', ?_, hnear, fun k s hs hk => ?_⟩
  · rw [FusionProcessor.setTrack_live, List.getElem?_set_ne (hne d' hd').symm]
    exact ht'
  · rw [FusionProcessor.setTrack_live] at hs
    by_cases hkd : own d = k
    · -- the track that has just absorbed its detection
      subst hkd
      rw [List.getElem?_set_self (List.getElem?_eq_some_iff.mp ht).1] at hs
      cases hs
      exact ⟨(hother _ t ht hk).2 d List.mem_cons_self rfl,
        fun d'' hd'' heq => absurd heq (hne d'' hd'')⟩
    · rw [List.getElem?_set_ne hkd] at hs
      exact ⟨(hother k s hs hk).1,
        fun d'' hd'' => (hother k s hs hk).2 d'' (List.mem_cons_of_mem d hd'')⟩

omit [Field K] [LinearOrder K] in
theorem setTrack_comm (p : FusionProcessor K) {j k : Nat} (hjk : j ≠ k) (t s : FusedTrack K) :
    (p.setTrack j t).setTrack k s = (p.setTrack k s).setTrack j t := by
  unfold FusionProcessor.setTrack
  simp only [FusionProcessor.mk.injEq, and_true, true_and]
  exact List.set_comm t s hjk

/-- Two neighbours in the list may change places. -/
theorem Unambiguous.swap (h : Unambiguous libm sensorId own p (d :: e :: dets)) :
    (addDetection libm sensorId (addDetection libm sensorId p d).1 e).1 =
      (addDetection libm sensorId (addDetection libm sensorId p e).1 d).1 := by
  have h' := h.of_perm (.swap e d dets)
  obtain ⟨t, ht, hd⟩ := h.head
  obtain ⟨s, hs, he⟩ := h'.head
  obtain ⟨s', hs', hde⟩ := h.tail.head
  obtain ⟨t', ht', hed⟩ := h'.tail.head
  have hne : own d ≠ own e := by
    have hnodup := h.nodup
    simp only [List.map_cons, List.nodup_cons, List.mem_cons, not_or] at hnodup
    exact hnodup.1.1
  rw [hd, FusionProcessor.setTrack_live, List.getElem?_set_ne hne, hs] at hs'
  rw [he, FusionProcessor.setTrack_live, List.getElem?_set_ne hne.symm, ht] at ht'
  cases hs'
  cases ht'
  rw [hde, hed, hd, he]
  exact setTrack_comm p hne _ _

/-- **Any order.** -/
theorem Unambiguous.perm (h : Unambiguous libm sensorId own p dets) (hperm : dets.Perm dets') :
    addAll libm sensorId p dets = addAll libm sensorId p dets' := by
  induction hperm generalizing p with
  | nil => rfl
  | cons d _ ih => exact ih h.tail
  | swap d e dets => exact congrArg (addAll libm sensorId · dets) h.swap
  | trans hperm _ ih ih' => exact (ih h).trans (ih' (h.of_perm hperm))

/-- Every track has absorbed its own detection, and those without one are untouched. -/
theorem Unambiguous.placed (h : Unambiguous libm sensorId own p dets) :
    (∀ d ∈ dets, ∀ t, p.live[own d]? = some t →
      (addAll libm sensorId p dets).live[own d]? = some (absorb libm sensorId t d)) ∧
    ∀ k, (∀ d ∈ dets, own d ≠ k) → (addAll libm sensorId p dets).live[k]? = p.live[k]? := by
  induction dets generalizing p with
  | nil => exact ⟨fun d hd => absurd hd List.not_mem_nil, fun _ _ => rfl⟩
  | cons d dets ih =>
    obtain ⟨t, ht, hadd⟩ := h.head
    obtain ⟨hplaced, hothers⟩ := ih h.tail
    obtain ⟨hfresh, -⟩ := List.nodup_cons.mp (List.map_cons ▸ h.nodup)
    have hne : ∀ d' ∈ dets, own d' ≠ own d := fun d' hd' heq =>
      hfresh (heq ▸ List.mem_map_of_mem hd')
    have hlt := (List.getElem?_eq_some_iff.mp ht).1
    constructor
    · intro d' hd' t' ht'
      rcases List.mem_cons.mp hd' with rfl | hd'
      · cases ht.symm.trans ht'
        show (addAll libm sensorId (addDetection libm sensorId p d').1 dets).live[own d']? = _
        rw [hothers (own d') hne, hadd, FusionProcessor.setTrack_live, List.getElem?_set_self hlt]
      · refine hplaced d' hd' t' ?_
        rw [hadd, FusionProcessor.setTrack_live, List.getElem?_set_ne (hne d' hd').symm]
        exact ht'
    · intro k hk
      show (addAll libm sensorId (addDetection libm sensorId p d).1 dets).live[k]? = _
      rw [hothers k fun d' hd' => hk d' (List.mem_cons_of_mem d hd'), hadd,
        FusionProcessor.setTrack_live, List.getElem?_set_ne (hk d List.mem_cons_self)]

end Call

/-! ## Runs -/

/-- From `p` on, the same passes and the same lists, each unambiguous when it comes,
their detections in any order. -/
inductive Relisted (libm : Libm K) :
    FusionProcessor K → List (FusionAct K) → List (FusionAct K) → Prop where
  | nil (p : FusionProcessor K) : Relisted libm p [] []
  | pass {p : FusionProcessor K} {as bs : List (FusionAct K)} (env : PassEnv K) :
      Relisted libm (fusionPass libm env p) as bs →
      Relisted libm p (.pass env :: as) (.pass env :: bs)
  | addTracks {p : FusionProcessor K} {as bs : List (FusionAct K)} {tracks tracks' : TrackList K}
      {sensorId : Int} {own : TargetTrack K → Nat} :
      Unambiguous libm sensorId own p tracks.contents →
      tracks.contents.Perm tracks'.contents →
      Relisted libm (fusionProcessorAddTracks libm p tracks sensorId).2 as bs →
      Relisted libm p (.addTracks tracks sensorId :: as) (.addTracks tracks' sensorId :: bs)

/-- **The order in a list does not matter.** Two runs with the same passes and the same
lists, the detections of each list in any order, end in the same processor if every
list is unambiguous when it comes. -/
theorem relisted_same {libm : Libm K} {p : FusionProcessor K} {as bs : List (FusionAct K)}
    (h : Relisted libm p as bs) :
    (play (fusionStep libm) p as).2 = (play (fusionStep libm) p bs).2 := by
  induction h with
  | nil p => rfl
  | pass env _ ih => exact ih
  | @addTracks p as bs tracks tracks' sensorId own hun hperm _ ih =>
    have hsame : (fusionProcessorAddTracks libm p tracks sensorId).2 =
        (fusionProcessorAddTracks libm p tracks' sensorId).2 := hun.perm hperm
    show (play (fusionStep libm) (fusionProcessorAddTracks libm p tracks sensorId).2 as).2 =
      (play (fusionStep libm) (fusionProcessorAddTracks libm p tracks' sensorId).2 bs).2
    rw [ih, hsame]

/-! ## Two cars -/

def distantCar : TargetTrack ℚ := { rollingCar ⟨100, 0⟩ with position := ⟨100, 100, 0⟩ }

def carTrack (globalId : Int) (meas : TargetTrack ℚ) : FusedTrack ℚ :=
  newTrack .rat .zero globalId meas 1

def apartCars : FusionProcessor ℚ where
  config := defaultConfig
  tracks := [carTrack 1 (rollingCar ⟨100, 0⟩), carTrack 2 distantCar]
  trackCount := 2
  trackCapacity := 2
  nextGlobalId := 3
  outputTracks := none
  tracks_length := rfl
  count_le := le_rfl
  output_capacity o ho := absurd ho (Option.not_mem_none o)

def bothCars (dets : List (TargetTrack ℚ)) : TrackList ℚ where
  tracks := dets
  count := dets.length
  capacity := dets.length
  refCount := 1
  tracks_length := rfl
  count_le := le_rfl

/-- The first slot for what is at the origin. -/
def ownCar (d : TargetTrack ℚ) : Nat := if d.position.longitude = 0 then 0 else 1

theorem apartCars_live {k : Nat} {s : FusedTrack ℚ} (hs : apartCars.live[k]? = some s) :
    (k = 0 ∧ s = carTrack 1 (rollingCar ⟨100, 0⟩)) ∨ (k = 1 ∧ s = carTrack 2 distantCar) := by
  replace hs : [carTrack 1 (rollingCar ⟨100, 0⟩), carTrack 2 distantCar][k]? = some s := hs
  rcases k with _ | _ | k
  · exact .inl ⟨rfl, (Option.some.inj hs).symm⟩
  · exact .inr ⟨rfl, (Option.some.inj hs).symm⟩
  · cases hs

theorem apartCars_unambiguous :
    Unambiguous .rat 1 ownCar apartCars [rollingCar ⟨100, 0⟩, distantCar] where
  nodup := by decide +kernel
  nearest := by
    simp only [List.forall_mem_cons, List.not_mem_nil, false_implies, implies_true, and_true]
    constructor
    · refine ⟨_, rfl, by decide +kernel, fun k s hs hk => ?_⟩
      obtain ⟨rfl, rfl⟩ | ⟨rfl, rfl⟩ := apartCars_live hs
      · exact absurd rfl hk
      · exact ⟨by decide +kernel, by decide +kernel, by decide +kernel⟩
    · refine ⟨_, rfl, by decide +kernel, fun k s hs hk => ?_⟩
      obtain ⟨rfl, rfl⟩ | ⟨rfl, rfl⟩ := apartCars_live hs
      · exact ⟨by decide +kernel, by decide +kernel, by decide +kernel⟩
      · exact absurd rfl hk

theorem relisted_same_apartCars :
    (play (fusionStep .rat) apartCars
      [.addTracks (bothCars [rollingCar ⟨100, 0⟩, distantCar]) 1]).2 =
    (play (fusionStep .rat) apartCars
      [.addTracks (bothCars [distantCar, rollingCar ⟨100, 0⟩]) 1]).2 :=
  relisted_same (.addTracks apartCars_unambiguous (.swap _ _ _) (.nil _))

end Mec
