import Mec.Fusion.Runs

/-!
# Identities are permanent

A live track's record is moved between slots, aged and updated. `Becomes` says
which records a record can turn into; none of it touches `global_id`. Along a
run every live record descends from one that was live at the start or from one
a detection created on the way (`descends_of_run`), under an id that had not
been handed out before. Uniqueness of the live ids makes that a statement about
ids alone: a deleted one does not come back.
-/

namespace Mec

open Lib.Lts

variable {K : Type} [Field K] [LinearOrder K]

omit [Field K] [LinearOrder K] in
def FusionProcessor.ids (p : FusionProcessor K) : List Int := p.live.map FusedTrack.globalId

omit [Field K] [LinearOrder K] in
/-- The id a detection made the processor hand out. -/
def Touch.newId? : Touch K → Option Int
  | .created globalId _ _ => some globalId
  | _ => none

omit [Field K] [LinearOrder K] in
def newIds (T : List (Touch K)) : List Int := T.filterMap Touch.newId?

omit [Field K] [LinearOrder K] in
theorem newIds_append (T T' : List (Touch K)) : newIds (T ++ T') = newIds T ++ newIds T' :=
  List.filterMap_append

/-- The records a live record turns into. -/
inductive Becomes (libm : Libm K) : FusedTrack K → FusedTrack K → Prop where
  | refl (t : FusedTrack K) : Becomes libm t t
  | aged {s t : FusedTrack K} (now : Timeval) : Becomes libm s t → Becomes libm s (ageTrack now t)
  | absorbed {s t : FusedTrack K} (sensorId : Int) (meas : TargetTrack K) :
      Becomes libm s t → Becomes libm s (absorb libm sensorId t meas)

theorem Becomes.globalId {libm : Libm K} {s t : FusedTrack K} (h : Becomes libm s t) :
    t.globalId = s.globalId := by
  induction h with
  | refl => rfl
  | aged now _ ih => rw [ageTrack_globalId, ih]
  | absorbed sensorId meas _ ih => exact ih

/-- `t` goes back to a live record of `p`, or to one that a detection of `T`
created after `p` under a new id. -/
def Descends (libm : Libm K) (p : FusionProcessor K) (T : List (Touch K)) (t : FusedTrack K) :
    Prop :=
  (∃ s ∈ p.live, Becomes libm s t) ∨
    ∃ globalId meas old sensorId, Touch.created globalId meas old ∈ T ∧
      p.nextGlobalId ≤ globalId ∧ Becomes libm (newTrack libm old globalId meas sensorId) t

section Descends

variable {libm : Libm K} {p q : FusionProcessor K} {T T' : List (Touch K)} {t : FusedTrack K}

theorem Descends.aged (h : Descends libm p T t) (now : Timeval) :
    Descends libm p T (ageTrack now t) := by
  rcases h with ⟨s, hs, hb⟩ | ⟨globalId, meas, old, sensorId, hT, hid, hb⟩
  · exact .inl ⟨s, hs, hb.aged now⟩
  · exact .inr ⟨globalId, meas, old, sensorId, hT, hid, hb.aged now⟩

theorem Descends.absorbed (h : Descends libm p T t) (sensorId : Int) (meas : TargetTrack K) :
    Descends libm p T (absorb libm sensorId t meas) := by
  rcases h with ⟨s, hs, hb⟩ | ⟨globalId, meas', old, sensorId', hT, hid, hb⟩
  · exact .inl ⟨s, hs, hb.absorbed sensorId meas⟩
  · exact .inr ⟨globalId, meas', old, sensorId', hT, hid, hb.absorbed sensorId meas⟩

theorem Descends.mono (h : Descends libm p T t) (hT : T ⊆ T') : Descends libm p T' t := by
  rcases h with h | ⟨globalId, meas, old, sensorId, hmem, hid, hb⟩
  · exact .inl h
  · exact .inr ⟨globalId, meas, old, sensorId, hT hmem, hid, hb⟩

theorem Descends.of_lt (h : Descends libm p T t) (hlt : t.globalId < p.nextGlobalId) :
    ∃ s ∈ p.live, Becomes libm s t := by
  rcases h with h | ⟨globalId, meas, old, sensorId, -, hid, hb⟩
  · exact h
  · have heq : t.globalId = globalId := hb.globalId
    omega

/-- What a run from `p` keeps: the counter counts the ids handed out, and every
live record has its line. -/
structure Lineage (libm : Libm K) (p : FusionProcessor K) (T : List (Touch K))
    (q : FusionProcessor K) : Prop where
  next_eq : q.nextGlobalId = p.nextGlobalId + (newIds T).length
  descends : ∀ t ∈ q.live, Descends libm p T t

theorem Lineage.start (libm : Libm K) (p : FusionProcessor K) : Lineage libm p [] p where
  next_eq := by simp [newIds]
  descends t ht := .inl ⟨t, ht, .refl t⟩

theorem Lineage.add (h : Lineage libm p T q) (sensorId : Int) (meas : TargetTrack K) :
    Lineage libm p (T ++ [(addDetection libm sensorId q meas).2])
      (addDetection libm sensorId q meas).1 := by
  have hsub : T ⊆ T ++ [(addDetection libm sensorId q meas).2] := List.subset_append_left _ _
  rcases addDetection_cases libm sensorId q meas with
    ⟨j, t, hj, hev, hlive, hnext⟩ | ⟨old, hev, hlive, hnext⟩ | hdrop
  · refine ⟨?_, fun s hs => ?_⟩
    · rw [newIds_append, hnext, hev, h.next_eq]
      simp [newIds, Touch.newId?]
    · rw [hlive] at hs
      rcases List.mem_or_eq_of_mem_set hs with hs | rfl
      · exact (h.descends s hs).mono hsub
      · exact ((h.descends t (List.mem_of_getElem? hj)).absorbed sensorId meas).mono hsub
  · refine ⟨?_, fun s hs => ?_⟩
    · rw [newIds_append, hnext, hev, List.length_append, h.next_eq]
      simp only [newIds, Touch.newId?, List.filterMap_cons, List.filterMap_nil, List.length_cons,
        List.length_nil]
      omega
    · rw [hlive] at hs
      rcases List.mem_append.mp hs with hs | hs
      · exact (h.descends s hs).mono hsub
      · obtain rfl := List.mem_singleton.mp hs
        have hle : p.nextGlobalId ≤ q.nextGlobalId := by rw [h.next_eq]; omega
        refine .inr ⟨q.nextGlobalId, meas, old, sensorId, ?_, hle, .refl _⟩
        rw [hev]
        exact List.mem_append_right _ (List.mem_singleton_self _)
  · rw [hdrop]
    refine ⟨?_, fun s hs => (h.descends s hs).mono (List.subset_append_left _ _)⟩
    rw [newIds_append, h.next_eq]
    simp [newIds, Touch.newId?]

theorem Lineage.pass (h : Lineage libm p T q) (env : PassEnv K) :
    Lineage libm p T (fusionPass libm env q) where
  next_eq := by rw [(fusionPass_frame libm env q).nextGlobalId, h.next_eq]
  descends t ht := by
    obtain ⟨s, hs, rfl⟩ := mem_fusionPass ht
    exact (h.descends s hs).aged env.now

/-- **Lineage** along a run. -/
theorem lineage_of_run {tr : List (FusionAct K × List (Touch K))}
    (h : Run (fusionStep libm) p tr q) : Lineage libm p (touches tr) q :=
  fusionRun_invariant (I := fun T _ q => Lineage libm p T q)
    (fun sensorId _ _ _ meas hq => hq.add sensorId meas) (fun _ _ _ env hq => hq.pass env) h
    (T := []) (S := []) (.start libm p)

end Descends

section Identity

variable [IsStrictOrderedRing K] {libm : Libm K} {p q : FusionProcessor K}

omit [IsStrictOrderedRing K] in
theorem TableOk.eq_of_globalId (h : TableOk p) {s t : FusedTrack K} (hs : s ∈ p.live)
    (ht : t ∈ p.live) (hid : s.globalId = t.globalId) : s = t :=
  List.inj_on_of_nodup_map h.nodup hs ht hid

/-- **Ids identify tracks for ever.** Take any reachable processor and any way
to go on, with fewer than `2^31 - 1` tracks created in all. The live ids are
distinct and in `[1, next_global_id)`, which is the number of tracks created
plus one and fits an `int`. Later, a track is live under its id or its id is
gone; a live record continues one of the earlier live records or one created
since under a new id; an id that was handed out and is not live stays so. -/
theorem identity_permanent {config : FusionConfig K} {fresh : Fresh K}
    {tr tr' : List (FusionAct K × List (Touch K))}
    (h : Run (fusionStep libm) (fusionProcessorCreate config fresh) tr p)
    (h' : Run (fusionStep libm) p tr' q)
    (hfew : (newIds (touches (tr ++ tr'))).length < 2 ^ 31 - 1) :
    p.trackCount ≤ p.trackCapacity ∧ p.ids.Nodup ∧
      (∀ id ∈ p.ids, 1 ≤ id ∧ id < p.nextGlobalId) ∧
      p.nextGlobalId = (newIds (touches tr)).length + 1 ∧ p.nextGlobalId ≤ 2 ^ 31 - 1 ∧
      (∀ t ∈ p.live, (∃ t' ∈ q.live, Becomes libm t t' ∧ t'.globalId = t.globalId) ∨
        t.globalId ∉ q.ids) ∧
      (∀ t' ∈ q.live, (∃ t ∈ p.live, Becomes libm t t' ∧ t.globalId = t'.globalId) ∨
        (∃ meas old, Touch.created t'.globalId meas old ∈ touches tr' ∧
          p.nextGlobalId ≤ t'.globalId)) ∧
      ∀ id < p.nextGlobalId, id ∉ p.ids → id ∉ q.ids := by
  have hok := tableOk_of_run h
  have hfirst := lineage_of_run h
  have hlater := lineage_of_run h'
  have hnext : p.nextGlobalId = (newIds (touches tr)).length + 1 := by
    rw [hfirst.next_eq]
    show (1 : Int) + _ = _
    omega
  have hcount : (newIds (touches tr)).length < 2 ^ 31 - 1 := by
    rw [touches, List.flatMap_append, newIds_append, List.length_append] at hfew
    rw [touches]
    omega
  -- an id of `p` that is live in `q` is live there as what its record became
  have hkeep : ∀ id < p.nextGlobalId, id ∈ q.ids →
      ∃ t ∈ p.live, ∃ t' ∈ q.live, Becomes libm t t' ∧ t.globalId = id := by
    intro id hlt hid
    obtain ⟨t', ht', rfl⟩ := List.mem_map.mp hid
    obtain ⟨t, ht, hb⟩ := (hlater.descends t' ht').of_lt hlt
    exact ⟨t, ht, t', ht', hb, hb.globalId.symm⟩
  refine ⟨p.count_le, hok.nodup, fun id hid => ?_, hnext, by omega, fun t ht => ?_,
    fun t' ht' => ?_, fun id hlt hgone hid => ?_⟩
  · obtain ⟨t, ht, rfl⟩ := List.mem_map.mp hid
    refine ⟨?_, hok.lt_next t ht⟩
    rcases hfirst.descends t ht with ⟨s, hs, -⟩ | ⟨globalId, meas, old, sensorId, -, hle, hb⟩
    · exact absurd hs List.not_mem_nil
    · have heq : t.globalId = globalId := hb.globalId
      rw [heq]
      exact hle
  · by_cases hid : t.globalId ∈ q.ids
    · obtain ⟨s, hs, t', ht', hb, heq⟩ := hkeep _ (hok.lt_next t ht) hid
      obtain rfl := hok.eq_of_globalId hs ht heq
      exact .inl ⟨t', ht', hb, hb.globalId⟩
    · exact .inr hid
  · rcases hlater.descends t' ht' with ⟨t, ht, hb⟩ | ⟨globalId, meas, old, sensorId, hT, hle, hb⟩
    · exact .inl ⟨t, ht, hb, hb.globalId.symm⟩
    · obtain rfl : t'.globalId = globalId := hb.globalId
      exact .inr ⟨meas, old, hT, hle⟩
  · obtain ⟨t, ht, -, -, -, rfl⟩ := hkeep id hlt hid
    exact hgone (List.mem_map_of_mem ht)

def forgetful : FusionProcessor ℚ :=
  fusionProcessorCreate { defaultConfig with maxTrackAge := 1 } (some fun _ => rollingCar ⟨0, 0⟩)

def passAt (second : Int) : FusionAct ℚ :=
  .pass ⟨⟨second, 0⟩, fun _ => rollingCar ⟨0, 0⟩, fun _ => none⟩

def lostAndBack : List (FusionAct ℚ) :=
  [passAt 101, .addTracks (oneCar ⟨101, 0⟩) 1, passAt 102, .addTracks (carPair ⟨102, 0⟩) 1]

theorem identity_permanent_lost :
    let p := (play (fusionStep .rat) forgetful [.addTracks (carPair ⟨100, 0⟩) 1]).2
    let q := (play (fusionStep .rat) p lostAndBack).2
    p.ids = [1, 2] ∧ q.ids = [1, 3] ∧ p.ids.Nodup ∧
      (∀ t ∈ p.live, (∃ t' ∈ q.live, Becomes .rat t t' ∧ t'.globalId = t.globalId) ∨
        t.globalId ∉ q.ids) ∧ ∀ id < p.nextGlobalId, id ∉ p.ids → id ∉ q.ids := by
  have h := identity_permanent
    (run_play (fusionStep .rat) forgetful [.addTracks (carPair ⟨100, 0⟩) 1])
    (run_play (fusionStep .rat) _ lostAndBack) (by decide +kernel)
  exact ⟨by decide +kernel, by decide +kernel, h.2.1, h.2.2.2.2.2.1, h.2.2.2.2.2.2.2⟩

end Identity

end Mec
