import Mec.Fusion.Runs

/-!
# Timestamps of fused tracks

Which time a live track carries. `update_fused_track` writes both timestamps;
the creation path of `fusion_processor_add_tracks` writes only the filter's and
leaves `last_update` as the slot's former occupant had it. So a track carries
the time of its latest detection exactly from its first absorption on, or when
the occupant's time happens to be the same.
-/

namespace Mec

open Lib.Lts

variable {K : Type}

namespace Touch

def meas : Touch K → TargetTrack K
  | absorbed _ meas => meas
  | created _ meas _ => meas
  | dropped meas => meas

/-- Created or updated the track `id`. -/
def about (id : Int) : Touch K → Bool
  | absorbed i _ => i == id
  | created i _ _ => i == id
  | dropped _ => false

/-- What `last_update` holds afterwards. -/
def stamp : Touch K → Timeval
  | absorbed _ meas => meas.timestamp
  | created _ _ old => old.lastUpdate
  | dropped meas => meas.timestamp

end Touch

/-- The detection that most recently created or updated the track `id`. -/
def latest (id : Int) (T : List (Touch K)) : Option (Touch K) :=
  (T.filter (Touch.about id)).getLast?

theorem latest_concat (id : Int) (T : List (Touch K)) (e : Touch K) :
    latest id (T ++ [e]) = if e.about id then some e else latest id T := by
  unfold latest
  rw [List.filter_append]
  split
  · next h => rw [List.filter_cons_of_pos h, List.filter_nil, List.getLast?_concat]
  · next h => rw [List.filter_cons_of_neg h, List.filter_nil, List.append_nil]

variable [Field K] [LinearOrder K]

/-- Each live track's timestamps, by its latest detection. -/
def Stamped (T : List (Touch K)) (p : FusionProcessor K) : Prop :=
  ∀ t ∈ p.live, ∃ touch, latest t.globalId T = some touch ∧ t.lastUpdate = touch.stamp ∧
    t.filterState.lastUpdate = touch.meas.timestamp

section Stamped

variable [IsStrictOrderedRing K] {libm : Libm K} {T : List (Touch K)} {p : FusionProcessor K}

omit [IsStrictOrderedRing K] in
theorem TableOk.index_unique (h : TableOk p) {j k : Nat} {t s : FusedTrack K}
    (hj : p.live[j]? = some t) (hk : p.live[k]? = some s) (hid : t.globalId = s.globalId) :
    j = k := by
  refine (List.getElem?_inj ?_ h.nodup).mp ?_
  · rw [List.length_map]
    exact (List.getElem?_eq_some_iff.mp hj).1
  · rw [List.getElem?_map, List.getElem?_map, hj, hk]
    exact congrArg some hid

omit [IsStrictOrderedRing K] in
/-- What `addDetection` leaves in the table: the track it concerns, under the
id of its report, and the others as they were. -/
theorem TableOk.add_cases (h : TableOk p) (sensorId : Int) (meas : TargetTrack K)
    {s : FusedTrack K} (hs : s ∈ (addDetection libm sensorId p meas).1.live) :
    (s ∈ p.live ∧ ¬(addDetection libm sensorId p meas).2.about s.globalId) ∨
    (∃ t ∈ p.live, (addDetection libm sensorId p meas).2 = .absorbed t.globalId meas ∧
      s = absorb libm sensorId t meas) ∨
    ∃ old, (addDetection libm sensorId p meas).2 = .created p.nextGlobalId meas old ∧
      s = newTrack libm old p.nextGlobalId meas sensorId := by
  rcases addDetection_cases libm sensorId p meas with
    ⟨j, t, hj, hev, hlive, -⟩ | ⟨old, hev, hlive, -⟩ | hdrop
  · rw [hlive] at hs
    obtain ⟨k, hk⟩ := List.mem_iff_getElem?.mp hs
    by_cases hjk : j = k
    · subst hjk
      rw [List.getElem?_set_self (List.getElem?_eq_some_iff.mp hj).1] at hk
      obtain rfl := Option.some.inj hk
      exact .inr (.inl ⟨t, List.mem_of_getElem? hj, hev, rfl⟩)
    · rw [List.getElem?_set_ne hjk] at hk
      refine .inl ⟨List.mem_of_getElem? hk, fun habout => hjk (h.index_unique hj hk ?_)⟩
      rw [hev] at habout
      exact eq_of_beq habout
  · rw [hlive] at hs
    rcases List.mem_append.mp hs with hs | hs
    · refine .inl ⟨hs, fun habout => (h.lt_next s hs).ne ?_⟩
      rw [hev] at habout
      exact (eq_of_beq habout).symm
    · exact .inr (.inr ⟨old, hev, List.mem_singleton.mp hs⟩)
  · rw [hdrop] at hs ⊢
    exact .inl ⟨hs, Bool.false_ne_true⟩

theorem Stamped.add (h : Stamped T p) (hok : TableOk p) (sensorId : Int) (meas : TargetTrack K) :
    Stamped (T ++ [(addDetection libm sensorId p meas).2])
      (addDetection libm sensorId p meas).1 := by
  intro s hs
  rw [latest_concat]
  rcases hok.add_cases sensorId meas hs with ⟨hs, habout⟩ | ⟨t, ht, hev, rfl⟩ | ⟨old, hev, rfl⟩
  · rw [if_neg habout]
    exact h s hs
  · rw [hev]
    obtain ⟨-, -, htime, -⟩ := updateKalmanFilter_spec libm (hok.filters t ht) meas
    exact ⟨_, if_pos (beq_self_eq_true _), rfl, htime⟩
  · rw [hev]
    exact ⟨_, if_pos (beq_self_eq_true _), rfl, rfl⟩

omit [IsStrictOrderedRing K] in
theorem Stamped.pass (h : Stamped T p) (env : PassEnv K) : Stamped T (fusionPass libm env p) := by
  intro t ht
  obtain ⟨s, hs, rfl⟩ := mem_fusionPass ht
  rw [ageTrack_globalId, ageTrack_lastUpdate, ageTrack_filter_lastUpdate]
  exact h s hs

theorem stamped_of_run {config : FusionConfig K} {fresh : Fresh K}
    {tr : List (FusionAct K × List (Touch K))}
    (h : Run (fusionStep libm) (fusionProcessorCreate config fresh) tr p) :
    Stamped (touches tr) p := by
  have hrun := fusionRun_invariant (I := fun T _ p => TableOk p ∧ Stamped T p)
    (fun sensorId _ _ _ meas hp => ⟨hp.1.add sensorId meas, hp.2.add hp.1 sensorId meas⟩)
    (fun _ _ _ env hp => ⟨hp.1.pass env, hp.2.pass env⟩) h (T := []) (S := [])
    ⟨tableOk_create config fresh, fun t ht => absurd ht List.not_mem_nil⟩
  exact hrun.2

/-- **When a track's times are those of its data.** In every reachable state a
live track has a latest detection, and both its timestamps are that
detection's exactly if the track absorbed it, or was created by it in a slot
whose record already carried that time. A new record depends on the slot's
former occupant through that one field. -/
theorem timestamps_current_iff {config : FusionConfig K} {fresh : Fresh K}
    {tr : List (FusionAct K × List (Touch K))}
    (h : Run (fusionStep libm) (fusionProcessorCreate config fresh) tr p) :
    (∀ t ∈ p.live, ∃ touch, latest t.globalId (touches tr) = some touch ∧
      ((t.lastUpdate = touch.meas.timestamp ∧
          t.filterState.lastUpdate = touch.meas.timestamp) ↔
        (∃ meas, touch = .absorbed t.globalId meas) ∨
          ∃ meas old, touch = .created t.globalId meas old ∧
            old.lastUpdate = meas.timestamp)) ∧
      ∀ (old old' : FusedTrack K) (globalId : Int) (meas : TargetTrack K) (sensorId : Int),
        newTrack libm old globalId meas sensorId = newTrack libm old' globalId meas sensorId ↔
          old.lastUpdate = old'.lastUpdate := by
  refine ⟨fun t ht => ?_, fun old old' globalId meas sensorId => ?_⟩
  · obtain ⟨touch, hlatest, hstamp, hfilter⟩ := stamped_of_run h t ht
    refine ⟨touch, hlatest, ?_⟩
    have habout : touch.about t.globalId :=
      (List.mem_filter.mp (List.mem_of_getLast? hlatest)).2
    rw [hstamp, and_iff_left hfilter]
    cases touch with
    | absorbed i meas =>
      obtain rfl : i = t.globalId := eq_of_beq habout
      exact ⟨fun _ => .inl ⟨meas, rfl⟩, fun _ => rfl⟩
    | created i meas old =>
      obtain rfl : i = t.globalId := eq_of_beq habout
      constructor
      · exact fun hold => .inr ⟨meas, old, rfl, hold⟩
      · rintro (⟨_, hc⟩ | ⟨_, _, hc, hold⟩)
        · cases hc
        · cases hc
          exact hold
    | dropped meas => cases habout
  · constructor
    · intro heq
      have hlast := congrArg FusedTrack.lastUpdate heq
      exact hlast
    · intro hold
      simp only [newTrack, initializeKalmanFilter, hold]

end Stamped

theorem timestamps_current_iff_new_car :
    ∃ touch, latest newCar.globalId [.created 1 (rollingCar ⟨100, 0⟩) .zero] = some touch ∧
      ((newCar.lastUpdate = touch.meas.timestamp ∧
          newCar.filterState.lastUpdate = touch.meas.timestamp) ↔
        (∃ meas, touch = .absorbed newCar.globalId meas) ∨
          ∃ meas old, touch = .created newCar.globalId meas old ∧
            old.lastUpdate = meas.timestamp) :=
  (timestamps_current_iff carSeen_run).1 newCar (by
    rw [carSeen_live]
    exact List.mem_singleton_self _)

/-- A new track in a fresh slot is stamped 0, whatever its detection says. -/
theorem new_car_unstamped :
    ¬∀ (tr : List (FusionAct ℚ × List (Touch ℚ))) (p : FusionProcessor ℚ),
      Run (fusionStep .rat) emptyProcessor tr p → ∀ t ∈ p.live, ∀ touch,
        latest t.globalId (touches tr) = some touch →
          t.lastUpdate = touch.meas.timestamp ∧
            t.filterState.lastUpdate = touch.meas.timestamp := by
  intro h
  have hcar : newCar ∈ carSeen.live := by rw [carSeen_live]; exact List.mem_singleton_self _
  have hstamp := (h _ _ carSeen_run newCar hcar _ rfl).1
  exact absurd hstamp (by decide)

end Mec
