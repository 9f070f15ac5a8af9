import Mec.Fusion.Pass
import Mec.Fusion.Covariance
import Mec.Lib.Lts

/-!
# Runs of the fusion processor

Calls of `fusion_processor_add_tracks` and passes of the fusion loop in any
order, each one atomic. An add reports what became of each of its detections.
`fusionRun_invariant` is the one induction over runs: a property of the
processor, the detections handled so far and the pass times so far that one
detection keeps and one pass keeps holds along every run.
-/

namespace Mec

open Lib.Lts

variable {K : Type} [Field K] [LinearOrder K]

inductive FusionAct (K : Type) where
  | addTracks (tracks : TrackList K) (sensorId : Int)
  | pass (env : PassEnv K)

/-- What becomes of the detections of one call, in order. -/
def touched (libm : Libm K) (sensorId : Int) :
    FusionProcessor K → List (TargetTrack K) → List (Touch K)
  | _, [] => []
  | p, meas :: rest =>
    (addDetection libm sensorId p meas).2 ::
      touched libm sensorId (addDetection libm sensorId p meas).1 rest

def fusionStep (libm : Libm K) (p : FusionProcessor K) :
    FusionAct K → Option (FusionProcessor K × List (Touch K))
  | .addTracks tracks sensorId =>
    some ((fusionProcessorAddTracks libm p tracks sensorId).2,
      touched libm sensorId p tracks.contents)
  | .pass env => some (fusionPass libm env p, [])

omit [Field K] [LinearOrder K] in
def FusionAct.time? : FusionAct K → Option Timeval
  | .addTracks _ _ => none
  | .pass env => some env.now

/-- The detections of a run. -/
def touches (tr : List (FusionAct K × List (Touch K))) : List (Touch K) := tr.flatMap (·.2)

/-- The times of a run's passes. -/
def passTimes (tr : List (FusionAct K × List (Touch K))) : List Timeval :=
  tr.filterMap (·.1.time?)

section Rule

variable {libm : Libm K} {I : List (Touch K) → List Timeval → FusionProcessor K → Prop}

theorem addTracks_invariant {sensorId : Int} {S : List Timeval}
    (hadd : ∀ T p meas, I T S p →
      I (T ++ [(addDetection libm sensorId p meas).2]) S (addDetection libm sensorId p meas).1)
    (dets : List (TargetTrack K)) (T : List (Touch K)) (p : FusionProcessor K) (hp : I T S p) :
    I (T ++ touched libm sensorId p dets) S
      (dets.foldl (fun p meas => (addDetection libm sensorId p meas).1) p) := by
  induction dets generalizing T p with
  | nil => rwa [touched, List.append_nil]
  | cons meas rest ih =>
    have h := ih _ _ (hadd T p meas hp)
    rwa [List.append_assoc] at h

/-- **Invariant rule** for runs of the processor. -/
theorem fusionRun_invariant
    (hadd : ∀ sensorId T S p meas, I T S p →
      I (T ++ [(addDetection libm sensorId p meas).2]) S (addDetection libm sensorId p meas).1)
    (hpass : ∀ T S p env, I T S p → I T (S ++ [env.now]) (fusionPass libm env p))
    {p q : FusionProcessor K} {tr : List (FusionAct K × List (Touch K))}
    (h : Run (fusionStep libm) p tr q) {T : List (Touch K)} {S : List Timeval} (hp : I T S p) :
    I (T ++ touches tr) (S ++ passTimes tr) q := by
  induction h generalizing T S with
  | nil => rwa [touches, passTimes, List.flatMap_nil, List.filterMap_nil, List.append_nil,
      List.append_nil]
  | @cons p p' q a e tr hstep _ ih =>
    rw [touches, List.flatMap_cons, ← List.append_assoc]
    cases a with
    | addTracks tracks sensorId =>
      obtain ⟨rfl, rfl⟩ := Prod.mk.inj (Option.some.inj hstep)
      exact ih (addTracks_invariant (fun T p meas => hadd sensorId T S p meas) _ T p hp)
    | pass env =>
      obtain ⟨rfl, rfl⟩ := Prod.mk.inj (Option.some.inj hstep)
      have h := ih (hpass T S p env hp)
      rw [List.append_assoc] at h
      rw [List.append_nil]
      exact h

end Rule

/-! ## Identities and filters -/

/-- Global ids are handed out once, and the live filters are as `FilterOk` says. -/
structure TableOk (p : FusionProcessor K) : Prop where
  nodup : (p.live.map FusedTrack.globalId).Nodup
  lt_next : ∀ t ∈ p.live, t.globalId < p.nextGlobalId
  filters : ∀ t ∈ p.live, FilterOk t.filterState

@[simp] theorem ageTrack_globalId (now : Timeval) (t : FusedTrack K) :
    (ageTrack now t).globalId = t.globalId := by
  unfold ageTrack predictTrackState
  split <;> rfl

@[simp] theorem ageTrack_lastUpdate (now : Timeval) (t : FusedTrack K) :
    (ageTrack now t).lastUpdate = t.lastUpdate := by
  unfold ageTrack predictTrackState
  split <;> rfl

@[simp] theorem ageTrack_filter_lastUpdate (now : Timeval) (t : FusedTrack K) :
    (ageTrack now t).filterState.lastUpdate = t.filterState.lastUpdate := by
  unfold ageTrack predictTrackState
  split <;> rfl

@[simp] theorem ageTrack_confidence (now : Timeval) (t : FusedTrack K) :
    (ageTrack now t).confidence = t.confidence := by
  unfold ageTrack predictTrackState
  split <;> rfl

@[simp] theorem ageTrack_sensorMask (now : Timeval) (t : FusedTrack K) :
    (ageTrack now t).sensorMask = t.sensorMask := by
  unfold ageTrack predictTrackState
  split <;> rfl

@[simp] theorem ageTrack_age (now : Timeval) (t : FusedTrack K) :
    (ageTrack now t).age = t.age + 1 := by
  unfold ageTrack predictTrackState
  split <;> rfl

theorem mem_fusionPass {libm : Libm K} {env : PassEnv K} {p : FusionProcessor K}
    {t : FusedTrack K} (ht : t ∈ (fusionPass libm env p).live) :
    ∃ s ∈ p.live, ageTrack env.now s = t := by
  have h := List.mem_of_mem_filter ((fusionPass_live libm env p).subset ht)
  exact List.mem_map.mp h

theorem set_absorb_globalId {libm : Libm K} {l : List (FusedTrack K)} {j : Nat}
    {t : FusedTrack K} (hj : l[j]? = some t) {sensorId : Int} {meas : TargetTrack K} :
    (l.set j (absorb libm sensorId t meas)).map FusedTrack.globalId =
      l.map FusedTrack.globalId := by
  obtain ⟨hlt, rfl⟩ := List.getElem?_eq_some_iff.mp hj
  calc (l.set j (absorb libm sensorId l[j] meas)).map FusedTrack.globalId
      = (l.set j l[j]).map FusedTrack.globalId := by rw [List.map_set, List.map_set]; rfl
    _ = l.map FusedTrack.globalId := by rw [List.set_getElem_self]

section TableOk

variable [IsStrictOrderedRing K] {libm : Libm K} {p : FusionProcessor K}

omit [IsStrictOrderedRing K] in
theorem tableOk_create (config : FusionConfig K) (fresh : Fresh K) :
    TableOk (fusionProcessorCreate config fresh) := by
  have hlive : (fusionProcessorCreate config fresh).live = [] := rfl
  refine ⟨?_, ?_, ?_⟩ <;> rw [hlive]
  · exact List.nodup_nil
  · exact fun t ht => absurd ht List.not_mem_nil
  · exact fun t ht => absurd ht List.not_mem_nil

theorem TableOk.add (h : TableOk p) (sensorId : Int) (meas : TargetTrack K) :
    TableOk (addDetection libm sensorId p meas).1 := by
  rcases addDetection_cases libm sensorId p meas with
    ⟨j, t, hj, -, hlive, hnext⟩ | ⟨old, -, hlive, hnext⟩ | hdrop
  · have ht := List.mem_of_getElem? hj
    refine ⟨?_, ?_, ?_⟩ <;> rw [hlive]
    · rw [set_absorb_globalId hj]
      exact h.nodup
    · rw [hnext]
      intro s hs
      rcases List.mem_or_eq_of_mem_set hs with hs | rfl
      · exact h.lt_next s hs
      · exact h.lt_next t ht
    · intro s hs
      rcases List.mem_or_eq_of_mem_set hs with hs | rfl
      · exact h.filters s hs
      · exact update_ok libm (h.filters t ht) meas
  · refine ⟨?_, ?_, ?_⟩ <;> rw [hlive]
    · rw [List.map_append, List.nodup_append]
      refine ⟨h.nodup, List.nodup_singleton _, ?_⟩
      rintro i hi i' hi' rfl
      obtain ⟨s, hs, rfl⟩ := List.mem_map.mp hi
      obtain ⟨s', hs', hid⟩ := List.mem_map.mp hi'
      obtain rfl := List.mem_singleton.mp hs'
      exact (h.lt_next s hs).ne hid.symm
    · rw [hnext]
      intro s hs
      rcases List.mem_append.mp hs with hs | hs
      · have := h.lt_next s hs
        omega
      · obtain rfl := List.mem_singleton.mp hs
        show p.nextGlobalId < p.nextGlobalId + 1
        omega
    · intro s hs
      rcases List.mem_append.mp hs with hs | hs
      · exact h.filters s hs
      · obtain rfl := List.mem_singleton.mp hs
        exact initialize_ok libm old.filterState meas
  · rw [hdrop]
    exact h

theorem TableOk.pass (h : TableOk p) (env : PassEnv K) : TableOk (fusionPass libm env p) := by
  refine ⟨?_, ?_, ?_⟩
  · have hperm := (fusionPass_live libm env p).map FusedTrack.globalId
    rw [hperm.nodup_iff]
    have hsub := (List.filter_sublist (p := retained p.config)
      (l := p.live.map (ageTrack env.now))).map FusedTrack.globalId
    refine hsub.nodup ?_
    rw [List.map_map]
    have hid : (FusedTrack.globalId ∘ ageTrack env.now : FusedTrack K → Int) =
        FusedTrack.globalId :=
      funext fun t => ageTrack_globalId env.now t
    rw [hid]
    exact h.nodup
  · intro t ht
    obtain ⟨s, hs, rfl⟩ := mem_fusionPass ht
    rw [(fusionPass_frame libm env p).nextGlobalId, ageTrack_globalId]
    exact h.lt_next s hs
  · intro t ht
    obtain ⟨s, hs, rfl⟩ := mem_fusionPass ht
    exact predict_ok (h.filters s hs) _

/-- The table of every reachable processor is in order. -/
theorem tableOk_of_run {config : FusionConfig K} {fresh : Fresh K}
    {tr : List (FusionAct K × List (Touch K))}
    (h : Run (fusionStep libm) (fusionProcessorCreate config fresh) tr p) : TableOk p :=
  fusionRun_invariant (I := fun _ _ p => TableOk p)
    (fun sensorId _ _ _ meas hp => hp.add sensorId meas) (fun _ _ _ env hp => hp.pass env) h
    (T := []) (S := []) (tableOk_create config fresh)

end TableOk

/-! ## A run over the rationals -/

/-- The configuration `main` falls back to. -/
def defaultConfig : FusionConfig ℚ where
  associationThreshold := 5
  confidenceThreshold := 3 / 10
  maxTrackAge := 50

def oneCar (timestamp : Timeval) : TrackList ℚ where
  tracks := [rollingCar timestamp]
  count := 1
  capacity := 1
  refCount := 1
  tracks_length := rfl
  count_le := Nat.le_refl _

def farCar (timestamp : Timeval) : TargetTrack ℚ :=
  { rollingCar timestamp with position := ⟨100, 100, 0⟩ }

def carPair (timestamp : Timeval) : TrackList ℚ :=
  (trackListAdd (some fun _ => rollingCar ⟨0, 0⟩) (oneCar timestamp) (farCar timestamp)).2

def emptyProcessor : FusionProcessor ℚ :=
  fusionProcessorCreate defaultConfig (some fun _ => rollingCar ⟨0, 0⟩)

def carSeen : FusionProcessor ℚ :=
  (fusionProcessorAddTracks .rat emptyProcessor (oneCar ⟨100, 0⟩) 1).2

def newCar : FusedTrack ℚ := newTrack .rat .zero 1 (rollingCar ⟨100, 0⟩) 1

theorem carSeen_live : carSeen.live = [newCar] := rfl

theorem carSeen_run : Run (fusionStep .rat) emptyProcessor
    [(.addTracks (oneCar ⟨100, 0⟩) 1, [.created 1 (rollingCar ⟨100, 0⟩) .zero])] carSeen :=
  .single rfl

end Mec
