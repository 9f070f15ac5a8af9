import Mathlib.Data.List.DropRight
import Mec.Fusion.Timestamps

/-!
# Histories of a fused track

A run as one list of events, detections and passes in the order they happened.
What a track's record says about its past is a relation between that list and
the record. `TrackRule` is the rule for such relations: it names the four
things that can happen to a live track (it is created, absorbs a detection, is
aged, or something happens to others), and the relation then holds for every
live track of every reachable processor, whichever slot it is in.
-/

namespace Mec

open Lib.Lts

variable {K : Type}

/-- A detection of `sensorId` and what became of it, or a pass. -/
inductive FusionEvent (K : Type) where
  | detection (sensorId : Int) (touch : Touch K)
  | pass (now : Timeval)

namespace FusionEvent

/-- Created or updated the track `id`. -/
def about (id : Int) : FusionEvent K → Bool
  | detection _ touch => touch.about id
  | pass _ => false

def isPass : FusionEvent K → Bool
  | detection _ _ => false
  | pass _ => true

/-- The detection, with its sensor, if it created or updated the track `id`. -/
def detection? (id : Int) : FusionEvent K → Option (Int × TargetTrack K)
  | detection sensorId touch => if touch.about id then some (sensorId, touch.meas) else none
  | pass _ => none

end FusionEvent

def eventsOf : FusionAct K × List (Touch K) → List (FusionEvent K)
  | (.addTracks _ sensorId, T) => T.map (.detection sensorId)
  | (.pass env, _) => [.pass env.now]

def history (tr : List (FusionAct K × List (Touch K))) : List (FusionEvent K) :=
  tr.flatMap eventsOf

/-- The detections the track `id` was created by or absorbed, with their sensors. -/
def detections (id : Int) (H : List (FusionEvent K)) : List (Int × TargetTrack K) :=
  H.filterMap (FusionEvent.detection? id)

/-- The passes since the last detection that created or updated the track `id`. -/
def passesSince (id : Int) (H : List (FusionEvent K)) : Nat :=
  (H.rtakeWhile fun e => !e.about id).countP FusionEvent.isPass

section Concat

variable {id sensorId : Int} {H : List (FusionEvent K)} {touch : Touch K}

theorem detections_about (h : touch.about id) :
    detections id (H ++ [.detection sensorId touch]) =
      detections id H ++ [(sensorId, touch.meas)] := by
  have hd : (FusionEvent.detection sensorId touch).detection? id = some (sensorId, touch.meas) :=
    if_pos h
  unfold detections
  rw [List.filterMap_append, List.filterMap_cons_some hd, List.filterMap_nil]

theorem mem_detections_append {d : Int × TargetTrack K} (hd : d ∈ detections id H)
    (H' : List (FusionEvent K)) : d ∈ detections id (H ++ H') := by
  unfold detections
  rw [List.filterMap_append]
  exact List.mem_append_left _ hd

theorem detections_other (h : ¬touch.about id) :
    detections id (H ++ [.detection sensorId touch]) = detections id H := by
  have hd : (FusionEvent.detection sensorId touch).detection? id = none := if_neg h
  unfold detections
  rw [List.filterMap_append, List.filterMap_cons_none hd, List.filterMap_nil, List.append_nil]

theorem detections_pass (now : Timeval) : detections id (H ++ [.pass now]) = detections id H := by
  unfold detections
  rw [List.filterMap_append, List.filterMap_cons_none rfl, List.filterMap_nil, List.append_nil]

theorem detections_eq_nil (h : ∀ e ∈ H, ¬e.about id) : detections id H = [] := by
  refine List.filterMap_eq_nil_iff.mpr fun e he => ?_
  cases e with
  | detection sensorId touch => exact if_neg (h _ he)
  | pass now => rfl

theorem passesSince_about (h : touch.about id) :
    passesSince id (H ++ [.detection sensorId touch]) = 0 := by
  unfold passesSince
  rw [List.rtakeWhile_concat_neg]
  · rfl
  · simpa [FusionEvent.about] using h

theorem passesSince_other (h : ¬touch.about id) :
    passesSince id (H ++ [.detection sensorId touch]) = passesSince id H := by
  unfold passesSince
  rw [List.rtakeWhile_concat_pos]
  · rw [List.countP_append]
    rfl
  · simpa [FusionEvent.about] using h

theorem passesSince_pass (now : Timeval) :
    passesSince id (H ++ [.pass now]) = passesSince id H + 1 := by
  unfold passesSince
  rw [List.rtakeWhile_concat_pos]
  · rw [List.countP_append]
    rfl
  · rfl

end Concat

variable [Field K] [LinearOrder K]

/-! ## What was handed over -/

omit [Field K] [LinearOrder K] in
theorem exists_of_forall₂ {α : Type} {R : α → TargetTrack K → Prop} {l : List α}
    {tracks : List (TargetTrack K)} (h : List.Forall₂ R l tracks) {track : TargetTrack K}
    (hmem : track ∈ tracks) : ∃ x ∈ l, R x track := by
  induction h with
  | nil => exact absurd hmem List.not_mem_nil
  | cons hr _ ih =>
    rcases List.mem_cons.mp hmem with rfl | hmem
    · exact ⟨_, List.mem_cons_self, hr⟩
    · obtain ⟨x, hx, hr⟩ := ih hmem
      exact ⟨x, List.mem_cons_of_mem _ hx, hr⟩

theorem touched_meas (libm : Libm K) (sensorId : Int) (dets : List (TargetTrack K))
    (p : FusionProcessor K) : (touched libm sensorId p dets).map Touch.meas = dets := by
  induction dets generalizing p with
  | nil => rfl
  | cons meas rest ih =>
    rw [touched, List.map_cons, ih]
    rcases addDetection_cases libm sensorId p meas with
      ⟨_, _, _, hev, _, _⟩ | ⟨_, hev, _, _⟩ | hev
    · rw [hev]
      rfl
    · rw [hev]
      rfl
    · rw [hev]
      rfl

theorem detections_fed {libm : Libm K} {p q : FusionProcessor K}
    {tr : List (FusionAct K × List (Touch K))} (h : Run (fusionStep libm) p tr q)
    {id sensorId : Int} {meas : TargetTrack K}
    (hmem : (sensorId, meas) ∈ detections id (history tr)) :
    ∃ l T, (.addTracks l sensorId, T) ∈ tr ∧ meas ∈ l.contents := by
  obtain ⟨ev, hev, hd⟩ := List.mem_filterMap.mp hmem
  obtain ⟨⟨act, T⟩, hx, hev⟩ := List.mem_flatMap.mp hev
  obtain ⟨u, v, hstep⟩ := h.exists_step hx
  cases act with
  | pass env =>
    obtain rfl := List.mem_singleton.mp hev
    cases hd
  | addTracks l i =>
    obtain ⟨touch, htouch, rfl⟩ := List.mem_map.mp hev
    obtain ⟨-, hT⟩ := Prod.mk.inj (Option.some.inj hstep)
    simp only [FusionEvent.detection?] at hd
    split at hd
    · obtain ⟨rfl, rfl⟩ := Prod.mk.inj (Option.some.inj hd)
      refine ⟨l, T, hx, ?_⟩
      rw [← touched_meas libm i l.contents u, show touched libm i u l.contents = T from hT]
      exact List.mem_map_of_mem htouch
    · cases hd

/-! ## Rules -/

section Rule

variable {libm : Libm K} {I : List (FusionEvent K) → FusionProcessor K → Prop}

theorem detections_invariant {sensorId : Int}
    (hadd : ∀ H p meas, I H p →
      I (H ++ [.detection sensorId (addDetection libm sensorId p meas).2])
        (addDetection libm sensorId p meas).1)
    (dets : List (TargetTrack K)) (H : List (FusionEvent K)) (p : FusionProcessor K)
    (hp : I H p) :
    I (H ++ (touched libm sensorId p dets).map (.detection sensorId))
      (dets.foldl (fun p meas => (addDetection libm sensorId p meas).1) p) := by
  induction dets generalizing H p with
  | nil => rwa [touched, List.map_nil, List.append_nil]
  | cons meas rest ih =>
    have h := ih _ _ (hadd H p meas hp)
    rwa [List.append_assoc] at h

/-- **Invariant rule** over histories. -/
theorem fusionHistory_invariant
    (hadd : ∀ sensorId H p meas, I H p →
      I (H ++ [.detection sensorId (addDetection libm sensorId p meas).2])
        (addDetection libm sensorId p meas).1)
    (hpass : ∀ H p env, I H p → I (H ++ [.pass env.now]) (fusionPass libm env p))
    {p q : FusionProcessor K} {tr : List (FusionAct K × List (Touch K))}
    (h : Run (fusionStep libm) p tr q) {H : List (FusionEvent K)} (hp : I H p) :
    I (H ++ history tr) q := by
  induction h generalizing H with
  | nil => rwa [history, List.flatMap_nil, List.append_nil]
  | @cons p p' q a e tr hstep _ ih =>
    rw [history, List.flatMap_cons, ← List.append_assoc]
    cases a with
    | addTracks tracks sensorId =>
      obtain ⟨rfl, rfl⟩ := Prod.mk.inj (Option.some.inj hstep)
      exact ih (detections_invariant (hadd sensorId) _ H p hp)
    | pass env =>
      obtain ⟨rfl, -⟩ := Prod.mk.inj (Option.some.inj hstep)
      exact ih (hpass H p env hp)

end Rule

/-- What is to be shown of a relation `J` between a history and the record of a
live track, under the configuration `config`. -/
structure TrackRule (libm : Libm K) (config : FusionConfig K)
    (J : List (FusionEvent K) → FusedTrack K → Prop) : Prop where
  created : ∀ H sensorId globalId meas old, (∀ e ∈ H, ¬e.about globalId) →
    J (H ++ [.detection sensorId (.created globalId meas old)])
      (newTrack libm old globalId meas sensorId)
  absorbed : ∀ H sensorId t meas, J H t →
    J (H ++ [.detection sensorId (.absorbed t.globalId meas)]) (absorb libm sensorId t meas)
  aged : ∀ H now t, J H t → retained config (ageTrack now t) →
    J (H ++ [.pass now]) (ageTrack now t)
  other : ∀ H sensorId touch t, J H t → ¬touch.about t.globalId →
    J (H ++ [.detection sensorId touch]) t

/-- The table is in order and `J` relates the history to every live track. -/
structure Tracked (config : FusionConfig K) (J : List (FusionEvent K) → FusedTrack K → Prop)
    (H : List (FusionEvent K)) (p : FusionProcessor K) : Prop where
  table : TableOk p
  config_eq : p.config = config
  lt_next : ∀ e ∈ H, ∀ id, e.about id → id < p.nextGlobalId
  tracks : ∀ t ∈ p.live, J H t

section Tracked

variable [IsStrictOrderedRing K] {libm : Libm K} {config : FusionConfig K}
  {J : List (FusionEvent K) → FusedTrack K → Prop} {H : List (FusionEvent K)}
  {p : FusionProcessor K}

omit [IsStrictOrderedRing K] in
theorem addDetection_config (libm : Libm K) (sensorId : Int) (p : FusionProcessor K)
    (meas : TargetTrack K) : (addDetection libm sensorId p meas).1.config = p.config := by
  unfold addDetection placeDetection
  split
  · rfl
  · split <;> rfl

omit [IsStrictOrderedRing K] in
theorem TableOk.about_lt (h : TableOk p) (sensorId : Int) (meas : TargetTrack K) {id : Int}
    (habout : (addDetection libm sensorId p meas).2.about id) :
    id < (addDetection libm sensorId p meas).1.nextGlobalId := by
  rcases addDetection_cases libm sensorId p meas with
    ⟨j, t, hj, hev, -, hnext⟩ | ⟨old, hev, -, hnext⟩ | hdrop
  · rw [hev] at habout
    obtain rfl : t.globalId = id := eq_of_beq habout
    rw [hnext]
    exact h.lt_next t (List.mem_of_getElem? hj)
  · rw [hev] at habout
    obtain rfl : p.nextGlobalId = id := eq_of_beq habout
    rw [hnext]
    omega
  · rw [hdrop] at habout
    cases habout

omit [IsStrictOrderedRing K] in
theorem addDetection_next_le (libm : Libm K) (sensorId : Int) (p : FusionProcessor K)
    (meas : TargetTrack K) : p.nextGlobalId ≤ (addDetection libm sensorId p meas).1.nextGlobalId := by
  rcases addDetection_cases libm sensorId p meas with
    ⟨_, _, _, _, _, hnext⟩ | ⟨_, _, _, hnext⟩ | hdrop
  · omega
  · omega
  · rw [hdrop]

theorem Tracked.add (hJ : TrackRule libm config J) (h : Tracked config J H p) (sensorId : Int)
    (meas : TargetTrack K) :
    Tracked config J (H ++ [.detection sensorId (addDetection libm sensorId p meas).2])
      (addDetection libm sensorId p meas).1 where
  table := h.table.add sensorId meas
  config_eq := (addDetection_config libm sensorId p meas).trans h.config_eq
  lt_next e he id habout := by
    rcases List.mem_append.mp he with he | he
    · have hlt := h.lt_next e he id habout
      have hle := addDetection_next_le libm sensorId p meas
      omega
    · obtain rfl := List.mem_singleton.mp he
      exact h.table.about_lt sensorId meas habout
  tracks s hs := by
    rcases h.table.add_cases sensorId meas hs with
      ⟨hs, habout⟩ | ⟨t, ht, hev, rfl⟩ | ⟨old, hev, rfl⟩
    · exact hJ.other H sensorId _ s (h.tracks s hs) habout
    · rw [hev]
      exact hJ.absorbed H sensorId t meas (h.tracks t ht)
    · rw [hev]
      refine hJ.created H sensorId _ meas old fun e he habout => ?_
      exact (h.lt_next e he _ habout).false

theorem Tracked.pass (hJ : TrackRule libm config J) (h : Tracked config J H p) (env : PassEnv K) :
    Tracked config J (H ++ [.pass env.now]) (fusionPass libm env p) where
  table := h.table.pass env
  config_eq := (fusionPass_frame libm env p).config.trans h.config_eq
  lt_next e he id habout := by
    rw [(fusionPass_frame libm env p).nextGlobalId]
    rcases List.mem_append.mp he with he | he
    · exact h.lt_next e he id habout
    · obtain rfl := List.mem_singleton.mp he
      cases habout
  tracks t ht := by
    have hmem := (fusionPass_live libm env p).subset ht
    rw [List.mem_filter, h.config_eq] at hmem
    obtain ⟨s, hs, rfl⟩ := List.mem_map.mp hmem.1
    exact hJ.aged H env.now s (h.tracks s hs) hmem.2

omit [IsStrictOrderedRing K] in
theorem Tracked.start (config : FusionConfig K) (fresh : Fresh K)
    (J : List (FusionEvent K) → FusedTrack K → Prop) :
    Tracked config J [] (fusionProcessorCreate config fresh) where
  table := tableOk_create config fresh
  config_eq := rfl
  lt_next _ he := absurd he List.not_mem_nil
  tracks _ ht := absurd ht List.not_mem_nil

/-- **Track rule.** Such a relation holds of every live track of every reachable
processor. -/
theorem TrackRule.of_run (hJ : TrackRule libm config J) {fresh : Fresh K}
    {tr : List (FusionAct K × List (Touch K))}
    (h : Run (fusionStep libm) (fusionProcessorCreate config fresh) tr p) :
    Tracked config J (history tr) p :=
  fusionHistory_invariant (fun sensorId _ _ meas hp => hp.add hJ sensorId meas)
    (fun _ _ env hp => hp.pass hJ env) h (H := []) (.start config fresh J)

omit [IsStrictOrderedRing K] in
/-- A track survives a pass exactly if its aged record passes the test. -/
theorem TableOk.mem_ids_fusionPass (h : TableOk p) (env : PassEnv K) {t : FusedTrack K}
    (ht : t ∈ p.live) :
    t.globalId ∈ (fusionPass libm env p).live.map FusedTrack.globalId ↔
      retained p.config (ageTrack env.now t) := by
  have hperm := fusionPass_live libm env p
  constructor
  · intro hid
    obtain ⟨s', hs', hid⟩ := List.mem_map.mp hid
    obtain ⟨hs', hkeep⟩ := List.mem_filter.mp (hperm.subset hs')
    obtain ⟨s, hs, rfl⟩ := List.mem_map.mp hs'
    rw [ageTrack_globalId] at hid
    obtain rfl := List.inj_on_of_nodup_map h.nodup hs ht hid
    exact hkeep
  · intro hkeep
    refine List.mem_map.mpr ⟨ageTrack env.now t, hperm.symm.subset ?_, ageTrack_globalId env.now t⟩
    exact List.mem_filter.mpr ⟨List.mem_map_of_mem ht, hkeep⟩

end Tracked

end Mec
