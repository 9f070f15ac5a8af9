import Mec.V2x.Broadcast
import Mec.V2x.Fields

/-!
# Ids on the wire

The target id of a record is the low 16 bits of the track's id. The fusion
processor counts its ids up for ever, and a track may live as long as it is
detected, so two live tracks can be 65536 ids apart.
-/

namespace Mec

open Lib.Lts Lib.Bytes Lib.Stores

section Distinct

variable {K : Type} [Field K] {host : Host K} {tv : Timeval} {l : TrackList K} {rsuId : UInt32}
  {maxLen : Int} {e : Encoded}

theorem targetIds_eq (h : v2xEncodeRsm host tv (some l) rsuId maxLen = some e) (h0 : e.ret = 0)
    (outBuf : Nat → UInt8) :
    ((List.range (serialised l.count maxLen)).map fun i =>
        (wireField (e.buffer outBuf) i 0 2 : Int)) =
      (l.contents.take (serialised l.count maxLen)).map fun t => t.id % 65536 := by
  apply List.ext_getElem?
  intro i
  rw [List.getElem?_map, List.getElem?_map]
  by_cases hi : i < serialised l.count maxLen
  · have hlt : i < l.contents.length := by
      rw [l.contents_length]
      exact lt_of_lt_of_le hi (Nat.min_le_left _ _)
    have ht := List.getElem?_eq_getElem hlt
    rw [List.getElem?_range hi, List.getElem?_take_of_lt hi, ht]
    exact congrArg some (wireTargetId_eq h h0 outBuf hi ht)
  · rw [List.getElem?_eq_none (by rw [List.length_range]; omega),
      List.getElem?_eq_none (by rw [List.length_take]; omega)]
    rfl

/-- **Distinct on the wire.** The target ids of a packet are distinct exactly
when the ids of the tracks in it differ modulo 65536; distinct ids that lie
within 65536 of each other do. -/
theorem targetIds_distinct_iff (h : v2xEncodeRsm host tv (some l) rsuId maxLen = some e)
    (h0 : e.ret = 0) (outBuf : Nat → UInt8) :
    (((List.range (serialised l.count maxLen)).map fun i =>
        wireField (e.buffer outBuf) i 0 2).Nodup ↔
      ((l.contents.take (serialised l.count maxLen)).map fun t => t.id % 65536).Nodup) ∧
    ∀ least : Int, (l.contents.map TargetTrack.id).Nodup →
      (∀ t ∈ l.contents, least ≤ t.id ∧ t.id < least + 65536) →
      ((List.range (serialised l.count maxLen)).map fun i =>
        wireField (e.buffer outBuf) i 0 2).Nodup := by
  have hiff : ((List.range (serialised l.count maxLen)).map fun i =>
      wireField (e.buffer outBuf) i 0 2).Nodup ↔
      ((l.contents.take (serialised l.count maxLen)).map fun t => t.id % 65536).Nodup := by
    rw [← targetIds_eq h h0 outBuf]
    have hmap := List.nodup_map_iff (f := fun n : Nat => (n : Int)) Int.ofNat_injective
      (l := (List.range (serialised l.count maxLen)).map fun i => wireField (e.buffer outBuf) i 0 2)
    rw [List.map_map] at hmap
    exact hmap.symm
  refine ⟨hiff, fun least hids hnear => hiff.mpr ?_⟩
  have hsub := List.take_sublist (serialised l.count maxLen) l.contents
  have hdistinct := (hsub.map TargetTrack.id).nodup hids
  apply List.Nodup.map_on _ hdistinct.of_map
  intro t ht u hu hmod
  have htn := hnear t (hsub.subset ht)
  have hun := hnear u (hsub.subset hu)
  exact List.inj_on_of_nodup_map hdistinct ht hu (by omega)

end Distinct

theorem targetIds_distinct_iff_cars :
    ((List.range (serialised (listOf twoCars).count 2048)).map fun i =>
        wireField ((sentPacket .little twoCars 2048).buffer fun _ => 0) i 0 2).Nodup ↔
      (((listOf twoCars).contents.take (serialised (listOf twoCars).count 2048)).map
        fun t => t.id % 65536).Nodup :=
  (targetIds_distinct_iff (sentPacket_eq .little twoCars 2048 (by decide) (by decide)) rfl _).1

/-! ## Two live tracks 65536 ids apart

A parked car is believed and stays. Each round a second detection that is not
becomes a track, and the next pass deletes it. -/

def churnConfig : FusionConfig ℚ := ⟨0, 1 / 2, 100000⟩

def churnStart : FusionProcessor ℚ :=
  fusionProcessorCreate churnConfig (some fun _ => parkedCar 0)

def ghostCar : TargetTrack ℚ := { parkedCar 7 with confidence := 0 }

def passAt0 : PassEnv ℚ := ⟨⟨0, 0⟩, fun _ => parkedCar 0, fun _ => none⟩

/-- `n` ghosts have come and gone; the track with id 1 is alone in the table. -/
structure Churned (n : Nat) (p : FusionProcessor ℚ) : Prop where
  config : p.config = churnConfig
  roomy : Roomy p
  next : p.nextGlobalId = n + 2
  live : ∃ t, p.live = [t] ∧ t.globalId = 1 ∧ t.confidence = 1 ∧ t.age ≤ n + 1 ∧
    t.filterState.x = 0 ∧ t.filterState.y = 0 ∧ t.lastUpdate = ⟨0, 0⟩

theorem ageTrack_at0 {t : FusedTrack ℚ} (h : t.lastUpdate = ⟨0, 0⟩) :
    ageTrack ⟨0, 0⟩ t = { t with age := t.age + 1 } := by
  have hdt : (elapsed ⟨0, 0⟩ t.lastUpdate : ℚ) ≤ 0 := by
    rw [h, elapsed]
    norm_num
  unfold ageTrack predictTrackState
  rw [if_pos hdt]

theorem retained_ageTrack (now : Timeval) (t : FusedTrack ℚ) :
    retained churnConfig (ageTrack now t) = true ↔ t.age + 1 ≤ 100000 ∧ 1 / 2 ≤ t.confidence := by
  rw [retained_eq_decide, ageTrack_confidence, ageTrack_age, decide_eq_true_iff]
  rfl

/-- A detection at the origin is no nearer than the threshold 0, so it becomes
a track of its own. -/
theorem Churned.add {n : Nat} {p : FusionProcessor ℚ} (h : Churned n p) (meas : TargetTrack ℚ)
    (hpos : meas.position = ⟨0, 0, 0⟩) :
    ∃ t old q, p.live = [t] ∧
      Run (fusionStep .rat) p
        [(.addTracks (listOf [meas]) 1, [.created (n + 2) meas old])] q ∧
      q.live = [t, newTrack .rat old (n + 2) meas 1] ∧ q.nextGlobalId = n + 3 ∧
      q.config = churnConfig ∧ Roomy q := by
  obtain ⟨t, hlive, -, -, -, hx, hy, -⟩ := h.live
  have hnone : associate .rat p meas = none := by
    apply associate_eq_none
    rw [hlive, h.config]
    intro s hs
    obtain rfl := List.mem_singleton.mp hs
    have hzero : calculateTrackDistance .rat s meas = 0 := by
      show (Libm.rat.sqrt _ : ℚ) = 0
      rw [hpos, hx, hy]
      show ((0 - 0) * (0 - 0) / _ + (0 - 0) * (0 - 0) / _ : ℚ) = 0
      norm_num
    rw [hzero]
    exact lt_irrefl 0
  have hcount : p.trackCount = 1 := by rw [← p.live_length, hlive, List.length_singleton]
  have hroom : p.trackCount < p.trackCapacity := by
    rw [hcount, h.roomy.capacity]
    decide
  obtain ⟨old, hev, hlive', hnext, hconfig⟩ := addDetection_new 1 hnone hroom
  rw [h.next] at hev hlive' hnext
  refine ⟨t, old, _, hlive, .single ?_, ?_, ?_, hconfig.trans h.config, h.roomy.add 1 meas⟩
  · show some ((addDetection .rat 1 p meas).1, [(addDetection .rat 1 p meas).2]) = _
    rw [hev]
  · rw [hlive', hlive]
    rfl
  · rw [hnext]
    omega

theorem Churned.ghost {n : Nat} {p : FusionProcessor ℚ} (h : Churned n p) (hn : n < 99999) :
    ∃ tr q, Run (fusionStep .rat) p tr q ∧ Churned (n + 1) q := by
  obtain ⟨t, hlive, hid, hconf, hage, hx, hy, hlast⟩ := h.live
  obtain ⟨t', old, q, hlive', hadd, hq, hnext, hconfig, hroomy⟩ := h.add ghostCar rfl
  obtain rfl : t = t' := List.cons.inj (hlive.symm.trans hlive') |>.1
  have hkeep : retained churnConfig (ageTrack ⟨0, 0⟩ t) :=
    (retained_ageTrack _ _).mpr ⟨by omega, by rw [hconf]; norm_num⟩
  have hdrop : ¬ retained churnConfig
      (ageTrack ⟨0, 0⟩ (newTrack .rat old (n + 2) ghostCar 1)) := by
    rw [retained_ageTrack]
    rintro ⟨-, hlow⟩
    exact absurd hlow (by show ¬ (1 / 2 : ℚ) ≤ 0; norm_num)
  have hpass := fusionPass_live .rat passAt0 q
  have hframe := fusionPass_frame .rat passAt0 q
  have htime : passAt0.now = ⟨0, 0⟩ := rfl
  rw [hq, hconfig, List.map_cons, List.map_singleton, htime, List.filter_cons_of_pos hkeep,
    List.filter_cons_of_neg hdrop, List.filter_nil, List.perm_singleton, ageTrack_at0 hlast]
    at hpass
  refine ⟨_, _, hadd.append (.single (a := .pass passAt0) rfl), ?_⟩
  refine ⟨hframe.config.trans hconfig, hroomy.pass .rat passAt0, ?_, _, hpass, hid, hconf, ?_, hx, hy,
    hlast⟩
  · rw [hframe.nextGlobalId, hnext]
    omega
  · show t.age + 1 ≤ _
    omega

theorem churned_start :
    ∃ tr p, Run (fusionStep .rat) churnStart tr p ∧ Churned 0 p := by
  have hlive : (fusionProcessorAddTracks .rat churnStart (listOf [parkedCar 7]) 1).2.live =
      [newTrack .rat .zero 1 (parkedCar 7) 1] := rfl
  have hkeep : retained churnConfig
      (ageTrack ⟨0, 0⟩ (newTrack .rat .zero 1 (parkedCar 7) 1)) := by
    rw [ageTrack_at0 rfl]
    decide +kernel
  have hpass : (fusionPass .rat passAt0 _).live = _ := fusionPass_singleton hlive hkeep
  rw [show passAt0.now = ⟨0, 0⟩ from rfl, ageTrack_at0 rfl] at hpass
  have hframe := fusionPass_frame .rat passAt0
    (fusionProcessorAddTracks .rat churnStart (listOf [parkedCar 7]) 1).2
  have hstep : fusionStep .rat churnStart (.addTracks (listOf [parkedCar 7]) 1) =
      some ((fusionProcessorAddTracks .rat churnStart (listOf [parkedCar 7]) 1).2,
        [.created 1 (parkedCar 7) .zero]) := rfl
  refine ⟨_, _, .cons hstep (.single (a := .pass passAt0) rfl), ?_⟩
  refine ⟨hframe.config, ⟨hframe.capacity, hframe.output⟩, hframe.nextGlobalId, _, hpass, rfl,
    rfl, by decide, ?_, ?_, rfl⟩
  · decide +kernel
  · decide +kernel

theorem churned_run {n : Nat} (hn : n ≤ 99999) :
    ∃ tr p, Run (fusionStep .rat) churnStart tr p ∧ Churned n p := by
  induction n with
  | zero => exact churned_start
  | succ n ih =>
    obtain ⟨tr, p, hrun, hp⟩ := ih (by omega)
    obtain ⟨tr', q, hrun', hq⟩ := hp.ghost (by omega)
    exact ⟨tr ++ tr', q, hrun.append hrun', hq⟩

/-- 65535 ghosts later a second car comes, and both tracks are sent as 1. -/
theorem targetIds_collide :
    ∃ tr p o e, Run (fusionStep .rat) churnStart tr p ∧ p.outputTracks = some o ∧
      (o.contents.map TargetTrack.id).Nodup ∧ (∀ t ∈ o.contents, 0 < t.id) ∧
      v2xEncodeRsm (Host.wrapping .little) ⟨0, 0⟩ (some o) 0xABCD 2048 = some e ∧ e.ret = 0 ∧
      ¬ ((List.range (serialised o.count 2048)).map fun i =>
        wireField (e.buffer fun _ => 0) i 0 2).Nodup := by
  obtain ⟨tr, p, hrun, hp⟩ := churned_run (n := 65535) (by decide)
  obtain ⟨t, hlive, hid, hconf, hage, -, -, hlast⟩ := hp.live
  obtain ⟨t', old, q, hlive', hadd, hq, -, hconfig, hroomy⟩ := hp.add (parkedCar 7) rfl
  obtain rfl : t = t' := List.cons.inj (hlive.symm.trans hlive') |>.1
  have hkeep : ∀ s ∈ [t, newTrack .rat old ((65535 : Nat) + 2) (parkedCar 7) 1].map
      (ageTrack passAt0.now), retained q.config s := by
    rw [hconfig]
    intro s hs
    simp only [List.map_cons, List.map_nil, List.mem_cons, List.not_mem_nil, or_false] at hs
    rcases hs with rfl | rfl
    · exact (retained_ageTrack _ _).mpr ⟨by omega, by rw [hconf]; norm_num⟩
    · refine (retained_ageTrack _ _).mpr ⟨?_, ?_⟩
      · show (0 : Int) + 1 ≤ 100000
        decide
      · show (1 / 2 : ℚ) ≤ 1
        norm_num
  have hpass := fusionPass_live .rat passAt0 q
  rw [hq, List.filter_eq_self.mpr hkeep] at hpass
  obtain ⟨o, ho⟩ := Option.isSome_iff_exists.mp (hroomy.pass .rat passAt0).output
  have hids : (o.contents.map TargetTrack.id).Perm [1, 65537] := by
    have hperm := hpass.map FusedTrack.globalId
    rw [List.map_cons, List.map_singleton, List.map_cons, List.map_singleton, ageTrack_globalId,
      ageTrack_globalId, hid] at hperm
    rw [fusionPass_output_ids .rat passAt0 q ho]
    exact hperm
  have hcount : o.count = 2 := by
    have hlen := hids.length_eq
    rwa [List.length_map, o.contents_length] at hlen
  have hser : serialised o.count 2048 = 2 := by
    rw [hcount]
    rfl
  have hcall := (v2xEncodeRsm_eq (Host.wrapping .little) ⟨0, 0⟩ o 0xABCD 2048
    (by decide)).trans (if_neg (by rw [hcount]; decide))
  have hall : o.contents.take 2 = o.contents :=
    List.take_of_length_le (by rw [o.contents_length, hcount])
  have hmod : (o.contents.map fun t => t.id % 65536).Perm [1, 1] := by
    have hperm := hids.map (· % 65536)
    rw [List.map_map] at hperm
    exact hperm
  refine ⟨_, _, o, _, hrun.append (hadd.append (.single (a := .pass passAt0) rfl)), ho,
    hids.nodup_iff.mpr (by decide), fun t ht => ?_, hcall, rfl, fun hnodup => ?_⟩
  · have hmem := hids.subset (List.mem_map_of_mem ht)
    simp only [List.mem_cons, List.not_mem_nil, or_false] at hmem
    omega
  · have hfields := targetIds_eq hcall rfl fun _ => 0
    rw [hser, hall] at hfields
    have hone := hmod.nodup_iff.not.mpr (by decide)
    rw [← hfields] at hone
    rw [hser] at hnodup
    apply hone
    have hcast := hnodup.map (f := fun n : Nat => (n : Int)) Int.ofNat_injective
    rwa [List.map_map] at hcast

end Mec
