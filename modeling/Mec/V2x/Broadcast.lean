import Mec.Fusion.Runs
import Mec.V2x.Codec

/-!
# The broadcast of the main loop

`main` encodes the fusion processor's output list into a buffer of 2048 bytes.
The table never holds more than its 100 slots (`Roomy`), a pass writes one
record per live track, and detections added since leave the output list alone;
so the packet always has room for all of them.
-/

namespace Mec

open Lib.Lts Lib.Bytes Lib.Stores

variable {K : Type} [Field K] [LinearOrder K] {libm : Libm K} {p q : FusionProcessor K}

/-- The table as `fusion_processor_create` sized it, with an output list. -/
structure Roomy (p : FusionProcessor K) : Prop where
  capacity : p.trackCapacity = 100
  output : p.outputTracks.isSome

omit [LinearOrder K] in
theorem roomy_create (config : FusionConfig K) (g : Nat → TargetTrack K) :
    Roomy (fusionProcessorCreate config (some g)) := ⟨rfl, rfl⟩

theorem Roomy.add (h : Roomy p) (sensorId : Int) (meas : TargetTrack K) :
    Roomy (addDetection libm sensorId p meas).1 := by
  obtain ⟨hcap, hout⟩ := addDetection_frame libm sensorId p meas
  refine ⟨hcap.trans h.capacity, ?_⟩
  rw [hout]
  exact h.output

theorem Roomy.pass (h : Roomy p) (libm : Libm K) (env : PassEnv K) : Roomy (fusionPass libm env p) := by
  have hframe := fusionPass_frame libm env p
  exact ⟨hframe.capacity.trans h.capacity, hframe.output.trans h.output⟩

theorem roomy_of_run {tr : List (FusionAct K × List (Touch K))} (hp : Roomy p)
    (h : Run (fusionStep libm) p tr q) : Roomy q :=
  fusionRun_invariant (I := fun _ _ q => Roomy q)
    (fun sensorId _ _ _ meas hq => hq.add sensorId meas) (fun _ _ _ env hq => hq.pass libm env) h
    (T := []) (S := []) hp

theorem outputTracks_of_adds {tr : List (FusionAct K × List (Touch K))}
    (h : Run (fusionStep libm) p tr q) (hadds : passTimes tr = []) :
    q.outputTracks = p.outputTracks := by
  have hrun := fusionRun_invariant (I := fun _ S q => S = [] → q.outputTracks = p.outputTracks)
    (fun sensorId _ _ q meas hq hS =>
      (addDetection_frame libm sensorId q meas).2.trans (hq hS))
    (fun _ S _ env _ hS => absurd hS (List.append_ne_nil_of_right_ne_nil S (List.cons_ne_nil _ _)))
    h (T := []) (S := []) (fun _ => rfl)
  apply hrun
  rw [List.nil_append, hadds]

/-- **Every broadcast is complete.** Take any reachable processor with an
output list, let a pass go by and any detections arrive. The output list then
has one entry per track the pass left, in the table's order, and encoding it
into 2048 bytes returns 0 with the count in the count byte and one record per
entry. -/
theorem broadcast_complete {config : FusionConfig K} {g : Nat → TargetTrack K}
    {tr adds : List (FusionAct K × List (Touch K))}
    (h : Run (fusionStep libm) (fusionProcessorCreate config (some g)) tr p) (env : PassEnv K)
    (hafter : Run (fusionStep libm) (fusionPass libm env p) adds q) (hadds : passTimes adds = [])
    (host : Host K) (tv : Timeval) (rsuId : UInt32) (outBuf : Nat → UInt8) :
    ∃ o e, q.outputTracks = some o ∧ v2xEncodeRsm host tv (some o) rsuId 2048 = some e ∧
      e.ret = 0 ∧ o.count = (fusionPass libm env p).trackCount ∧
      (e.buffer outBuf 16).toNat = o.count ∧ e.outLen = 17 + 20 * o.count ∧ e.outLen ≤ 2048 ∧
      ∀ (i : Nat) (t : FusedTrack K), (fusionPass libm env p).live[i]? = some t →
        ∃ out, o.contents[i]? = some out ∧ out = toOutput libm env.now (env.out i) t ∧
          ∀ (j : Nat) (b : UInt8), (participantCells host out)[j]? = some (some b) →
            e.buffer outBuf (17 + 20 * i + j) = b := by
  have hroomy := (roomy_of_run (roomy_create config g) h).pass libm env
  obtain ⟨o, ho⟩ := Option.isSome_iff_exists.mp hroomy.output
  have hcontents := fusionPass_output libm env p ho
  have hcount : o.count = (fusionPass libm env p).trackCount := by
    rw [← o.contents_length, hcontents, List.length_mapIdx]
    exact (fusionPass libm env p).live_length
  have hle : o.count ≤ 100 := by
    rw [hcount, ← hroomy.capacity]
    exact (fusionPass libm env p).count_le
  -- 100 records end at 2017, so the early break is never taken
  have hroom : room 2048 17 = 101 := rfl
  have hser : serialised o.count 2048 = o.count := by
    rw [serialised, hroom]
    omega
  have hno : ¬ intMax < 17 + 20 * min o.count (room 2048 17 + 1) := by
    unfold intMax
    omega
  have hcall := (v2xEncodeRsm_eq host tv o rsuId 2048 (by decide)).trans (if_neg hno)
  have hbytes := fun i => buffer_eq hcall rfl outBuf i
  refine ⟨o, _, (outputTracks_of_adds hafter hadds).trans ho, hcall, rfl, hcount, ?_, ?_, ?_, ?_⟩
  · rw [hbytes, packetCells_count]
    show (UInt8.ofNat o.count).toNat = o.count
    rw [UInt8.toNat_ofNat']
    omega
  · rw [hser]
    rfl
  · rw [hser]
    show ((17 + 20 * o.count : Nat) : Int) ≤ 2048
    omega
  · intro i t ht
    have hout : o.contents[i]? = some (toOutput libm env.now (env.out i) t) := by
      rw [hcontents, List.getElem?_mapIdx, ht]
      rfl
    have hi : i < serialised o.count 2048 := by
      rw [hser, ← o.contents_length]
      exact (List.getElem?_eq_some_iff.mp hout).1
    refine ⟨_, hout, rfl, fun j b hb => ?_⟩
    have hj : j < 20 := by
      have hlt := (List.getElem?_eq_some_iff.mp hb).1
      rwa [length_participantCells] at hlt
    rw [hbytes, packetCells_record host tv rsuId hi hout hj, hb]
    rfl

def passAt101 : PassEnv ℚ := ⟨⟨101, 0⟩, fun _ => rollingCar ⟨0, 0⟩, fun _ => none⟩

theorem broadcast_complete_pair :
    let p := (play (fusionStep .rat) emptyProcessor [.addTracks (carPair ⟨100, 0⟩) 1]).2
    let q := (play (fusionStep .rat) (fusionPass .rat passAt101 p) [.addTracks (oneCar ⟨101, 0⟩) 2]).2
    ∃ o e, q.outputTracks = some o ∧
      v2xEncodeRsm (Host.wrapping .little) ⟨101, 0⟩ (some o) 0xABCD 2048 = some e ∧ e.ret = 0 ∧
      o.count = 2 ∧ (e.buffer (fun _ => 0) 16).toNat = 2 ∧ e.outLen = 57 := by
  have hrun := run_play (fusionStep .rat) emptyProcessor [.addTracks (carPair ⟨100, 0⟩) 1]
  obtain ⟨o, e, ho, he, h0, hlive, hcount, hlen, -⟩ := broadcast_complete hrun passAt101
    (run_play (fusionStep .rat) _ [.addTracks (oneCar ⟨101, 0⟩) 2]) rfl (Host.wrapping .little)
    ⟨101, 0⟩ 0xABCD fun _ => 0
  have htwo : o.count = 2 := hlive.trans (by decide +kernel)
  rw [htwo] at hcount hlen
  exact ⟨o, e, ho, he, h0, htwo, hcount, hlen⟩

end Mec
