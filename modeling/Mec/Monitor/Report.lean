import Mec.Fusion.Interleaved
import Mec.Lib.Print

/-!
# The monitor's report (`monitor.c`)

`monitor_server_thread` sends each client the number of tracks and the time, printed
into 512 bytes. The number is read without the processor's mutex, in the middle of a
pass or of a call if need be. The report is sent whole, and a client reads back from it
a number of tracks between two states of the processor.
-/

namespace Mec

open Lib.Lts Lib.Critical Lib.Print Lib.Scan

variable {K : Type}

/-- The format of the report; `uptime_s` is printed from `time(NULL)`. -/
def reportFormat : List Piece :=
  [.lit "\x7b\n  \"status\": \"running\",\n  \"tracks\": ".toList, .int,
    .lit ",\n  \"uptime_s\": ".toList, .long, .lit "\n\x7d\n".toList]

/-- `snprintf` into `buffer`, and what is given to `send`, if anything is. -/
def monitorReport (activeTracks time : Int) : Option (List Char) :=
  let text := render reportFormat [.num activeTracks, .num time]
  if 0 < text.length ∧ text.length < 512 then some text else none

def activeTracks (fusionProc : Option (FusionProcessor K)) : Int :=
  match fusionProc with
  | some p => p.trackCount
  | none => 0

/-- A report is never cut off, and reads back. -/
theorem monitorReport_whole {tracks time : Int}
    (htracks : -2147483648 ≤ tracks ∧ tracks < 2147483648)
    (htime : -longMax - 1 ≤ time ∧ time ≤ longMax) :
    ∃ text, monitorReport tracks time = some text ∧
      read reportFormat text = some ([.num tracks, .num time], []) := by
  have hread : Readable reportFormat [.num tracks, .num time] :=
    ⟨htracks, ⟨',', rfl, by decide⟩, htime, ⟨'\n', rfl, by decide⟩, trivial⟩
  have hlen : (render reportFormat [.num tracks, .num time]).length =
      56 + (printInt tracks).length + (printInt time).length := by
    simp [reportFormat, render]
    omega
  have htracks' : (printInt tracks).length ≤ 10 + 1 := by
    refine length_printInt_le (by decide) ?_
    omega
  have htime' : (printInt time).length ≤ 19 + 1 := by
    refine length_printInt_le (by decide) ?_
    unfold longMax at htime
    omega
  refine ⟨_, if_pos ⟨by omega, by omega⟩, ?_⟩
  have h := read_render hread []
  rwa [List.append_nil] at h

variable [Field K] [LinearOrder K] {libm : Libm K} {cfg : FusionConfig K} {fresh : Fresh K}

theorem capacity_of_run {tr : List (FusionAct K × List (Touch K))} {p : FusionProcessor K}
    (h : Run (fusionStep libm) (fusionProcessorCreate cfg fresh) tr p) : p.trackCapacity = 100 :=
  fusionRun_invariant (I := fun _ _ p => p.trackCapacity = 100)
    (fun sensorId _ _ p meas hp => (addDetection_frame libm sensorId p meas).1.trans hp)
    (fun _ _ p env hp => (fusionPass_frame libm env p).capacity.trans hp) h (T := []) (S := []) rfl

/-- **What the monitor reports.** Whenever the monitor serves a client, with any number of
calls and passes before and one of them perhaps half done: the report is sent whole, and
the number of tracks a client reads in it is at most 100 and lies between the numbers of
two successive states of the processor. -/
theorem report_truthful {tr₁ tr₂ : SharedTrace (FusionProcessor K) (FusionAct K)}
    {seen : FusionProcessor K} {s : Shared (FusionProcessor K) (FusionAct K) (FusionLocal K)}
    (h : Run (sharedStep (fusionCode libm)) ⟨fusionProcessorCreate cfg fresh, none⟩
      (tr₁ ++ (.look, some seen) :: tr₂) s)
    {time : Int} (htime : -longMax - 1 ≤ time ∧ time ≤ longMax) :
    ∃ (text : List Char) (n : Nat), monitorReport (activeTracks (some seen)) time = some text ∧
      read reportFormat text = some ([.num n, .num time], []) ∧ n ≤ 100 ∧
      ∃ tr p q, Run (fusionStep libm) (fusionProcessorCreate cfg fresh) tr p ∧
        ((q = p ∧ entered tr₁ = tr.map Prod.fst) ∨
          ∃ b e, entered tr₁ = tr.map Prod.fst ++ [b] ∧ fusionStep libm p b = some (q, e)) ∧
        min p.trackCount q.trackCount ≤ n ∧ n ≤ max p.trackCount q.trackCount := by
  obtain ⟨tr, p, q, hrun, hnext, hlower, hupper, -⟩ := seen_between h
  have hq : ∃ tr', Run (fusionStep libm) (fusionProcessorCreate cfg fresh) tr' q := by
    rcases hnext with ⟨rfl, -⟩ | ⟨b, e, -, hstep⟩
    · exact ⟨tr, hrun⟩
    · exact ⟨_, hrun.snoc hstep⟩
  obtain ⟨tr', hrun'⟩ := hq
  have hp100 := capacity_of_run hrun ▸ p.count_le
  have hq100 := capacity_of_run hrun' ▸ q.count_le
  have hle : seen.trackCount ≤ 100 := hupper.trans (max_le hp100 hq100)
  have hint : -2147483648 ≤ (seen.trackCount : Int) ∧ (seen.trackCount : Int) < 2147483648 := by
    omega
  obtain ⟨text, hsent, hread⟩ := monitorReport_whole hint htime
  exact ⟨text, seen.trackCount, hsent, hread, hle, tr, p, q, hrun, hnext, hlower, hupper⟩

/-- In the middle of a pass over two tracks, at second 101. -/
theorem report_truthful_halfPass :
    monitorReport (activeTracks (some halfPass.2.state)) 101 =
      some "\x7b\n  \"status\": \"running\",\n  \"tracks\": 2,\n  \"uptime_s\": 101\n\x7d\n".toList ∧
      ∃ (text : List Char) (n : Nat),
        monitorReport (activeTracks (some halfPass.2.state)) 101 = some text ∧
        read reportFormat text = some ([.num n, .num 101], []) := by
  refine ⟨by decide +kernel, ?_⟩
  have hrun : Run (sharedStep (fusionCode .rat)) ⟨emptyProcessor, none⟩
      (halfPass.1 ++ [(.look, some halfPass.2.state)]) halfPass.2 :=
    (run_play _ _ _).snoc rfl
  obtain ⟨text, n, hsent, hread, -⟩ := report_truthful hrun (by decide : _ ∧ (101 : Int) ≤ longMax)
  exact ⟨text, n, hsent, hread⟩

end Mec
