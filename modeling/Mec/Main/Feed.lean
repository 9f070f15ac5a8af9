import Mec.Fusion.Provenance
import Mec.Main.Endings

/-!
# What the processor is fed

The run of the fusion processor inside a run of the program: the polls of the main
loop and the passes of the fusion thread, in their order. It starts from the
configuration that was loaded and is fed the simulator's video list alone, so that
every track there ever is was seen by sensor 1 only.
-/

namespace Mec

open Lib.Lts

variable {K : Type}

/-- The step of the fusion processor that an event reports. -/
def ProgEvent.fused? : ProgEvent K → Option (FusionAct K × List (Touch K))
  | .fusion act touches => some (act, touches)
  | _ => none

/-- The run of the fusion processor inside a run of the program. -/
def fusionTrace (tr : ProgTrace K) : List (FusionAct K × List (Touch K)) :=
  tr.flatMap fun x => x.2.filterMap ProgEvent.fused?

theorem fusionTrace_snoc (tr : ProgTrace K) (a : ProgAct K) (evs : List (ProgEvent K)) :
    fusionTrace (tr ++ [(a, evs)]) = fusionTrace tr ++ evs.filterMap ProgEvent.fused? := by
  simp [fusionTrace]

/-- Calls for sensor 1, and passes. -/
def FusionAct.ofVideo : FusionAct K → Prop
  | .addTracks _ sensorId => sensorId = 1
  | .pass _ => True

namespace Skeleton

variable {s t : Skeleton} {b : Bool}

theorem Move.early (hm : s.Move b t) (ht : t.phase.early) : s.phase.early := by
  cases hm with
  | stay _ => exact ht
  | loaded hph | unloaded _ hph _ _ | queued hph => rw [hph]; rfl
  | fused _ _ => cases hs : s.simMode <;> simp [goto, hs, MainPhase.early] at ht
  | created _ hc _ => cases hc <;> cases ht
  | started _ hst => cases hst <;> cases ht
  | turn _ hturn => cases hturn <;> cases ht
  | @passed c _ _ => cases c <;> cases ht
  | @tookDown c _ _ => cases c <;> cases ht
  | _ => cases ht

end Skeleton

namespace Program

variable [Field K] [LinearOrder K] {env : ProgEnv K} {s t : Program K} {simMode : Bool}
  {tr : ProgTrace K} {evs : List (ProgEvent K)}

/-- What a step does to the processor: nothing, create it, take it away, or a step of its
own. -/
inductive Processes (env : ProgEnv K) (s t : Program K) (evs : List (ProgEvent K)) : Prop where
  | same : t.processor = s.processor → (s.processor.isSome → t.config = s.config) →
      evs.filterMap ProgEvent.fused? = [] → Processes env s t evs
  | created (fresh : Fresh K) : s.phase.early →
      t.processor = some (fusionProcessorCreate (mainFusionCfg env.scanDouble t.config) fresh) →
      evs.filterMap ProgEvent.fused? = [] → Processes env s t evs
  | gone : t.phase.early = false → t.processor = none →
      evs.filterMap ProgEvent.fused? = [] → Processes env s t evs
  | step {p p' : FusionProcessor K} {act : FusionAct K} {touches : List (Touch K)} :
      s.processor = some p → t.processor = some p' → t.config = s.config →
      fusionStep env.libm p act = some (p', touches) → act.ofVideo →
      evs.filterMap ProgEvent.fused? = [(act, touches)] → Processes env s t evs

omit [Field K] [LinearOrder K] in
theorem fused_thread (w : Worker) (calls : List ThreadEvent) :
    (calls.map (ProgEvent.thread w)).filterMap (ProgEvent.fused? (K := K)) = [] := by
  rw [List.filterMap_map]
  exact List.filterMap_eq_nil_iff.mpr fun _ _ => rfl

omit [Field K] [LinearOrder K] in
theorem fused_thread_append (w : Worker) (calls : List ThreadEvent) (evs : List (ProgEvent K)) :
    (calls.map (ProgEvent.thread w) ++ evs).filterMap ProgEvent.fused? =
      evs.filterMap ProgEvent.fused? := by
  rw [List.filterMap_append, fused_thread, List.nil_append]

omit [Field K] [LinearOrder K] in
theorem fused_destroyEvents (s : Program K) (c : MainPart) :
    (s.destroyEvents c).filterMap ProgEvent.fused? = [] := by
  unfold destroyEvents
  split
  · exact fused_thread_append _ _ _
  · rfl

theorem startWorker_processes (env : ProgEnv K) (s : Program K) (w : Worker) (ph : MainPhase)
    (ret : Int × ThreadContext × List ThreadEvent) :
    Processes env s (s.startWorker w ph ret).1 (s.startWorker w ph ret).2 := by
  unfold startWorker
  dsimp only
  split
  · exact .same rfl (fun _ => rfl) (fused_thread _ _)
  · exact .same rfl (fun _ => rfl) (fused_thread_append _ _ _)

theorem cleanup_processes (hinv : s.Inv) (hstep : callStep env s .cleanup = some (t, evs)) :
    Processes env s t evs := by
  simp only [callStep] at hstep
  split at hstep
  · next c hph =>
    split at hstep <;> obtain ⟨rfl, rfl⟩ := Prod.mk.inj (Option.some.inj hstep)
    · exact .same rfl (fun _ => rfl) rfl
    · next hhere =>
      have hlate : (s.afterCleanup c).early = false := by cases c <;> rfl
      cases c with
      | fusion => exact .gone hlate rfl (fused_destroyEvents s _)
      | config =>
        -- the processor has been taken down before it
        have hclean : s.skeleton.Cleaning .config := by
          rcases hinv.control.cleaning_of hph with hc | ⟨-, hc⟩
          · exact hc
          · cases hc
        have hnone : s.processor = none := by
          cases hp : s.processor with
          | none => rfl
          | some p =>
            have hfusion := hinv.data.processor.mpr (by rw [hp]; rfl)
            exact absurd hfusion (hclean.before .fusion (by decide))
        exact .gone hlate hnone rfl
      | _ => exact .same rfl (fun _ => rfl) (fused_destroyEvents s _)
    · exact .same rfl (fun _ => rfl) rfl
    · exact .same rfl (fun _ => rfl) rfl
  · cases hstep

theorem callStep_processes (hinv : s.Inv) {c : ProgCall K}
    (hstep : callStep env s c = some (t, evs)) : Processes env s t evs := by
  cases c with
  | configLoad load =>
    obtain ⟨hph, hthen⟩ := Option.ite_none_right_eq_some.mp hstep
    have hnone : s.processor.isSome → t.config = s.config := fun hp => by
      have hearly := hinv.control.early_of (by rw [show s.skeleton.phase = _ from hph]; rfl)
      exact absurd ((hinv.data.processor.mpr hp).symm.trans (hearly.unset .fusion nofun nofun)) nofun
    rcases configLoad_cases load with ⟨config, hload⟩ | ⟨ret, hret, hload⟩
    · rw [hload] at hthen
      obtain ⟨rfl, rfl⟩ := Prod.mk.inj (Option.some.inj hthen)
      exact .same rfl hnone rfl
    · obtain ⟨v, -, hcall⟩ := callStep_unloaded env hret hload hph
      rw [hcall] at hstep
      dsimp only at hstep
      split at hstep <;> obtain ⟨rfl, rfl⟩ := Prod.mk.inj (Option.some.inj hstep) <;>
        exact .same rfl hnone rfl
  | fusionProcessorCreate mallocOk callocOk ctx fresh =>
    obtain ⟨hph, hstep⟩ := Option.ite_none_right_eq_some.mp hstep
    split at hstep
    · obtain ⟨rfl, rfl⟩ := Prod.mk.inj (Option.some.inj hstep)
      exact .same rfl (fun _ => rfl) rfl
    · dsimp only at hstep
      split at hstep
      · obtain ⟨rfl, rfl⟩ := Prod.mk.inj (Option.some.inj hstep)
        exact .created fresh (by rw [hph]; rfl) rfl rfl
      · obtain ⟨rfl, rfl⟩ := Prod.mk.inj (Option.some.inj hstep)
        exact .same rfl (fun _ => rfl) rfl
  | simulatorStart _ | videoProcessorStart _ | radarProcessorStart _ | fusionProcessorStart _ =>
    obtain ⟨hph, hstep⟩ := Option.ite_none_right_eq_some.mp hstep
    obtain ⟨rfl, rfl⟩ := Prod.mk.inj (Option.some.inj hstep)
    exact startWorker_processes env s _ _ _
  | simulatorCreate mallocOk ctx video radar =>
    obtain ⟨hph, hstep⟩ := Option.ite_none_right_eq_some.mp hstep
    split at hstep
    · split at hstep <;> obtain ⟨rfl, rfl⟩ := Prod.mk.inj (Option.some.inj hstep)
      · refine .same rfl (fun _ => rfl) ?_
        split
        · exact fused_thread _ _
        · rfl
      · exact .same rfl (fun _ => rfl) rfl
    · obtain ⟨rfl, rfl⟩ := Prod.mk.inj (Option.some.inj hstep)
      exact .same rfl (fun _ => rfl) rfl
  | monitorStartService mallocOk ans =>
    obtain ⟨hph, hstep⟩ := Option.ite_none_right_eq_some.mp hstep
    split at hstep
    · dsimp only at hstep
      split at hstep <;> obtain ⟨rfl, rfl⟩ := Prod.mk.inj (Option.some.inj hstep) <;>
        exact .same rfl (fun _ => rfl) (fused_thread_append _ _ _)
    · obtain ⟨rfl, rfl⟩ := Prod.mk.inj (Option.some.inj hstep)
      exact .same rfl (fun _ => rfl) rfl
  | loopTop load =>
    obtain ⟨hph, hstep⟩ := Option.ite_none_right_eq_some.mp hstep
    simp only [hinv.data.reload, Bool.false_eq_true, if_false] at hstep
    split at hstep <;> obtain ⟨rfl, rfl⟩ := Prod.mk.inj (Option.some.inj hstep) <;>
      exact .same rfl (fun _ => rfl) rfl
  | mecQueuePop woken tv =>
    obtain ⟨hph, hstep⟩ := Option.ite_none_right_eq_some.mp hstep
    obtain ⟨-, ⟨q, hq, hcount⟩, ⟨p, hp⟩, -⟩ := hinv.data.loop hinv.control (by rw [hph]; rfl)
    rw [hq, hp] at hstep
    dsimp only at hstep
    rcases popSection_empty hcount woken with hsec | hsec <;> rw [hsec] at hstep <;>
      obtain ⟨rfl, rfl⟩ := Prod.mk.inj (Option.some.inj hstep) <;>
      exact .same rfl (fun _ => rfl) rfl
  | feed =>
    obtain ⟨hph, hstep⟩ := Option.ite_none_right_eq_some.mp hstep
    split at hstep
    · next hp =>
      obtain ⟨rfl, rfl⟩ := Prod.mk.inj (Option.some.inj hstep)
      refine .step hp rfl rfl rfl ?_ rfl
      rfl
    · obtain ⟨rfl, rfl⟩ := Prod.mk.inj (Option.some.inj hstep)
      exact .same rfl (fun _ => rfl) rfl
  | idle now =>
    obtain ⟨hph, hstep⟩ := Option.ite_none_right_eq_some.mp hstep
    split at hstep
    · dsimp only at hstep
      repeat' split at hstep
      all_goals
        obtain ⟨rfl, rfl⟩ := Prod.mk.inj (Option.some.inj hstep)
        exact .same rfl (fun _ => rfl) rfl
    · obtain ⟨rfl, rfl⟩ := Prod.mk.inj (Option.some.inj hstep)
      exact .same rfl (fun _ => rfl) rfl
  | cleanup => exact cleanup_processes hinv hstep
  | _ =>
    obtain ⟨hph, hstep⟩ := Option.ite_none_right_eq_some.mp hstep
    repeat' split at hstep
    all_goals
      obtain ⟨rfl, rfl⟩ := Prod.mk.inj (Option.some.inj hstep)
      exact .same rfl (fun _ => rfl) rfl

theorem workerStep_processes {w : WorkerAct K} (hstep : workerStep env s w = some (t, evs)) :
    Processes env s t evs := by
  cases w with
  | pass penv =>
    obtain ⟨-, hstep⟩ := Option.ite_none_right_eq_some.mp hstep
    split at hstep
    · next p hp =>
      obtain ⟨rfl, rfl⟩ := Prod.mk.inj (Option.some.inj hstep)
      refine .step hp rfl rfl rfl ?_ rfl
      trivial
    · obtain ⟨rfl, rfl⟩ := Prod.mk.inj (Option.some.inj hstep)
      exact .same rfl (fun _ => rfl) rfl
  | _ =>
    obtain ⟨-, hstep⟩ := Option.ite_none_right_eq_some.mp hstep
    repeat' split at hstep
    all_goals
      obtain ⟨rfl, rfl⟩ := Prod.mk.inj (Option.some.inj hstep)
      exact .same rfl (fun _ => rfl) rfl

theorem progStep_processes (hinv : s.Inv) {a : ProgAct K}
    (hstep : progStep env s a = some (t, evs)) : Processes env s t evs := by
  cases a with
  | call c =>
    obtain ⟨-, hstep⟩ := Option.ite_none_right_eq_some.mp hstep
    exact callStep_processes hinv hstep
  | worker w =>
    obtain ⟨-, hstep⟩ := Option.ite_none_right_eq_some.mp hstep
    exact workerStep_processes hstep
  | signal sig =>
    obtain ⟨-, hstep⟩ := Option.ite_none_right_eq_some.mp hstep
    split at hstep <;> obtain ⟨rfl, rfl⟩ := Prod.mk.inj (Option.some.inj hstep)
    · cases sig <;> exact .same rfl (fun _ => rfl) rfl
    · exact .same rfl (fun _ => rfl) rfl

/-! ## The run inside -/

/-- `tr` led to `s`, and inside it the processor has gone from its creation to what `s`
holds. -/
structure Feeds (env : ProgEnv K) (tr : ProgTrace K) (s : Program K) : Prop where
  early : s.phase.early → fusionTrace tr = []
  run : ∀ p, s.processor = some p → ∃ fresh, Run (fusionStep env.libm)
    (fusionProcessorCreate (mainFusionCfg env.scanDouble s.config) fresh) (fusionTrace tr) p
  video : ∀ x ∈ fusionTrace tr, x.1.ofVideo

omit [LinearOrder K] [Field K] in
theorem fusionTrace_quiet (hevs : evs.filterMap ProgEvent.fused? = []) (tr : ProgTrace K)
    (a : ProgAct K) : fusionTrace (tr ++ [(a, evs)]) = fusionTrace tr := by
  rw [fusionTrace_snoc, hevs, List.append_nil]

theorem Feeds.step (h : Feeds env tr s) (hinv : s.Inv) {a : ProgAct K}
    (hstep : progStep env s a = some (t, evs)) : Feeds env (tr ++ [(a, evs)]) t := by
  have hback : t.phase.early → s.phase.early := (progStep_does hinv hstep).move.early
  cases progStep_processes hinv hstep with
  | same hp hconfig hevs =>
    have htrace := fusionTrace_quiet hevs tr a
    refine ⟨fun ht => htrace.trans (h.early (hback ht)), fun p ht => ?_, ?_⟩
    · rw [hp] at ht
      rw [htrace, hconfig (by rw [ht]; rfl)]
      exact h.run p ht
    · rw [htrace]
      exact h.video
  | created fresh hearly hp hevs =>
    have htrace := (fusionTrace_quiet hevs tr a).trans (h.early hearly)
    refine ⟨fun _ => htrace, fun p ht => ⟨fresh, ?_⟩, fun x hx => ?_⟩
    · obtain rfl := Option.some.inj (hp.symm.trans ht)
      rw [htrace]
      exact .nil _
    · rw [htrace] at hx
      exact absurd hx List.not_mem_nil
  | gone hlate hp hevs =>
    have htrace := fusionTrace_quiet hevs tr a
    refine ⟨fun ht => ?_, fun p ht => ?_, by rw [htrace]; exact h.video⟩
    · cases hlate.symm.trans ht
    · cases hp.symm.trans ht
  | step hp hp' hconfig hfusion hvideo hevs =>
    rename_i p p' act touches
    have htrace : fusionTrace (tr ++ [(a, evs)]) = fusionTrace tr ++ [(act, touches)] := by
      rw [fusionTrace_snoc, hevs]
    refine ⟨fun ht => ?_, fun q hq => ?_, fun x hx => ?_⟩
    · have hearly := hinv.control.early_of (hback ht)
      have hhere := hinv.data.processor.mpr (by rw [hp]; rfl)
      exact nomatch hhere.symm.trans (hearly.unset .fusion nofun nofun)
    · obtain rfl := Option.some.inj (hp'.symm.trans hq)
      obtain ⟨fresh, hrun⟩ := h.run p hp
      exact ⟨fresh, by rw [htrace, hconfig]; exact hrun.snoc hfusion⟩
    · rw [htrace] at hx
      rcases List.mem_append.mp hx with hx | hx
      · exact h.video x hx
      · obtain rfl := List.mem_singleton.mp hx
        exact hvideo

theorem feeds_of_run (h : Run (progStep env) (start simMode) tr s) : Feeds env tr s := by
  have hrun := h.history_nil (I := fun tr s => s.Inv ∧ Feeds env tr s) ?_ ⟨inv_start simMode, ?_⟩
  · exact hrun.2
  · rintro tr s a t evs ⟨hinv, hs⟩ hstep
    exact ⟨hinv.step hstep, hs.step hinv hstep⟩
  · exact ⟨fun _ => rfl, nofun, fun _ hx => absurd hx List.not_mem_nil⟩

/-! ## One sensor -/

/-- The mask is that of sensor 1 if no other sensor was heard. -/
def SeenByVideo (H : List (FusionEvent K)) (t : FusedTrack K) : Prop :=
  (∀ sensorId touch, .detection sensorId touch ∈ H → sensorId = 1) → t.sensorMask = sensorBit 1

theorem seenByVideo_rule (libm : Libm K) (config : FusionConfig K) :
    TrackRule libm config SeenByVideo where
  created H sensorId globalId meas old _ hids := by
    obtain rfl := hids _ _ (List.mem_append_right H (List.mem_singleton_self _))
    rfl
  absorbed H sensorId t meas h hids := by
    obtain rfl := hids _ _ (List.mem_append_right H (List.mem_singleton_self _))
    have hmask := h fun i touch hmem => hids i touch (List.mem_append_left _ hmem)
    show t.sensorMask ||| sensorBit 1 = sensorBit 1
    rw [hmask, BitVec.or_self]
  aged H now t h _ hids := by
    rw [ageTrack_sensorMask]
    exact h fun i touch hmem => hids i touch (List.mem_append_left _ hmem)
  other H sensorId touch t h _ hids :=
    h fun i touch hmem => hids i touch (List.mem_append_left _ hmem)

/-- **The processor in the program.** Whatever the threads do, the processor has made a run
of its own, from its creation with the configuration that was loaded, of the polls and the
passes of the program's run. No detection of the radar is among them: every live track was
seen by sensor 1 and no other. -/
theorem processor_fed_by_video [IsStrictOrderedRing K]
    (h : Run (progStep env) (start simMode) tr s) {p : FusionProcessor K}
    (hp : s.processor = some p) :
    (∃ fresh, Run (fusionStep env.libm)
      (fusionProcessorCreate (mainFusionCfg env.scanDouble s.config) fresh) (fusionTrace tr) p) ∧
      (∀ x ∈ fusionTrace tr, x.1.ofVideo) ∧ ∀ t ∈ p.live, t.sensorMask = sensorBit 1 := by
  have hfeeds := feeds_of_run h
  obtain ⟨fresh, hrun⟩ := hfeeds.run p hp
  refine ⟨⟨fresh, hrun⟩, hfeeds.video, fun t ht => ?_⟩
  refine ((seenByVideo_rule env.libm _).of_run hrun).tracks t ht fun sensorId touch hmem => ?_
  obtain ⟨⟨act, touches⟩, hx, hev⟩ := List.mem_flatMap.mp hmem
  have hvideo := hfeeds.video _ hx
  cases act with
  | addTracks tracks i =>
    obtain ⟨touch', -, heq⟩ := List.mem_map.mp hev
    cases heq
    exact hvideo
  | pass env => cases List.mem_singleton.mp hev

theorem processor_fed_by_video_sigint :
    let s := (played true untilSigint).2
    let tr := (played true untilSigint).1
    ∃ p, s.processor = some p ∧ (∃ fresh, Run (fusionStep .rat)
      (fusionProcessorCreate (mainFusionCfg Lib.Scan.scanDecimal s.config) fresh) (fusionTrace tr)
        p) ∧
      (∀ x ∈ fusionTrace tr, x.1.ofVideo) ∧ ∀ t ∈ p.live, t.sensorMask = sensorBit 1 :=
  ⟨_, rfl, processor_fed_by_video (run_play (progStep ProgEnv.rat) (start true) untilSigint) rfl⟩

end Program

end Mec
