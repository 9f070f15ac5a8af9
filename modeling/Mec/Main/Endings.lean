import Mec.Fusion.Kalman
import Mec.Main.Runs

/-!
# How the program ends

The runs from the start of `main`, over every answer of the outside and every
interleaving. `main` reads a variable without a value exactly in the runs that
refused it the configuration, the queue or the processor. A run that exits in real
mode has failed, as the radar cannot start without a baud rate. And until `cleanup`
a thread finds what it works on.
-/

namespace Mec

open Lib.Lts

variable {K : Type}

abbrev ProgTrace (K : Type) := List (ProgAct K × List (ProgEvent K))

theorem ListHeap.accounted_empty : (ListHeap.empty : ListHeap K).Accounted [] where
  counted := ⟨(fun _ _ h => nomatch h), fun _ _ => rfl⟩
  fresh _ _ := rfl
  freed p := by simp [ListHeap.empty]
  faultless := rfl

/-! ## Two runs -/

def ProgEnv.rat : ProgEnv ℚ where
  libm := .rat
  scanDouble := Lib.Scan.scanDecimal
  host := .wrapping .little

def unconfigured : List (ProgAct ℚ) := [.call (.configLoad ⟨none, true, true⟩), .call .cleanup]

def untilSigint : List (ProgAct ℚ) :=
  [.call (.configLoad ⟨some [], true, true⟩),
    .call (.mecQueueCreate true),
    .call (.fusionProcessorCreate true true ⟨0, false⟩ (some fun _ => rollingCar ⟨0, 0⟩)),
    .call (.simulatorCreate true ⟨0, false⟩ (some fun _ => rollingCar ⟨0, 0⟩)
      (some fun _ => rollingCar ⟨0, 0⟩)),
    .call (.simulatorStart ⟨0, 0, 0, 1⟩),
    .call (.fusionProcessorStart ⟨0, 0, 0, 2⟩),
    .call (.monitorStartService true ⟨0, 0, 0, 3⟩),
    .worker (.inject (rollingCar ⟨100, 0⟩) none),
    .call (.loopTop ⟨none, true, true⟩),
    .call (.mecQueuePop none ⟨100, 0⟩),
    .call (.mecQueuePop (some 110) ⟨100, 0⟩),
    .call (.idle 100),
    .call .feed,
    .worker (.pass { now := ⟨101, 0⟩, out := fun _ => rollingCar ⟨0, 0⟩, fresh := fun _ => none }),
    .signal .sigint]

def afterSigint : List (ProgAct ℚ) :=
  [.call .clear, .call (.loopTop ⟨none, true, true⟩), .call .cleanup, .call .cleanup,
    .call .cleanup, .call .cleanup, .call .cleanup, .call .cleanup, .call .cleanup]

/-- The run from the start that takes `acts`. -/
abbrev played (simMode : Bool) (acts : List (ProgAct ℚ)) : ProgTrace ℚ × Program ℚ :=
  play (progStep .rat) (.start simMode) acts

namespace Program

theorem inv_start (simMode : Bool) : (start simMode : Program K).Inv where
  control :=
    { staged := .inl
        { phase := rfl
          unset := fun c hc _ => if_neg hc
          config := nofun
          queue := by simp [skeleton, start]
          idle := fun _ => rfl }
      workers := nofun
      sensors := fun _ => ⟨rfl, nofun, nofun⟩
      real := fun _ => ⟨rfl, nofun⟩ }
  entry := .past rfl
  data :=
    { queue := iff_of_false nofun nofun
      processor := iff_of_false nofun nofun
      simVideo := iff_of_false nofun nofun
      simRadar := iff_of_false nofun nofun
      video := fun _ => rfl
      radar := fun _ => rfl
      coherent := nofun
      owned := ListHeap.accounted_empty
      empty := fun _ => nofun
      reload := rfl
      frames := rfl }

variable [Field K] [LinearOrder K] {env : ProgEnv K} {s t : Program K} {simMode : Bool}
  {tr : ProgTrace K}

theorem inv_of_run (h : Run (progStep env) (start simMode) tr s) : s.Inv :=
  h.invariant (fun _ _ _ _ hs hstep => hs.step hstep) (inv_start simMode)

theorem progStep_active {a : ProgAct K} {evs : List (ProgEvent K)}
    (hstep : progStep env s a = some (t, evs)) : s.phase.active := by
  cases a <;> exact (Option.ite_none_right_eq_some.mp hstep).1

theorem simMode_of_run (h : Run (progStep env) (start simMode) tr s) : s.simMode = simMode := by
  refine (h.invariant (I := fun s => s.Inv ∧ s.simMode = simMode) ?_ ⟨inv_start simMode, rfl⟩).2
  rintro s a t evs ⟨hinv, hs⟩ hstep
  exact ⟨hinv.step hstep, (progStep_does hinv hstep).move.simMode.trans hs⟩

/-! ## Undefined behaviour -/

/-- `main` is on the way to an unassigned variable as soon as it was refused. -/
theorem doomed_of_run (h : Run (progStep env) (start simMode) tr s) (hkilled : s.phase ≠ .killed) :
    s.skeleton.Doomed ↔ ∃ x ∈ tr, x.1.refused := by
  have hrun := h.history_nil
    (I := fun tr s => s.Inv ∧ (s.phase ≠ .killed → (s.skeleton.Doomed ↔ ∃ x ∈ tr, x.1.refused)))
    ?_ ⟨inv_start simMode, fun _ => ?_⟩
  · exact hrun.2 hkilled
  · rintro tr s a t evs ⟨hinv, hs⟩ hstep
    refine ⟨hinv.step hstep, fun ht => ?_⟩
    have hactive := progStep_active hstep
    have hmove := (progStep_does hinv hstep).move
    have hdoomed := hs fun hk => by
      rw [hk] at hactive
      cases hactive
    rw [hmove.doomed_iff hinv.control hinv.entry ht, hdoomed]
    simp
  · simp [Skeleton.Doomed, skeleton, start]

/-- **Undefined behaviour.** A run that comes to an end, other than by a signal's default
action, ends in the read of a variable without a value exactly if the load of the
configuration or the creation of the queue or of the processor was refused. -/
theorem undefined_iff_refused (h : Run (progStep env) (start simMode) tr s)
    (hend : s.phase.active = false) (hkilled : s.phase ≠ .killed) :
    s.phase = .undefined ↔ ∃ x ∈ tr, x.1.refused := by
  rw [← doomed_of_run h hkilled]
  constructor
  · exact .inl
  · rintro (hph | ⟨hph, -⟩ | ⟨hph | hph | hph, -⟩)
    · exact hph
    all_goals
      rw [show s.phase = _ from hph] at hend
      cases hend

theorem undefined_iff_refused_unconfigured :
    (played false unconfigured).2.phase = .undefined ↔
      ∃ x ∈ (played false unconfigured).1, x.1.refused :=
  undefined_iff_refused (run_play _ _ _) rfl nofun

/-! ## Exits -/

/-- Some state of the run was in the loop. -/
def Looped (env : ProgEnv K) (simMode : Bool) (tr : ProgTrace K) : Prop :=
  Visits (progStep env) (start simMode) tr fun u => u.phase.inLoop

/-- Short of its end `main` has been in the loop if it is there, or has left it by its
condition. -/
theorem reached_of_run (h : Run (progStep env) (start simMode) tr s)
    (hover : s.phase ≠ .undefined ∧ s.phase ≠ .killed) :
    s.skeleton.Reached ↔ Looped env simMode tr := by
  induction tr using List.reverseRecOn generalizing s with
  | nil =>
    cases h
    exact iff_of_false (Skeleton.not_reached rfl rfl nofun) fun hloop =>
      nomatch Visits.nil_iff.mp hloop
  | append_singleton tr x ih =>
    obtain ⟨u, hu, hlast⟩ := h.split
    cases hlast with
    | @cons _ _ _ a evs _ hstep hnil =>
      cases hnil
      have hinv := inv_of_run hu
      have hactive := progStep_active hstep
      have hne : u.phase ≠ .undefined ∧ u.phase ≠ .killed := by
        constructor <;> intro hph <;> rw [hph] at hactive <;> cases hactive
      rw [(progStep_does hinv hstep).move.reached_iff hover, ih hu hne, Looped, Looped,
        h.visits_snoc]
      rfl

theorem status_of_run (h : Run (progStep env) (start simMode) tr s) {status : Int}
    (hexit : s.phase = .exited status) : status = if s.ret = .code .ok then 0 else 1 := by
  have hrun := h.invariant
    (I := fun s => s.Inv ∧
      ∀ status, s.phase = .exited status → status = if s.skeleton.ok then 0 else 1)
    ?_ ⟨inv_start simMode, nofun⟩
  · simpa [skeleton] using hrun.2 status hexit
  · rintro s a t evs ⟨hinv, -⟩ hstep
    exact ⟨hinv.step hstep, fun status hph => (progStep_does hinv hstep).move.status hph⟩

/-- **Exit status.** A run that returns gives 0 exactly if it had come to the main loop;
with real sensors it never does, and gives 1. -/
theorem exit_status (h : Run (progStep env) (start simMode) tr s) {status : Int}
    (hexit : s.phase = .exited status) :
    (status = 0 ↔ Looped env simMode tr) ∧ (status = 0 ∨ status = 1) ∧
      (simMode = false → status = 1 ∧ ¬Looped env simMode tr) := by
  have hreached := reached_of_run h (by rw [hexit]; exact ⟨nofun, nofun⟩)
  have hok : s.skeleton.Reached ↔ s.ret = .code .ok := by
    constructor
    · rintro (hloop | ⟨-, hok⟩)
      · rw [show s.skeleton.phase = _ from hexit] at hloop
        cases hloop
      · simpa [skeleton] using hok
    · exact fun hok => .inr ⟨.inr ⟨status, hexit⟩, by simpa [skeleton] using hok⟩
  have hstatus : status = 0 ↔ Looped env simMode tr := by
    rw [← hreached, hok, status_of_run h hexit]
    split <;> simp_all
  have hcases : status = 0 ∨ status = 1 := by
    rw [status_of_run h hexit]
    split <;> simp
  refine ⟨hstatus, hcases, fun hreal => ?_⟩
  have hnot : ¬Looped env simMode tr := by
    rintro ⟨tr₁, tr₂, u, -, hu, hloop⟩
    obtain ⟨hsim, -⟩ := (inv_of_run hu).data.loop (inv_of_run hu).control hloop
    rw [simMode_of_run hu, hreal] at hsim
    cases hsim
  exact ⟨hcases.resolve_left fun h0 => hnot (hstatus.mp h0), hnot⟩

theorem exit_status_sigint :
    ((0 : Int) = 0 ↔ Looped .rat true (played true (untilSigint ++ afterSigint)).1) ∧
      ((0 : Int) = 0 ∨ (0 : Int) = 1) ∧ (true = false → (0 : Int) = 1 ∧
        ¬Looped .rat true (played true (untilSigint ++ afterSigint)).1) :=
  exit_status (run_play _ _ _) rfl

/-! ## What never happens -/

theorem quiet_of_run (h : Run (progStep env) (start simMode) tr s) :
    ∀ x ∈ tr, ∀ e ∈ x.2, e.quiet s.phase.up := by
  have hrun := h.history_nil (I := fun tr s => s.Inv ∧ ∀ x ∈ tr, ∀ e ∈ x.2, e.quiet s.phase.up) ?_
    ⟨inv_start simMode, fun _ hx => absurd hx List.not_mem_nil⟩
  · exact hrun.2
  · rintro tr s a t evs ⟨hinv, hs⟩ hstep
    have hdoes := progStep_does hinv hstep
    have hup : t.phase.up → s.phase.up := hdoes.move.up
    refine ⟨hinv.step hstep, fun x hx e he => ?_⟩
    rcases List.mem_append.mp hx with hx | hx
    · exact ProgEvent.quiet_mono hup (hs x hx e he)
    · obtain rfl := List.mem_singleton.mp hx
      exact ProgEvent.quiet_mono hup (hdoes.quiet e he)

/-- **No thread outlives what it works on**, until `cleanup`. Whatever is refused, as long as
`main` has not come to `cleanup` a running thread finds its object, the queue and the
processor where it looks for them, and no list was touched after it was freed. -/
theorem no_fault (h : Run (progStep env) (start simMode) tr s) (hup : s.phase.up) :
    (∀ w, s.alive w → ∀ c ∈ w.uses, s.vars c = .here) ∧
      (∀ x ∈ tr, ∀ e ∈ x.2, ∀ w, e ≠ .fault w) ∧ s.heap.fault = false := by
  have hinv := inv_of_run h
  refine ⟨hinv.control.workers hup, fun x hx e he w => ?_, hinv.data.owned.faultless⟩
  rintro rfl
  have hquiet := quiet_of_run h x hx _ he
  rw [hup] at hquiet
  cases hquiet

theorem no_fault_sigint :
    let s := (played true untilSigint).2
    (∀ w, s.alive w → ∀ c ∈ w.uses, s.vars c = .here) ∧
      (∀ x ∈ (played true untilSigint).1, ∀ e ∈ x.2, ∀ w, e ≠ .fault w) ∧ s.heap.fault = false :=
  no_fault (run_play (progStep ProgEnv.rat) (start true) untilSigint) rfl

/-- No message was popped, no frame recorded, no packet encoded, no frame ever reported and
no configuration reloaded. -/
def Starved (tr : ProgTrace K) : Prop :=
  ∀ x ∈ tr, ∀ e ∈ x.2,
    (∀ msg, e ≠ .popped msg) ∧ e ≠ .recorded ∧ (∀ packet, e ≠ .encoded packet) ∧
    (∀ frames, e = .reported frames → frames = 0) ∧ e ≠ .reloaded

/-- **The consumer starves.** The main loop never takes a message from its queue: the
sensors that push to it are never started together with the loop. -/
theorem nothing_consumed (h : Run (progStep env) (start simMode) tr s) : Starved tr := by
  intro x hx e he
  have hquiet := quiet_of_run h x hx e he
  refine ⟨?_, ?_, ?_, ?_, ?_⟩
  · rintro msg rfl
    cases hquiet
  · rintro rfl
    cases hquiet
  · rintro packet rfl
    cases hquiet
  · rintro frames rfl
    simpa [ProgEvent.quiet] using hquiet
  · rintro rfl
    cases hquiet

theorem nothing_consumed_sigint : Starved (played true untilSigint).1 :=
  nothing_consumed (run_play (progStep ProgEnv.rat) (start true) untilSigint)

end Program

end Mec
