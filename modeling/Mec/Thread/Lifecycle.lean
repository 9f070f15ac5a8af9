import Mec.Lib.Typestate
import Mec.Thread.Basic

/-!
# The life of a processor's thread

What the C library defines for one context is a typestate (`pthreadStep`). A
processor goes through the phases of `nextPhase`: nothing is initialised, the
thread can be joined, or `ctx->thread` does not name it. A sequence of calls
respects the library exactly when it follows the phases and ends in the second
(`Component.Wraps.safe_iff`).
-/

namespace Mec

open Lib.Typestate

/-! ## The library -/

/-- What the library knows of a context. -/
structure Pthreads where
  mutex : Bool
  cond : Bool
  unjoined : List Nat
  deriving DecidableEq, Repr

def Pthreads.fresh : Pthreads := ⟨false, false, []⟩

/-- A mutex or condition variable is initialised when it is not, and used and
destroyed when it is. It is not destroyed before the threads that lock it are
joined. A thread is joined once. -/
def pthreadStep (s : Pthreads) : ThreadEvent → Option Pthreads
  | .mutexInit => if s.mutex then none else some { s with mutex := true }
  | .mutexLock | .mutexUnlock => if s.mutex then some s else none
  | .mutexDestroy => if s.mutex ∧ s.unjoined = [] then some { s with mutex := false } else none
  | .condInit => if s.cond then none else some { s with cond := true }
  | .condBroadcast => if s.cond then some s else none
  | .condDestroy => if s.cond ∧ s.unjoined = [] then some { s with cond := false } else none
  | .create _ thread => some { s with unjoined := thread :: s.unjoined }
  | .join thread =>
    if thread ∈ s.unjoined then some { s with unjoined := s.unjoined.erase thread } else none
  | .opened _ | .closed _ => some s

/-- A trace the library defines, after which every thread is joined. -/
def Respects (evs : List ThreadEvent) : Prop :=
  ∃ s, run pthreadStep .fresh evs = some s ∧ s.unjoined = []

def ThreadEvent.starts (thread : Nat) : ThreadEvent → Bool
  | .create _ t => t == thread
  | _ => false

def ThreadEvent.joins (thread : Nat) : ThreadEvent → Bool
  | .join t => t == thread
  | _ => false

inductive Sync where
  | mutex
  | cond

namespace Sync

def init : Sync → ThreadEvent
  | .mutex => .mutexInit
  | .cond => .condInit

def destroy : Sync → ThreadEvent
  | .mutex => .mutexDestroy
  | .cond => .condDestroy

/-- Everything that needs the object. -/
def uses : Sync → List ThreadEvent
  | .mutex => [.mutexLock, .mutexUnlock, .mutexDestroy]
  | .cond => [.condBroadcast, .condDestroy]

def flag : Sync → Pthreads → Bool
  | .mutex => Pthreads.mutex
  | .cond => Pthreads.cond

end Sync

section Respects

variable {s t : Pthreads} {e : ThreadEvent} {evs before after : List ThreadEvent}

theorem pthreadStep_count (h : pthreadStep s e = some t) (thread : Nat) :
    t.unjoined.count thread + [e].countP (·.joins thread) =
      s.unjoined.count thread + [e].countP (·.starts thread) := by
  cases e with
  | create routine started =>
    cases h
    simp [ThreadEvent.joins, ThreadEvent.starts, List.count_cons]
  | join joined =>
    simp only [pthreadStep] at h
    split at h
    · next hmem =>
      cases h
      have hpos := List.count_pos_iff.mpr hmem
      by_cases hj : joined = thread
      · subst hj
        simp [ThreadEvent.joins, ThreadEvent.starts]
        omega
      · simp [ThreadEvent.joins, ThreadEvent.starts, List.count_erase_of_ne (Ne.symm hj), hj]
    · cases h
  | opened | closed =>
    cases h
    rfl
  | _ =>
    simp only [pthreadStep] at h
    split at h <;> cases h
    rfl

/-- **Every started thread is joined once.** -/
theorem Respects.joined_once (h : Respects evs) (thread : Nat) :
    evs.countP (·.joins thread) = evs.countP (·.starts thread) := by
  obtain ⟨u, hrun, hnil⟩ := h
  have hcount : ∀ {s : Pthreads}, run pthreadStep s evs = some u →
      evs.countP (·.joins thread) = evs.countP (·.starts thread) + s.unjoined.count thread := by
    clear hrun
    induction evs with
    | nil =>
      rintro s ⟨⟩
      simp [hnil]
    | cons e evs ih =>
      intro s hrun
      rw [run_cons] at hrun
      obtain ⟨t, hstep, hrest⟩ := Option.bind_eq_some_iff.mp hrun
      have h₁ := pthreadStep_count hstep thread
      have h₂ := ih hrest
      rw [← List.singleton_append, List.countP_append, List.countP_append]
      omega
  exact hcount hrun

/-- **The mutex and the condition variable are used between their initialisation
and their destruction.** -/
theorem Respects.between (o : Sync) (h : Respects (before ++ e :: after)) (he : e ∈ o.uses) :
    ∃ earlier since, before = earlier ++ o.init :: since ∧ o.init ∉ since ∧ o.destroy ∉ since := by
  obtain ⟨u, hrun, -⟩ := h
  obtain ⟨t, t', hbefore, hstep, -⟩ := run_split hrun
  refine run_flag (f := o.flag) ?_ ?_ hbefore (by cases o <;> rfl) ?_
  · intro s e t hstep hne ht
    cases o <;> cases e
    case mutex.mutexInit | cond.condInit => exact absurd rfl hne
    all_goals
      simp only [pthreadStep] at hstep
      first
      | cases hstep; exact ht
      | split at hstep <;> cases hstep
        first | exact ht | cases ht
  · intro s t hstep
    cases o
    all_goals
      simp only [Sync.destroy, pthreadStep] at hstep
      split at hstep <;> cases hstep
      rfl
  · cases o <;> cases e
    all_goals first
      | simp [Sync.uses] at he; done
      | simp only [pthreadStep] at hstep
        split at hstep
        · next hflag => first | exact hflag | exact hflag.1
        · cases hstep

end Respects

/-! ## Processors -/

/-- A processor that owns a thread. `creates` is what `thread_create` is answered
if the start function calls it. -/
structure Component where
  State : Type
  Answers : Type
  start : Answers → State → Int × State × List ThreadEvent
  stop : State → State × List ThreadEvent
  destroy : State → List ThreadEvent
  threadCtx : State → ThreadContext
  creates : State → Answers → Option CreateAnswers

/-- The calls before the final destroy. -/
inductive Call (α : Type) where
  | start (answers : α)
  | stop

/-- The phases of a context. In `lost` its mutex is initialised, but
`ctx->thread` is not the thread to join. -/
inductive Phase where
  | idle
  | live
  | lost
  deriving DecidableEq, Repr

/-- The phase a start leads to that initialises the mutex and the condition
variable. A thread that runs must have a handle other than 0, and one that does
not, the handle 0. -/
def started (ans : CreateAnswers) : Phase :=
  if ans.create = 0 ↔ ans.thread ≠ 0 then .live else .lost

/-- The calls that respect the library. A start that fails before it has
initialised anything changes nothing; any other needs an idle context. Only a
live context may be stopped. -/
def nextPhase {α : Type} (creates : α → Option CreateAnswers) (phase : Phase) :
    Call α → Option Phase
  | .start answers =>
    match creates answers with
    | none => some phase
    | some ans =>
      if ans.mutexInit ≠ 0 then some phase
      else if phase ≠ .idle then none
      else if ans.condInit ≠ 0 then some .idle
      else some (started ans)
  | .stop => if phase = .live then some .idle else none

namespace Component

variable (c : Component)

def move (p : c.State) : Call c.Answers → c.State
  | .start answers => (c.start answers p).2.1
  | .stop => (c.stop p).1

def emit (p : c.State) : Call c.Answers → List ThreadEvent
  | .start answers => (c.start answers p).2.2
  | .stop => (c.stop p).2

def trace (p : c.State) (calls : List (Call c.Answers)) : List ThreadEvent :=
  emits c.move c.emit p calls ++ c.destroy (moves c.move p calls)

/-- The life of the thread is safe: the calls and the final destroy respect the
library, and a stop that follows a stop, the one of destroy included, does
nothing. -/
structure Safe (p : c.State) (calls : List (Call c.Answers)) : Prop where
  respects : Respects (c.trace p calls)
  stop_again : ∀ before after, calls = before ++ .stop :: after →
    (after = [] ∨ after.head? = some .stop) →
    c.stop (moves c.move p (before ++ [.stop])) = (moves c.move p (before ++ [.stop]), [])

/-- The calls go through the phases, and destroy finds a live context. -/
def Orderly (p : c.State) (calls : List (Call c.Answers)) : Prop :=
  run (nextPhase (c.creates p)) .idle calls = some .live

/-- The start, stop and destroy of a processor are those of its thread, up to
opened and closed files. -/
structure Wraps (routine : Routine) : Prop where
  start_none : ∀ p a, c.creates p a = none →
    (c.threadCtx (c.start a p).2.1).thread = (c.threadCtx p).thread ∧
      ∀ s, run pthreadStep s (c.start a p).2.2 = some s
  start_some : ∀ p a ans, c.creates p a = some ans →
    c.threadCtx (c.start a p).2.1 = (threadCreate routine ans (c.threadCtx p)).2.1 ∧
      ∀ s, run pthreadStep s (c.start a p).2.2 =
        run pthreadStep s (threadCreate routine ans (c.threadCtx p)).2.2
  stop : ∀ p s, run pthreadStep s (c.stop p).2 =
    run pthreadStep s (threadDestroy (c.threadCtx p)).2
  destroy : ∀ p s, run pthreadStep s (c.destroy p) =
    run pthreadStep s (threadDestroy (c.threadCtx p)).2
  creates : ∀ p call, c.creates (c.move p call) = c.creates p

end Component

/-! ## One call -/

/-- The context and the library in a phase. -/
def InPhase (ctx : ThreadContext) (s : Pthreads) : Phase → Prop
  | .idle => s = .fresh
  | .live => s = ⟨true, true, if ctx.thread = 0 then [] else [ctx.thread]⟩
  | .lost => s.mutex = true ∧ s.cond = true ∧
      if ctx.thread = 0 then s.unjoined ≠ [] else ctx.thread ∉ s.unjoined

section Step

variable {ctx ctx' : ThreadContext} {s : Pthreads} {phase : Phase} {ans : CreateAnswers}

theorem InPhase.mutex (h : InPhase ctx s phase) : s.mutex = decide (phase ≠ .idle) := by
  cases phase with
  | idle =>
    obtain rfl := h
    rfl
  | live =>
    obtain rfl := h
    rfl
  | lost => exact h.1

theorem InPhase.congr (h : InPhase ctx s phase) (hctx : ctx'.thread = ctx.thread) :
    InPhase ctx' s phase := by
  cases phase with
  | idle => exact h
  | live | lost =>
    unfold InPhase at h ⊢
    rw [hctx]
    exact h

theorem threadDestroy_run (h : InPhase ctx s phase) :
    run pthreadStep s (threadDestroy ctx).2 = if phase = .live then some .fresh else none := by
  cases phase with
  | idle =>
    obtain rfl := h
    rfl
  | live =>
    obtain rfl := h
    unfold threadDestroy
    by_cases hzero : ctx.thread = 0
    · simp only [hzero]
      rfl
    · have hjoin : pthreadStep ⟨true, true, [ctx.thread]⟩ (.join ctx.thread) =
          some ⟨true, true, []⟩ := by simp [pthreadStep]
      simp only [if_pos (show ctx.thread ≠ 0 from hzero), if_neg hzero]
      -- what comes before the join changes nothing
      show run pthreadStep ⟨true, true, [ctx.thread]⟩
        [.join ctx.thread, .mutexDestroy, .condDestroy] = some .fresh
      rw [run_cons_of_some hjoin]
      rfl
  | lost =>
    obtain ⟨mutex, cond, unjoined⟩ := s
    obtain ⟨rfl, rfl, hthread⟩ : mutex = true ∧ cond = true ∧ _ := h
    unfold threadDestroy
    by_cases hzero : ctx.thread = 0
    · rw [if_pos hzero] at hthread
      simp only [hzero]
      show run pthreadStep ⟨true, true, unjoined⟩ [.mutexDestroy, .condDestroy] = none
      exact run_cons_of_none (if_neg fun h => hthread h.2)
    · rw [if_neg hzero] at hthread
      simp only [if_pos (show ctx.thread ≠ 0 from hzero)]
      show run pthreadStep ⟨true, true, unjoined⟩
        [.join ctx.thread, .mutexDestroy, .condDestroy] = none
      exact run_cons_of_none (if_neg hthread)

theorem started_inPhase (ans : CreateAnswers) (running : Bool) :
    InPhase ⟨ans.thread, running⟩
      ⟨true, true, if ans.create = 0 then [ans.thread] else []⟩ (started ans) := by
  unfold started
  by_cases hcreate : ans.create = 0
  · by_cases hthread : ans.thread = 0
    · simp [hcreate, hthread, InPhase]
    · simp [hcreate, hthread, InPhase]
  · by_cases hthread : ans.thread = 0
    · simp [hcreate, hthread, InPhase]
    · simp [hcreate, hthread, InPhase]

theorem threadCreate_run {α : Type} {creates : α → Option CreateAnswers} {answers : α}
    (routine : Routine) (hans : creates answers = some ans) (h : InPhase ctx s phase) :
    (∃ s' phase', run pthreadStep s (threadCreate routine ans ctx).2.2 = some s' ∧
        nextPhase creates phase (.start answers) = some phase' ∧
        InPhase (threadCreate routine ans ctx).2.1 s' phase') ∨
      run pthreadStep s (threadCreate routine ans ctx).2.2 = none ∧
        nextPhase creates phase (.start answers) = none := by
  simp only [nextPhase, hans, threadCreate]
  by_cases hmutex : ans.mutexInit = 0
  · rw [if_neg (not_not_intro hmutex), if_neg (not_not_intro hmutex)]
    by_cases hidle : phase = .idle
    · subst hidle
      obtain rfl := h
      rw [if_neg (not_not_intro rfl)]
      by_cases hcond : ans.condInit = 0
      · rw [if_neg (not_not_intro hcond), if_neg (not_not_intro hcond)]
        refine .inl ⟨_, started ans, ?_, rfl, started_inPhase ans true⟩
        by_cases hcreate : ans.create = 0
        · rw [if_pos hcreate, if_pos hcreate]
          rfl
        · rw [if_neg hcreate, if_neg hcreate]
          rfl
      · rw [if_pos hcond, if_pos hcond]
        exact .inl ⟨.fresh, .idle, rfl, rfl, rfl⟩
    · -- the mutex is initialised already
      have hinit : s.mutex = true := h.mutex.trans (decide_eq_true hidle)
      have herror : pthreadStep s .mutexInit = none := if_pos hinit
      rw [if_pos hidle]
      refine .inr ⟨?_, rfl⟩
      split
      · exact run_cons_of_none herror
      · split <;> exact run_cons_of_none herror
  · rw [if_pos hmutex, if_pos hmutex]
    exact .inl ⟨s, phase, rfl, rfl, h.congr rfl⟩

end Step

/-! ## All calls -/

namespace Component

variable {c : Component} {routine : Routine} {p q : c.State} {s : Pthreads} {phase : Phase}
  {calls : List (Call c.Answers)}

/-- The phases are what the library allows, call by call. -/
theorem Wraps.step (hc : c.Wraps routine) (call : Call c.Answers)
    (h : InPhase (c.threadCtx p) s phase ∧ c.creates p = c.creates q) :
    (∃ s' phase', run pthreadStep s (c.emit p call) = some s' ∧
        nextPhase (c.creates q) phase call = some phase' ∧
        InPhase (c.threadCtx (c.move p call)) s' phase' ∧
        c.creates (c.move p call) = c.creates q) ∨
      run pthreadStep s (c.emit p call) = none ∧ nextPhase (c.creates q) phase call = none := by
  obtain ⟨hphase, hcreates⟩ := h
  have hkept := (hc.creates p call).trans hcreates
  cases call with
  | start answers =>
    cases hans : c.creates p answers with
    | none =>
      obtain ⟨hctx, hrun⟩ := hc.start_none p answers hans
      refine .inl ⟨s, phase, hrun s, ?_, hphase.congr hctx, hkept⟩
      rw [hcreates] at hans
      simp only [nextPhase, hans]
    | some ans =>
      obtain ⟨hctx, hrun⟩ := hc.start_some p answers ans hans
      rw [hcreates] at hans
      rcases threadCreate_run routine hans hphase with ⟨s', phase', hrun', hnext, hphase'⟩ | herror
      · rw [← hctx] at hphase'
        exact .inl ⟨s', phase', (hrun s).trans hrun', hnext, hphase', hkept⟩
      · exact .inr ⟨(hrun s).trans herror.1, herror.2⟩
  | stop =>
    have hrun := (hc.stop p s).trans (threadDestroy_run hphase)
    by_cases hlive : phase = .live
    · rw [if_pos hlive] at hrun
      exact .inl ⟨.fresh, .idle, hrun, if_pos hlive, rfl, hkept⟩
    · rw [if_neg hlive] at hrun
      exact .inr ⟨hrun, if_neg hlive⟩

theorem Orderly.no_stop_again (h : c.Orderly p calls) {before after : List (Call c.Answers)}
    (hcalls : calls = before ++ .stop :: after) : ¬ (after = [] ∨ after.head? = some .stop) := by
  unfold Orderly at h
  rw [hcalls] at h
  obtain ⟨phase, phase', -, hstop, hafter⟩ := run_split h
  obtain rfl : phase' = .idle := by
    simp only [nextPhase] at hstop
    split at hstop <;> cases hstop
    rfl
  rintro (rfl | hhead)
  · cases hafter
  · obtain ⟨rest, rfl⟩ := List.head?_eq_some_iff.mp hhead
    cases hafter

/-- **A life is safe exactly when the calls are orderly.** -/
theorem Wraps.safe_iff (hc : c.Wraps routine) : c.Safe p calls ↔ c.Orderly p calls := by
  have hrespects : Respects (c.trace p calls) ↔ c.Orderly p calls := by
    unfold Respects Orderly trace
    rw [run_append]
    have hstart : InPhase (c.threadCtx p) .fresh .idle ∧ c.creates p = c.creates p := ⟨rfl, rfl⟩
    rcases run_emits (R := fun q s phase => InPhase (c.threadCtx q) s phase ∧
        c.creates q = c.creates p) (fun _ _ _ call hR => hc.step call hR) hstart calls with
      ⟨s', phase', hrun, hnext, hphase, -⟩ | ⟨hrun, hnext⟩
    · rw [hrun, hnext, Option.bind_some, hc.destroy, threadDestroy_run hphase]
      by_cases hlive : phase' = .live
      · rw [if_pos hlive, hlive]
        exact iff_of_true ⟨.fresh, rfl, rfl⟩ rfl
      · rw [if_neg hlive]
        exact iff_of_false (fun ⟨_, h, _⟩ => nomatch h) fun h => hlive (Option.some.inj h)
    · rw [hrun, hnext]
      exact iff_of_false (fun ⟨_, h, _⟩ => nomatch h) (fun h => nomatch h)
  constructor
  · exact fun h => hrespects.mp h.respects
  · intro h
    exact ⟨hrespects.mpr h, fun _ _ hcalls hagain => absurd hagain (h.no_stop_again hcalls)⟩

end Component

/-! ## The four processors -/

/-- A processor whose start function only starts the thread. -/
def threadOwner (start : CreateAnswers → ThreadContext → Int × ThreadContext × List ThreadEvent)
    (stop : ThreadContext → ThreadContext × List ThreadEvent)
    (destroy : ThreadContext → List ThreadEvent) : Component where
  State := ThreadContext
  Answers := CreateAnswers
  start := start
  stop := stop
  destroy := destroy
  threadCtx := id
  creates := fun _ answers => some answers

def videoProcessor : Component :=
  threadOwner videoProcessorStart videoProcessorStop videoProcessorDestroy

def fusionProcessor : Component :=
  threadOwner fusionProcessorStart fusionProcessorStop fusionProcessorDestroy

def simulator : Component := threadOwner simulatorStart simulatorStop simulatorDestroy

def radarProcessor : Component where
  State := RadarProcessor
  Answers := PortAnswers × CreateAnswers
  start := radarProcessorStart
  stop := radarProcessorStop
  destroy := radarProcessorDestroy
  threadCtx := RadarProcessor.threadCtx
  creates := fun processor answers =>
    if (setupSerialPort answers.1 processor.baudRate).1 < 0 then none else some answers.2

theorem startThread_snd (routine : Routine) (ans : CreateAnswers) (ctx : ThreadContext) :
    (startThread routine ans ctx).2 = (threadCreate routine ans ctx).2 := by
  unfold startThread
  split
  next r ctx' evs h =>
    rw [h]
    split <;> rfl

theorem threadOwner_wraps (routine : Routine) :
    (threadOwner (startThread routine) threadDestroy fun ctx => (threadDestroy ctx).2).Wraps
      routine where
  start_none _ _ h := nomatch h
  start_some p a ans h := by
    cases h
    have heq := startThread_snd routine a p
    exact ⟨congrArg Prod.fst heq, fun s => congrArg (fun r => run pthreadStep s r.2) heq⟩
  stop _ _ := rfl
  destroy _ _ := rfl
  creates _ _ := rfl

theorem run_closed (s : Pthreads) (evs : List ThreadEvent) (fd : Int) :
    run pthreadStep s (evs ++ [.closed fd]) = run pthreadStep s evs := by
  rw [run_append]
  cases run pthreadStep s evs <;> rfl

theorem setupSerialPort_run (port : PortAnswers) (baudRate : Int) (s : Pthreads) :
    run pthreadStep s (setupSerialPort port baudRate).2 = some s := by
  unfold setupSerialPort
  split
  · rfl
  · split
    · rfl
    · split
      · rfl
      · split <;> rfl

section Radar

variable {processor : RadarProcessor} {ans : PortAnswers × CreateAnswers}

theorem radarProcessorStart_fails (h : (setupSerialPort ans.1 processor.baudRate).1 < 0) :
    radarProcessorStart ans processor =
      (-1, { processor with fd := (setupSerialPort ans.1 processor.baudRate).1 },
        (setupSerialPort ans.1 processor.baudRate).2) := by
  unfold radarProcessorStart
  exact if_pos h

theorem radarProcessorStart_opened (h : ¬ (setupSerialPort ans.1 processor.baudRate).1 < 0) :
    (radarProcessorStart ans processor).2.1.threadCtx =
        (threadCreate .radarProcessingThread ans.2 processor.threadCtx).2.1 ∧
      (radarProcessorStart ans processor).2.1.baudRate = processor.baudRate ∧
      ∀ s, run pthreadStep s (radarProcessorStart ans processor).2.2 =
        run pthreadStep s (threadCreate .radarProcessingThread ans.2 processor.threadCtx).2.2 := by
  have hport := setupSerialPort_run ans.1 processor.baudRate
  unfold radarProcessorStart
  simp only [if_neg h]
  split
  · refine ⟨rfl, rfl, fun s => ?_⟩
    rw [run_closed, run_append, hport]
    rfl
  · refine ⟨rfl, rfl, fun s => ?_⟩
    rw [run_append, hport]
    rfl

theorem radarProcessorStop_run (processor : RadarProcessor) :
    (radarProcessorStop processor).1.fd < 0 ∧
      (radarProcessorStop processor).1.baudRate = processor.baudRate ∧
      ∀ s, run pthreadStep s (radarProcessorStop processor).2 =
        run pthreadStep s (threadDestroy processor.threadCtx).2 := by
  unfold radarProcessorStop
  simp only
  split
  · exact ⟨(by decide : (-1 : Int) < 0), rfl, fun s => run_closed s _ _⟩
  · next h => exact ⟨Int.not_le.mp h, rfl, fun _ => rfl⟩

end Radar

theorem radarProcessor_wraps : radarProcessor.Wraps .radarProcessingThread where
  start_none processor ans h := by
    have hport : (setupSerialPort ans.1 processor.baudRate).1 < 0 := by
      by_contra hopen
      exact absurd ((if_neg hopen).symm.trans h) (Option.some_ne_none _)
    have hstart := radarProcessorStart_fails hport
    show (radarProcessorStart ans processor).2.1.threadCtx.thread = _ ∧
      ∀ s, run pthreadStep s (radarProcessorStart ans processor).2.2 = some s
    rw [hstart]
    exact ⟨rfl, setupSerialPort_run ans.1 processor.baudRate⟩
  start_some processor ans create h := by
    have hport : ¬ (setupSerialPort ans.1 processor.baudRate).1 < 0 := by
      intro hfail
      exact absurd ((if_pos hfail).symm.trans h) (Option.some_ne_none _).symm
    obtain rfl : ans.2 = create := Option.some.inj ((if_neg hport).symm.trans h)
    obtain ⟨hctx, -, hrun⟩ := radarProcessorStart_opened hport
    exact ⟨hctx, hrun⟩
  stop processor := (radarProcessorStop_run processor).2.2
  destroy processor s := by
    obtain ⟨hfd, -, hrun⟩ := radarProcessorStop_run processor
    have hdestroy : radarProcessorDestroy processor = (radarProcessorStop processor).2 :=
      if_neg (Int.not_le.mpr hfd)
    show run pthreadStep s (radarProcessorDestroy processor) = _
    rw [hdestroy]
    exact hrun s
  creates processor call := by
    have hbaud : (radarProcessor.move processor call).baudRate = processor.baudRate := by
      cases call with
      | start ans =>
        by_cases hport : (setupSerialPort ans.1 processor.baudRate).1 < 0
        · show (radarProcessorStart ans processor).2.1.baudRate = _
          rw [radarProcessorStart_fails hport]
        · exact (radarProcessorStart_opened hport).2.1
      | stop => exact (radarProcessorStop_run processor).2.1
    show (fun ans : PortAnswers × CreateAnswers => if (setupSerialPort ans.1
      (radarProcessor.move processor call).baudRate).1 < 0 then none else some ans.2) = _
    rw [hbaud]
    rfl

inductive Processor where
  | video
  | radar
  | fusion
  | simulator
  deriving DecidableEq, Repr

def Processor.component : Processor → Component
  | .video => videoProcessor
  | .radar => radarProcessor
  | .fusion => fusionProcessor
  | .simulator => Mec.simulator

/-- **Thread lifecycle.** For every processor, every state it is created in and every
sequence of calls, the life of its thread is safe exactly when the calls are
orderly. -/
theorem lifecycle_safe_iff (k : Processor) (p : k.component.State)
    (calls : List (Call k.component.Answers)) :
    k.component.Safe p calls ↔ k.component.Orderly p calls := by
  cases k with
  | video => exact (threadOwner_wraps .videoProcessingThread).safe_iff
  | radar => exact radarProcessor_wraps.safe_iff
  | fusion => exact (threadOwner_wraps .fusionProcessingThread).safe_iff
  | simulator => exact (threadOwner_wraps .simulatorThread).safe_iff

def startOk : Call CreateAnswers := .start ⟨0, 0, 0, 7⟩

/-- Start, stop, start and the final destroy. -/
example (ctx : ThreadContext) : fusionProcessor.Orderly ctx [startOk, .stop, startOk] := rfl

theorem not_respects_of_none {evs : List ThreadEvent} (h : run pthreadStep .fresh evs = none) :
    ¬ Respects evs := by
  rintro ⟨s, hrun, -⟩
  rw [h] at hrun
  cases hrun

/-- `main` stops a processor and destroys it, which stops it again: the mutex is
locked after its destruction. Destroying a processor that was never started locks
a mutex that was never initialised. -/
theorem main_cleanup_unsafe :
    ¬ fusionProcessor.Safe (⟨0, false⟩ : ThreadContext) [startOk, .stop] ∧
      ¬ fusionProcessor.Safe (⟨0, false⟩ : ThreadContext) [] :=
  ⟨fun h => not_respects_of_none rfl h.respects, fun h => not_respects_of_none rfl h.respects⟩

end Mec
