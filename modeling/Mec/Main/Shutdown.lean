import Mec.Main.Endings
import Mec.Thread.Lifecycle

/-!
# Shutdown

Once the loop is told to stop, few calls remain before `cleanup`. What `cleanup` leaves: the
track lists are given back, but stop and destroy both destroy a component's thread context,
which the thread library does not define.
-/

namespace Mec

open Lib.Lts

variable {K : Type}

/-- `thread_destroy` after `thread_destroy`: the mutex is locked after its destruction. -/
theorem threadDestroy_twice (s : Pthreads) (ctx ctx' : ThreadContext) :
    Lib.Typestate.run pthreadStep s ((threadDestroy ctx).2 ++ (threadDestroy ctx').2) = none := by
  cases hrun : Lib.Typestate.run pthreadStep s
      ((threadDestroy ctx).2 ++ (threadDestroy ctx').2) with
  | none => rfl
  | some t =>
    have hsplit : (threadDestroy ctx).2 ++ (threadDestroy ctx').2 =
        ([.mutexLock, .condBroadcast, .mutexUnlock] ++
          (if ctx.thread ≠ 0 then [.join ctx.thread] else [])) ++
            .mutexDestroy :: .condDestroy :: (threadDestroy ctx').2 := by
      simp [threadDestroy]
    rw [hsplit] at hrun
    obtain ⟨u, v, -, hdestroy, hrest⟩ := Lib.Typestate.run_split hrun
    have hmutex : v.mutex = false := by
      simp only [pthreadStep] at hdestroy
      split at hdestroy <;> cases hdestroy
      rfl
    obtain ⟨cond, hcond, hagain⟩ := Option.bind_eq_some_iff.mp hrest
    have hcond : cond.mutex = false := by
      simp only [pthreadStep] at hcond
      split at hcond <;> cases hcond
      exact hmutex
    have hlock : pthreadStep cond .mutexLock = none := by simp [pthreadStep, hcond]
    have hnone : Lib.Typestate.run pthreadStep cond (threadDestroy ctx').2 = none :=
      Lib.Typestate.run_cons_of_none hlock
    cases hnone.symm.trans hagain

/-- A call on the thread's context. -/
def ProgEvent.threadCall? (w : Worker) : ProgEvent K → Option ThreadEvent
  | .thread v call => if v = w then some call else none
  | _ => none

namespace MainPhase

/-- How many calls of `main` are left before `cleanup` once the loop's condition fails; a pop
that goes on waiting is none. -/
def callsLeft : MainPhase → Nat
  | loadConfig => 10
  | createQueue => 9
  | createFusion => 8
  | createVideo => 7
  | createRadar => 6
  | createSimulator | startVideo => 5
  | startSimulator | startRadar => 4
  | startFusion => 3
  | startMonitor => 2
  | popping => 5
  | idle => 4
  | feeding => 3
  | clearing => 2
  | loopTop => 1
  | cleanup _ | exited _ | undefined | killed => 0

theorem callsLeft_le (ph : MainPhase) : ph.callsLeft ≤ 10 := by
  cases ph <;> simp [callsLeft]

end MainPhase

def ProgAct.counts : ProgAct K → Bool
  | .call (.mecQueuePop woken _) => woken.any (· ≠ 0)
  | .call .cleanup => false
  | .call _ => true
  | _ => false

/-- The phase a call is made in before `cleanup`. -/
def ProgCall.phase? : ProgCall K → Option MainPhase
  | .configLoad _ => some .loadConfig
  | .mecQueueCreate _ => some .createQueue
  | .fusionProcessorCreate _ _ _ _ => some .createFusion
  | .simulatorCreate _ _ _ _ => some .createSimulator
  | .simulatorStart _ => some .startSimulator
  | .videoProcessorCreate _ _ _ => some .createVideo
  | .radarProcessorCreate _ _ _ => some .createRadar
  | .videoProcessorStart _ => some .startVideo
  | .radarProcessorStart _ => some .startRadar
  | .fusionProcessorStart _ => some .startFusion
  | .monitorStartService _ _ => some .startMonitor
  | .loopTop _ => some .loopTop
  | .mecQueuePop _ _ => some .popping
  | .idle _ => some .idle
  | .feed => some .feeding
  | .clear => some .clearing
  | .cleanup => none

namespace Program

variable [Field K] [LinearOrder K] {env : ProgEnv K} {s t : Program K} {simMode : Bool}
  {tr : ProgTrace K} {evs : List (ProgEvent K)}

/-- A call brings `cleanup` nearer. -/
structure Nearer (s : Program K) (c : ProgCall K) (t : Program K) : Prop where
  running : t.running = s.running
  callsLeft : s.running = false →
    t.phase.callsLeft + (if (ProgAct.call c).counts then 1 else 0) ≤ s.phase.callsLeft

omit [Field K] [LinearOrder K] in
theorem Nearer.of_lt {c : ProgCall K} (hrun : t.running = s.running)
    (hlt : t.phase.callsLeft < s.phase.callsLeft) : Nearer s c t where
  running := hrun
  callsLeft _ := by split <;> omega

omit [Field K] [LinearOrder K] in
theorem Nearer.of_phase {c : ProgCall K} {p : MainPhase} (hs : s.phase = p)
    (hrun : t.running = s.running) (hlt : decide (t.phase.callsLeft < p.callsLeft) = true) :
    Nearer s c t := .of_lt hrun (by rw [hs]; exact of_decide_eq_true hlt)

omit [Field K] [LinearOrder K] in
theorem startWorker_nearer {c : ProgCall K} {p ph : MainPhase} (hp : s.phase = p)
    (hph : ph.callsLeft < p.callsLeft) {w : Worker}
    {ret : Int × ThreadContext × List ThreadEvent} : Nearer s c (s.startWorker w ph ret).1 := by
  subst hp
  unfold startWorker
  split
  · exact .of_lt rfl ((Nat.zero_le _).trans_lt hph)
  · exact .of_lt rfl hph

theorem workerStep_frame {w : WorkerAct K} (hstep : workerStep env s w = some (t, evs)) :
    t.running = s.running ∧ t.phase = s.phase ∧ t.vars = s.vars := by
  cases w <;> simp only [workerStep] at hstep <;> repeat' split at hstep
  all_goals cases hstep <;> exact ⟨rfl, rfl, rfl⟩

theorem mecQueuePop_nearer (hinv : s.Inv) {woken : Option Int} {tv : Timeval}
    (hstep : callStep env s (.mecQueuePop woken tv) = some (t, evs)) :
    Nearer s (.mecQueuePop woken tv) t := by
  obtain ⟨hph, hstep⟩ := Option.ite_none_right_eq_some.mp hstep
  obtain ⟨-, ⟨q, hq, hcount⟩, ⟨p, hp⟩, -⟩ := hinv.data.loop hinv.control (by rw [hph]; rfl)
  have hwaits : mecQueuePop 500 q = .waits := by simp [mecQueuePop, hcount]
  rw [hq, hp] at hstep
  cases woken with
  | none =>
    simp only [Option.elim_none, hwaits] at hstep
    obtain ⟨rfl, rfl⟩ := Prod.mk.inj (Option.some.inj hstep)
    exact ⟨rfl, fun _ => by simp [ProgAct.counts]⟩
  | some rc =>
    by_cases hrc : rc = 0
    · simp only [Option.elim_some, mecQueuePopWoken, hwaits, hrc, ne_eq, not_true_eq_false,
        and_false, if_false] at hstep
      obtain ⟨rfl, rfl⟩ := Prod.mk.inj (Option.some.inj hstep)
      exact ⟨rfl, fun _ => by simp [ProgAct.counts, hrc]⟩
    · have hfailed : mecQueuePopWoken 500 rc q = .failed := if_pos ⟨by decide, hrc⟩
      simp only [Option.elim_some, hfailed] at hstep
      obtain ⟨rfl, rfl⟩ := Prod.mk.inj (Option.some.inj hstep)
      exact .of_phase hph rfl rfl

theorem loopTop_nearer (hinv : s.Inv) {load : LoadEnv}
    (hstep : callStep env s (.loopTop load) = some (t, evs)) : Nearer s (.loopTop load) t := by
  obtain ⟨hph, hstep⟩ := Option.ite_none_right_eq_some.mp hstep
  simp only [hinv.data.reload, Bool.false_eq_true, if_false] at hstep
  split at hstep
  · next hrun =>
    obtain ⟨rfl, rfl⟩ := Prod.mk.inj (Option.some.inj hstep)
    exact ⟨rfl, fun hstop => absurd (hrun.symm.trans hstop) nofun⟩
  · obtain ⟨rfl, rfl⟩ := Prod.mk.inj (Option.some.inj hstep)
    exact .of_phase hph rfl rfl

theorem idle_nearer (hinv : s.Inv) {now : Int}
    (hstep : callStep env s (.idle now) = some (t, evs)) : Nearer s (.idle now) t := by
  obtain ⟨hph, hstep⟩ := Option.ite_none_right_eq_some.mp hstep
  obtain ⟨hsim, ⟨q, hq, -⟩, ⟨p, hp⟩, list, l, hlist, hl⟩ :=
    hinv.data.loop hinv.control (by rw [hph]; rfl)
  have hbind : s.simVideo.bind s.heap.cell = some l := by rw [hlist]; exact hl
  split at hstep
  case h_2 hnone => exact absurd hp (hnone q p hq)
  simp only [if_pos hsim, hbind] at hstep
  obtain ⟨rfl, rfl⟩ := Prod.mk.inj (Option.some.inj hstep)
  refine .of_phase hph rfl ?_
  by_cases hcount : 0 < l.count <;> simp only [goto, hcount, if_true, if_false] <;> rfl

omit [Field K] [LinearOrder K] in
theorem afterCleanup_callsLeft (s : Program K) (c : MainPart) :
    (s.afterCleanup c).callsLeft = 0 := by
  cases c <;> rfl

omit [Field K] [LinearOrder K] in
theorem destroy_running (s : Program K) (c : MainPart) : (s.destroy c).running = s.running := by
  cases c <;> rfl

theorem cleanup_nearer (hstep : callStep env s .cleanup = some (t, evs)) : Nearer s .cleanup t := by
  simp only [callStep] at hstep
  split at hstep
  · next c hph =>
    have hafter := (s.afterCleanup_callsLeft c).le.trans (Nat.zero_le s.phase.callsLeft)
    split at hstep <;> obtain ⟨rfl, rfl⟩ := Prod.mk.inj (Option.some.inj hstep)
    · exact ⟨rfl, fun _ => hafter⟩
    · exact ⟨s.destroy_running c, fun _ => hafter⟩
    · exact ⟨rfl, fun _ => Nat.zero_le _⟩
    · exact ⟨rfl, fun _ => Nat.zero_le _⟩
  · cases hstep

theorem callStep_nearer (hinv : s.Inv) {c : ProgCall K}
    (hstep : callStep env s c = some (t, evs)) : Nearer s c t := by
  cases c with
  | mecQueuePop woken tv => exact mecQueuePop_nearer hinv hstep
  | loopTop load => exact loopTop_nearer hinv hstep
  | idle now => exact idle_nearer hinv hstep
  | cleanup => exact cleanup_nearer hstep
  | configLoad load =>
    obtain ⟨hph, hthen⟩ := Option.ite_none_right_eq_some.mp hstep
    rcases configLoad_cases load with ⟨config, hload⟩ | ⟨ret, hret, hload⟩
    · rw [hload] at hthen
      obtain ⟨rfl, rfl⟩ := Prod.mk.inj (Option.some.inj hthen)
      exact .of_phase hph rfl rfl
    · obtain ⟨v, -, hcall⟩ := callStep_unloaded env hret hload hph
      rw [hcall] at hstep
      dsimp only at hstep
      split at hstep <;> obtain ⟨rfl, rfl⟩ := Prod.mk.inj (Option.some.inj hstep) <;>
        exact .of_phase hph rfl rfl
  | mecQueueCreate ok =>
    obtain ⟨hph, hstep⟩ := Option.ite_none_right_eq_some.mp hstep
    split at hstep <;> obtain ⟨rfl, rfl⟩ := Prod.mk.inj (Option.some.inj hstep) <;>
      exact .of_phase hph rfl rfl
  | fusionProcessorCreate mallocOk callocOk ctx fresh =>
    obtain ⟨hph, hstep⟩ := Option.ite_none_right_eq_some.mp hstep
    split at hstep
    · obtain ⟨rfl, rfl⟩ := Prod.mk.inj (Option.some.inj hstep)
      exact .of_phase hph rfl rfl
    · dsimp only at hstep
      split at hstep
      · obtain ⟨rfl, rfl⟩ := Prod.mk.inj (Option.some.inj hstep)
        refine .of_phase hph rfl ?_
        cases s.simMode <;> rfl
      · obtain ⟨rfl, rfl⟩ := Prod.mk.inj (Option.some.inj hstep)
        exact .of_phase hph rfl rfl
  | simulatorCreate mallocOk ctx video radar =>
    obtain ⟨hph, hstep⟩ := Option.ite_none_right_eq_some.mp hstep
    split at hstep
    · split at hstep <;> obtain ⟨rfl, rfl⟩ := Prod.mk.inj (Option.some.inj hstep) <;>
        exact .of_phase hph rfl rfl
    · obtain ⟨rfl, rfl⟩ := Prod.mk.inj (Option.some.inj hstep)
      exact .of_phase hph rfl rfl
  | videoProcessorCreate mallocOk ctx fresh =>
    obtain ⟨hph, hstep⟩ := Option.ite_none_right_eq_some.mp hstep
    split at hstep
    · dsimp only at hstep
      split at hstep <;> obtain ⟨rfl, rfl⟩ := Prod.mk.inj (Option.some.inj hstep) <;>
        exact .of_phase hph rfl rfl
    · obtain ⟨rfl, rfl⟩ := Prod.mk.inj (Option.some.inj hstep)
      exact .of_phase hph rfl rfl
  | radarProcessorCreate mallocOk ctx fresh =>
    obtain ⟨hph, hstep⟩ := Option.ite_none_right_eq_some.mp hstep
    split at hstep
    · split at hstep <;> obtain ⟨rfl, rfl⟩ := Prod.mk.inj (Option.some.inj hstep) <;>
        exact .of_phase hph rfl rfl
    · obtain ⟨rfl, rfl⟩ := Prod.mk.inj (Option.some.inj hstep)
      exact .of_phase hph rfl rfl
  | simulatorStart _ | videoProcessorStart _ | radarProcessorStart _ | fusionProcessorStart _ =>
    obtain ⟨hph, hstep⟩ := Option.ite_none_right_eq_some.mp hstep
    obtain ⟨rfl, rfl⟩ := Prod.mk.inj (Option.some.inj hstep)
    exact startWorker_nearer hph (by decide)
  | monitorStartService mallocOk ans =>
    obtain ⟨hph, hstep⟩ := Option.ite_none_right_eq_some.mp hstep
    split at hstep
    · dsimp only at hstep
      split at hstep <;> obtain ⟨rfl, rfl⟩ := Prod.mk.inj (Option.some.inj hstep) <;>
        exact .of_phase hph rfl rfl
    · obtain ⟨rfl, rfl⟩ := Prod.mk.inj (Option.some.inj hstep)
      exact .of_phase hph rfl rfl
  | feed =>
    obtain ⟨hph, hstep⟩ := Option.ite_none_right_eq_some.mp hstep
    split at hstep <;> obtain ⟨rfl, rfl⟩ := Prod.mk.inj (Option.some.inj hstep) <;>
      exact .of_phase hph rfl rfl
  | clear =>
    obtain ⟨hph, hstep⟩ := Option.ite_none_right_eq_some.mp hstep
    obtain ⟨rfl, rfl⟩ := Prod.mk.inj (Option.some.inj hstep)
    exact .of_phase hph rfl rfl

/-- The condition of the loop, once false, stays so, and every call counts down. -/
theorem progStep_nearer (hinv : s.Inv) (hstop : s.running = false) {a : ProgAct K}
    (hstep : progStep env s a = some (t, evs)) : t.running = false ∧
      t.phase.callsLeft + (if a.counts then 1 else 0) ≤ s.phase.callsLeft := by
  cases a with
  | call c =>
    obtain ⟨-, hstep⟩ := Option.ite_none_right_eq_some.mp hstep
    have hnearer := callStep_nearer hinv hstep
    exact ⟨hnearer.running.trans hstop, hnearer.callsLeft hstop⟩
  | worker w =>
    obtain ⟨hactive, hstep⟩ := Option.ite_none_right_eq_some.mp hstep
    obtain ⟨hrun, hph, -⟩ := workerStep_frame hstep
    exact ⟨hrun.trans hstop, by simp [hph, ProgAct.counts]⟩
  | signal sig =>
    obtain ⟨hactive, hstep⟩ := Option.ite_none_right_eq_some.mp hstep
    split at hstep
    · obtain ⟨rfl, rfl⟩ := Prod.mk.inj (Option.some.inj hstep)
      cases sig <;> exact ⟨by first | rfl | exact hstop, le_rfl⟩
    · obtain ⟨rfl, rfl⟩ := Prod.mk.inj (Option.some.inj hstep)
      exact ⟨hstop, Nat.zero_le _⟩

/-- The call that comes next is made whatever the outside answers. -/
theorem callStep_isSome {c : ProgCall K} (hnext : c.phase? = some s.phase) :
    (callStep env s c).isSome := by
  cases c
  case cleanup => cases hnext
  all_goals
    simp only [callStep, if_pos (Option.some.inj hnext).symm]
    repeat' split
  all_goals rfl

/-- **Shutdown.** Once SIGINT or SIGTERM was handled `main` makes at most ten more calls
before it comes to `cleanup`, waits in the pop aside and whatever the threads do meanwhile;
and as long as it has not come there the next call goes through. -/
theorem shutdown_bounded {tr' : ProgTrace K} (h : Run (progStep env) (start simMode) tr s)
    (hstop : s.running = false) (h' : Run (progStep env) s tr' t) :
    (tr'.filter (·.1.counts)).length ≤ 10 ∧
      (t.phase.up → ∀ c : ProgCall K, c.phase? = some t.phase →
        (progStep env t (.call c)).isSome) := by
  have hmax := s.phase.callsLeft_le
  obtain ⟨⟨hinv, -⟩, hleft⟩ := h'.budget (I := fun u : Program K => u.Inv ∧ u.running = false)
    (fun u => u.phase.callsLeft) (fun x => x.1.counts)
    (fun u a v evs hu hstep => by
      obtain ⟨hv, hnearer⟩ := progStep_nearer hu.1 hu.2 hstep
      exact ⟨⟨hu.1.step hstep, hv⟩, hnearer⟩)
    ⟨inv_of_run h, hstop⟩
  rw [List.countP_eq_length_filter] at hleft
  refine ⟨by omega, fun hup c hnext => ?_⟩
  rw [MainPhase.up, Bool.and_eq_true] at hup
  rw [progStep, if_pos hup.1]
  exact callStep_isSome hnext

theorem shutdown_bounded_sigint :
    let s := (played true untilSigint).2
    let tr := (play (progStep ProgEnv.rat) s afterSigint).1
    let t := (play (progStep ProgEnv.rat) s afterSigint).2
    (tr.filter (·.1.counts)).length ≤ 10 ∧
      (t.phase.up → ∀ c : ProgCall ℚ, c.phase? = some t.phase →
        (progStep ProgEnv.rat t (.call c)).isSome) :=
  shutdown_bounded (run_play (progStep ProgEnv.rat) (start true) untilSigint) rfl
    (run_play (progStep ProgEnv.rat) _ afterSigint)

/-! ## After `cleanup` -/

/-- In some state of the run `c` was there. -/
def Had (env : ProgEnv K) (simMode : Bool) (tr : ProgTrace K) (c : MainPart) : Prop :=
  Visits (progStep env) (start simMode) tr fun u => u.vars c = .here

/-- The calls on a thread's context in a run. -/
def threadTrace (w : Worker) (tr : ProgTrace K) : List ThreadEvent :=
  tr.flatMap fun x => x.2.filterMap (ProgEvent.threadCall? w)

omit [Field K] [LinearOrder K] in
theorem threadTrace_snoc (w : Worker) (tr : ProgTrace K) (x : ProgAct K × List (ProgEvent K)) :
    threadTrace w (tr ++ [x]) = threadTrace w tr ++ x.2.filterMap (ProgEvent.threadCall? w) := by
  simp [threadTrace]

omit [Field K] [LinearOrder K] in
/-- Stop and destroy make the same calls. -/
theorem destroyCalls_eq (s : Program K) {c : MainPart} {w : Worker} (hc : c.worker? = some w)
    (hw : w ≠ .monitor) : s.destroyCalls c =
      (threadDestroy (s.ctx w)).2 ++ (threadDestroy (threadDestroy (s.ctx w)).1).2 := by
  cases c <;> cases hc <;> first | rfl | exact absurd rfl hw

omit [Field K] [LinearOrder K] in
theorem destroyEvents_calls (s : Program K) {c : MainPart} {w : Worker} (hc : c.worker? = some w) :
    (s.destroyEvents c).filterMap (ProgEvent.threadCall? w) = s.destroyCalls c := by
  have hmap (calls : List ThreadEvent) :
      (calls.map (ProgEvent.thread w : _ → ProgEvent K)).filterMap (ProgEvent.threadCall? w) =
        calls := by
    induction calls with
    | nil => rfl
    | cons call calls ih => simp [ProgEvent.threadCall?, ih]
  rw [destroyEvents, hc]
  simp only [List.filterMap_append, hmap]
  exact List.append_nil _

theorem progStep_destroys (hinv : s.Inv) {a : ProgAct K}
    (hstep : progStep env s a = some (t, evs)) {c : MainPart} {w : Worker}
    (hc : c.worker? = some w) (hhere : s.vars c = .here) :
    t.vars c = .here ∨ evs = s.destroyEvents c := by
  have hne : c ≠ .config ∧ c ≠ .queue := by
    constructor <;> rintro rfl <;> cases hc
  rcases (progStep_does hinv hstep).move.here_or hinv.control hne.1 hne.2 hhere with hsame | hph
  · exact .inl hsame
  have hph : s.phase = .cleanup c := hph
  cases a with
  | call call =>
    obtain ⟨-, hstep⟩ := Option.ite_none_right_eq_some.mp hstep
    cases call
    case cleanup =>
      simp only [callStep, hph, hhere] at hstep
      exact .inr (Prod.mk.inj (Option.some.inj hstep)).2.symm
    all_goals
      obtain ⟨hother, -⟩ := Option.ite_none_right_eq_some.mp hstep
      cases hph.symm.trans hother
  | worker w =>
    obtain ⟨-, hstep⟩ := Option.ite_none_right_eq_some.mp hstep
    exact .inl ((congrFun (workerStep_frame hstep).2.2 c).trans hhere)
  | signal sig =>
    obtain ⟨-, hstep⟩ := Option.ite_none_right_eq_some.mp hstep
    split at hstep <;> obtain ⟨rfl, rfl⟩ := Prod.mk.inj (Option.some.inj hstep)
    · cases sig <;> exact .inl hhere
    · exact .inl hhere

/-- A component that `main` had is there, or the library does not define what was done to its
context. -/
theorem broken_of_run (h : Run (progStep env) (start simMode) tr s) {c : MainPart} {w : Worker}
    (hc : c.worker? = some w) (hw : w ≠ .monitor) (hhad : Had env simMode tr c) :
    s.vars c = .here ∨ Lib.Typestate.run pthreadStep .fresh (threadTrace w tr) = none := by
  induction tr using List.reverseRecOn generalizing s with
  | nil =>
    cases h
    have hhere : (start simMode : Program K).vars c = .here :=
      Visits.nil_iff (P := fun u : Program K => u.vars c = .here).mp hhad
    exact .inl hhere
  | append_singleton tr x ih =>
    rcases h.visits_snoc.mp hhad with hbefore | hhere
    · obtain ⟨u, hu, hlast⟩ := h.split
      cases hlast with
      | @cons _ _ _ a evs _ hstep hnil =>
        cases hnil
        rw [threadTrace_snoc, Lib.Typestate.run_append]
        rcases ih hu hbefore with hhere | hbroken
        · refine (progStep_destroys (inv_of_run hu) hstep hc hhere).imp_right fun hevs => ?_
          show (Lib.Typestate.run pthreadStep _ _).bind (fun t => Lib.Typestate.run pthreadStep t
            (evs.filterMap (ProgEvent.threadCall? w))) = none
          rw [hevs, destroyEvents_calls u hc, destroyCalls_eq u hc hw]
          simp [threadDestroy_twice]
        · rw [hbroken]
          exact .inr rfl
    · exact .inl hhere

/-- **What an exit leaves.** When `main` returns, every track list ever created was freed
exactly once and none is left; but what was done to the thread context of each component it
had, the monitor's aside, the thread library does not define: the stop before the destroy has
destroyed it already. -/
theorem exit_leaves (h : Run (progStep env) (start simMode) tr s) {status : Int}
    (hexit : s.phase = .exited status) :
    (∀ p, s.heap.cell p = none) ∧
      (∀ p : Nat, s.heap.freed.count p = if p < s.heap.next then 1 else 0) ∧
      ∀ c w, c.worker? = some w → w ≠ .monitor → Had env simMode tr c →
        ¬Respects (threadTrace w tr) := by
  obtain ⟨hcontrol, -, hdata⟩ := inv_of_run h
  have hdown : ∀ c, s.vars c ≠ .here := hcontrol.down_of hexit
  have hnone : ∀ {α : Type} {x : Option α} {c : MainPart}, (s.vars c = .here ↔ x.isSome) →
      x = none := fun {_ x c} hx => by
    cases x with
    | none => rfl
    | some _ => exact absurd (hx.mpr rfl) (hdown c)
  have hrefs : s.refs = [] := by
    simp [refs, slots, lists, hnone hdata.queue, hnone hdata.simVideo, hnone hdata.simRadar,
      hdata.video (hdown _), hdata.radar (hdown _)]
  have howned := hdata.owned
  rw [hrefs] at howned
  have hcell : ∀ p, s.heap.cell p = none := fun p => by
    cases hp : s.heap.cell p with
    | none => rfl
    | some l =>
      obtain ⟨hcount, hpos⟩ := howned.counted.live p l.refCount (ListHeap.counts_of_cell hp)
      rw [List.count_nil] at hcount
      omega
  refine ⟨hcell, fun p => ?_, fun c w hc hw hhad => ?_⟩
  · rw [howned.freed p]
    simp [hcell]
  · exact not_respects_of_none ((broken_of_run h hc hw hhad).resolve_left (hdown c))

theorem exit_leaves_sigint :
    let run := played true (untilSigint ++ afterSigint)
    run.2.phase = .exited 0 ∧ (∀ p, run.2.heap.cell p = none) ∧
      ¬Respects (threadTrace .fusion run.1) := by
  have hleaves := exit_leaves (run_play (progStep ProgEnv.rat) (start true)
    (untilSigint ++ afterSigint)) (show _ = MainPhase.exited 0 from rfl)
  refine ⟨rfl, hleaves.1, hleaves.2.2 .fusion .fusion rfl nofun ?_⟩
  exact ⟨(played true untilSigint).1, (play (progStep ProgEnv.rat) (played true untilSigint).2
    afterSigint).1, _, rfl, run_play _ _ _, rfl⟩

end Program

end Mec
