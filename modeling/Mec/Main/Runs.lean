import Mec.Main.Skeleton
import Mec.Radar.Delivery

/-!
# Runs of the whole program

A step of the program is a move of its skeleton and keeps `Data`: the objects that
`main`'s variables say are there exist, the heap accounts for every reference to a track
list, in simulation the queue is empty, and no reload is ever asked for. What follows
for whole runs, over any interleaving of `main`, the threads and the signals.
-/

namespace Mec

open Lib.Lts

variable {K : Type}

namespace ProgEvent

/-- Nothing a run of the program should not show, or never shows; `up` says that `cleanup`
has not begun. -/
def quiet (up : Bool) : ProgEvent K → Bool
  | reloaded | popped _ | recorded | encoded _ => false
  | fault _ => !up
  | reported frames => frames = 0
  | _ => true

theorem quiet_mono {up up' : Bool} (h : up' = true → up = true) {e : ProgEvent K}
    (he : e.quiet up) : e.quiet up' := by
  cases e with
  | fault w =>
    cases up' with
    | false => rfl
    | true =>
      rw [h rfl] at he
      cases he
  | _ => exact he

end ProgEvent

/-- The call is one of the three `main` cannot do without, and is refused. -/
def ProgAct.refused : ProgAct K → Bool
  | .call (.configLoad load) => (configLoad load).1 ≠ .ok
  | .call (.mecQueueCreate ok) => !ok
  | .call (.fusionProcessorCreate mallocOk callocOk _ _) => !(mallocOk && callocOk)
  | _ => false

namespace Program

def skeleton (s : Program K) : Skeleton where
  phase := s.phase
  simMode := s.simMode
  ok := decide (s.ret = .code .ok)
  vars := s.vars
  alive := s.alive

/-- The lists the components hold a reference to. -/
def lists (s : Program K) : List ListPtr :=
  s.simVideo.toList ++ s.simRadar.toList ++ s.videoList.toList ++ s.radarList.toList

/-- The references of the queue's slots. -/
def slots (s : Program K) : List ListPtr := (s.queue.map MecQueue.pointers).getD []

def refs (s : Program K) : List ListPtr := s.slots ++ s.lists

/-- **Invariant** of the program's data. -/
structure Data (s : Program K) : Prop where
  queue : s.vars .queue = .here ↔ s.queue.isSome
  processor : s.vars .fusion = .here ↔ s.processor.isSome
  simVideo : s.vars .simulator = .here ↔ s.simVideo.isSome
  simRadar : s.vars .simulator = .here ↔ s.simRadar.isSome
  video : s.vars .video ≠ .here → s.videoList = none
  radar : s.vars .radar ≠ .here → s.radarList = none
  coherent : ∀ q ∈ s.queue, q.Coherent
  owned : s.heap.Accounted s.refs
  empty : s.simMode → ∀ q ∈ s.queue, q.count = 0
  reload : s.reloadConfig = false
  frames : s.frames = 0

/-- What a step does. -/
structure Does (s : Program K) (refused : Bool) (t : Program K) (evs : List (ProgEvent K)) :
    Prop where
  move : s.skeleton.Move refused t.skeleton
  data : t.Data
  quiet : ∀ e ∈ evs, e.quiet s.phase.up

variable {s t : Program K} {up : Bool}

theorem quiet_nil : ∀ e ∈ ([] : List (ProgEvent K)), e.quiet up := fun _ he =>
  absurd he List.not_mem_nil

theorem quiet_single {e : ProgEvent K} (h : e.quiet up) : ∀ x ∈ [e], x.quiet up := fun x hx => by
  rwa [List.mem_singleton.mp hx]

theorem quiet_append {xs ys : List (ProgEvent K)} (hx : ∀ e ∈ xs, e.quiet up)
    (hy : ∀ e ∈ ys, e.quiet up) : ∀ e ∈ xs ++ ys, e.quiet up := fun e he =>
  (List.mem_append.mp he).elim (hx e) (hy e)

theorem quiet_thread (w : Worker) (calls : List ThreadEvent) :
    ∀ e ∈ calls.map (ProgEvent.thread w), (e : ProgEvent K).quiet up := by
  intro e he
  obtain ⟨call, -, rfl⟩ := List.mem_map.mp he
  rfl

theorem quiet_destroyEvents (s : Program K) (c : MainPart) :
    ∀ e ∈ s.destroyEvents c, e.quiet up := by
  unfold destroyEvents
  split
  · exact quiet_append (quiet_thread _ _) (quiet_single rfl)
  · exact quiet_single rfl

/-! ### Edits of a list -/

theorem Data.edit (h : s.Data) {list : Option ListPtr} (hlist : ∀ p ∈ list, p ∈ s.refs)
    (ops : List (ListOp K)) : (s.edit list ops).Accounted s.refs := by
  unfold Program.edit
  split
  · exact h.owned
  · next p =>
    obtain ⟨l, hl⟩ := h.owned.cell_of_mem (hlist p rfl)
    rw [hl]
    exact h.owned.edit hl (runOps_refCount l ops)

theorem mem_refs_of_list {p : ListPtr} (h : p ∈ s.simVideo ∨ p ∈ s.simRadar ∨ p ∈ s.videoList ∨
    p ∈ s.radarList) : p ∈ s.refs := by
  simp only [refs, lists, List.mem_append, Option.mem_toList]
  tauto

theorem Data.withQueue (h : s.Data) (hq : s.queue.isSome) {heap : ListHeap K} {q : MecQueue}
    (hcoh : q.Coherent) (howned : heap.Accounted (q.pointers ++ s.lists))
    (hempty : s.simMode → q.count = 0) : { s with heap := heap, queue := some q }.Data :=
  { h with
    queue := by simp [h.queue, hq]
    coherent := fun q' hq' => by
      obtain rfl := Option.some.inj hq'
      exact hcoh
    owned := howned
    empty := fun hs q' hq' => by
      obtain rfl := Option.some.inj hq'
      exact hempty hs }

theorem Data.push (h : s.Data) (hsim : s.simMode = false) {list : Option ListPtr}
    (hlist : ∀ p ∈ list, p ∈ s.refs) (ops : List (ListOp K)) {q : MecQueue} (hq : s.queue = some q)
    (sensorId : Int) (timestamp : Timeval) :
    ({ s with heap := s.edit list ops }.push q { sensorId, tracks := list, timestamp }).Data := by
  have howned := h.edit hlist ops
  have hcoh := h.coherent q hq
  have hsome : s.queue.isSome := by rw [hq]; rfl
  have hrefs : s.refs = q.pointers ++ s.lists := by rw [refs, slots, hq]; rfl
  have hreal : s.simMode → ∀ q : MecQueue, q.count = 0 := fun hs =>
    absurd (hsim.symm.trans hs) nofun
  cases list with
  | none =>
    rw [hrefs] at howned
    exact h.withQueue hsome hcoh howned fun hs => hreal hs q
  | some p =>
    have hmem := hlist p rfl
    have htracks : (MecMsg.mk sensorId (some p) timestamp).tracks = some p := rfl
    rcases mecQueuePush_cases (s.edit (some p) ops) q htracks with ⟨hroom, hpush⟩ | ⟨-, hpush⟩
    · have hretained := howned.retain hmem
      have hpointers := hcoh.pointers_enqueue hroom htracks
      unfold Program.push
      rw [hpush]
      refine h.withQueue hsome (hcoh.enqueue hroom _) ?_ fun hs => hreal hs _
      rw [hpointers, List.append_assoc]
      rw [hrefs] at hretained
      exact hretained.perm List.perm_middle.symm
    · unfold Program.push
      rw [hpush]
      rw [hrefs] at howned
      exact h.withQueue hsome hcoh howned fun hs => hreal hs q

/-! ### The threads -/

theorem Data.edited (h : s.Data) {list : Option ListPtr} (hlist : ∀ p ∈ list, p ∈ s.refs)
    (ops : List (ListOp K)) : { s with heap := s.edit list ops }.Data :=
  { h with owned := h.edit hlist ops }

theorem Does.stay (hactive : s.phase.active) (ht : t.Data) (hskel : t.skeleton = s.skeleton)
    {evs : List (ProgEvent K)} (hquiet : ∀ e ∈ evs, e.quiet s.phase.up) : Does s false t evs where
  move := by
    rw [hskel]
    exact .stay hactive
  data := ht
  quiet := hquiet

variable [Field K] [LinearOrder K] {env : ProgEnv K} {evs : List (ProgEvent K)}

omit [Field K] [LinearOrder K] in
/-- A thread finds what it works on, until `cleanup` has begun. -/
theorem fault_quiet (hc : s.skeleton.Control) {w : Worker} (halive : s.alive w = true)
    (hmissing : ¬∀ c ∈ w.uses, s.vars c = .here) :
    (ProgEvent.fault w : ProgEvent K).quiet s.phase.up := by
  by_contra hup
  have hup : s.phase.up = true := by simpa [ProgEvent.quiet] using hup
  exact hmissing (hc.workers hup w halive)

theorem workerStep_does (hc : s.skeleton.Control) (h : s.Data) (hactive : s.phase.active)
    {w : WorkerAct K} (hstep : workerStep env s w = some (t, evs)) : Does s false t evs := by
  -- a sensor is there in real mode only
  have hsensor : ∀ c, c = .video ∨ c = .radar → s.vars c = .here → s.simMode = false := by
    rintro c (rfl | rfl) hv
    · exact Bool.eq_false_iff.mpr fun hs => (hc.sensors hs).2.1 hv
    · exact Bool.eq_false_iff.mpr fun hs => (hc.sensors hs).2.2 hv
  have hstay : ∀ {e : ProgEvent K}, e.quiet s.phase.up → Does s false s [e] := fun he =>
    .stay hactive h rfl (quiet_single he)
  cases w with
  | videoFrame track fresh =>
    simp only [workerStep] at hstep
    split at hstep
    · next halive =>
      split at hstep
      · next q hvideo hq =>
        obtain ⟨rfl, rfl⟩ := Prod.mk.inj (Option.some.inj hstep)
        exact .stay hactive (h.push (hsensor _ (.inl rfl) hvideo)
          (fun p hp => mem_refs_of_list (.inr (.inr (.inl hp)))) _ hq 1 _) rfl quiet_nil
      · next hmissing =>
        obtain ⟨rfl, rfl⟩ := Prod.mk.inj (Option.some.inj hstep)
        refine hstay (fault_quiet hc halive fun huses => ?_)
        obtain ⟨q, hq⟩ := Option.isSome_iff_exists.mp (h.queue.mp (huses .queue (by decide)))
        exact hmissing q (huses .video (by decide)) hq
    · cases hstep
  | radarFrame detection old fresh =>
    simp only [workerStep] at hstep
    split at hstep
    · next halive =>
      split at hstep
      · next q hradar hq =>
        split at hstep
        · obtain ⟨rfl, rfl⟩ := Prod.mk.inj (Option.some.inj hstep)
          exact .stay hactive h rfl quiet_nil
        · obtain ⟨rfl, rfl⟩ := Prod.mk.inj (Option.some.inj hstep)
          exact .stay hactive (h.push (hsensor _ (.inr rfl) hradar)
            (fun p hp => mem_refs_of_list (.inr (.inr (.inr hp)))) _ hq 2 _) rfl quiet_nil
      · next hmissing =>
        obtain ⟨rfl, rfl⟩ := Prod.mk.inj (Option.some.inj hstep)
        refine hstay (fault_quiet hc halive fun huses => ?_)
        obtain ⟨q, hq⟩ := Option.isSome_iff_exists.mp (h.queue.mp (huses .queue (by decide)))
        exact hmissing q (huses .radar (by decide)) hq
    · cases hstep
  | inject track fresh =>
    simp only [workerStep] at hstep
    split at hstep
    · next halive =>
      split at hstep
      · split at hstep
        · obtain ⟨rfl, rfl⟩ := Prod.mk.inj (Option.some.inj hstep)
          exact .stay hactive (h.edited (fun p hp => mem_refs_of_list (.inl hp)) _) rfl quiet_nil
        · split at hstep
          · obtain ⟨rfl, rfl⟩ := Prod.mk.inj (Option.some.inj hstep)
            exact .stay hactive (h.edited (fun p hp => mem_refs_of_list (.inr (.inl hp))) _) rfl
              quiet_nil
          · obtain ⟨rfl, rfl⟩ := Prod.mk.inj (Option.some.inj hstep)
            exact .stay hactive h rfl quiet_nil
      · next hmissing =>
        obtain ⟨rfl, rfl⟩ := Prod.mk.inj (Option.some.inj hstep)
        exact hstay (fault_quiet hc halive fun huses => hmissing (huses .simulator (by decide)))
    · cases hstep
  | restart =>
    simp only [workerStep] at hstep
    split at hstep
    · next halive =>
      split at hstep
      · obtain ⟨rfl, rfl⟩ := Prod.mk.inj (Option.some.inj hstep)
        have hvideo := h.edited (fun p hp => mem_refs_of_list (.inl hp)) [.clear]
        exact .stay hactive (hvideo.edited (fun p hp => mem_refs_of_list (.inr (.inl hp))) _) rfl
          quiet_nil
      · next hmissing =>
        obtain ⟨rfl, rfl⟩ := Prod.mk.inj (Option.some.inj hstep)
        exact hstay (fault_quiet hc halive fun huses => hmissing (huses .simulator (by decide)))
    · cases hstep
  | pass penv =>
    simp only [workerStep] at hstep
    split at hstep
    · next halive =>
      split at hstep
      · next p hp =>
        obtain ⟨rfl, rfl⟩ := Prod.mk.inj (Option.some.inj hstep)
        have hdata : { s with processor := some (fusionPass env.libm penv p) }.Data :=
          { h with processor := by simp [h.processor, hp] }
        exact .stay hactive hdata rfl (quiet_single rfl)
      · next hnone =>
        obtain ⟨rfl, rfl⟩ := Prod.mk.inj (Option.some.inj hstep)
        refine hstay (fault_quiet hc halive fun huses => ?_)
        have hsome := h.processor.mp (huses .fusion (by decide))
        rw [hnone] at hsome
        cases hsome
    · cases hstep
  | query =>
    simp only [workerStep] at hstep
    split at hstep
    · next halive =>
      split at hstep
      · obtain ⟨rfl, rfl⟩ := Prod.mk.inj (Option.some.inj hstep)
        exact .stay hactive h rfl (quiet_single rfl)
      · next hmissing =>
        obtain ⟨rfl, rfl⟩ := Prod.mk.inj (Option.some.inj hstep)
        refine hstay (fault_quiet hc halive fun huses => ?_)
        obtain ⟨p, hp⟩ := Option.isSome_iff_exists.mp (h.processor.mp (huses .fusion (by decide)))
        exact hmissing p (huses .monitor (by decide)) hp
    · cases hstep

end Program

theorem configLoad_cases (load : LoadEnv) :
    (∃ config, configLoad load = (.ok, some config)) ∨
      ∃ ret, ret ≠ .ok ∧ configLoad load = (ret, none) := by
  unfold configLoad
  split
  · exact .inr ⟨.notFound, by decide, rfl⟩
  · split
    · split
      · exact .inl ⟨_, rfl⟩
      · exact .inr ⟨.initFailed, by decide, rfl⟩
    · exact .inr ⟨.outOfMemory, by decide, rfl⟩

theorem simulatorCreate_cases (mallocOk : Bool) (video radar : Fresh K) {h : ListHeap K}
    {refs : List ListPtr} (ha : h.Accounted refs) :
    (∃ v r h', simulatorCreate mallocOk video radar h = (some (v, r), h') ∧
      h'.Accounted (r :: v :: refs)) ∨
    ∃ h', simulatorCreate mallocOk video radar h = (none, h') ∧ h'.Accounted refs := by
  unfold simulatorCreate
  cases mallocOk with
  | false => exact .inr ⟨h, rfl, ha⟩
  | true =>
    rw [if_pos rfl]
    dsimp only
    rcases ha.create video 100 with ⟨_, -, hv, hav⟩ | hv
    · rw [hv] at hav ⊢
      dsimp only at hav ⊢
      rcases hav.create radar 100 with ⟨_, -, hr, har⟩ | hr
      · rw [hr] at har ⊢
        exact .inl ⟨_, _, _, rfl, har⟩
      · rw [hr]
        exact .inr ⟨_, rfl, hav.release⟩
    · rw [hv]
      dsimp only
      rcases ha.create radar 100 with ⟨_, -, hr, har⟩ | hr
      · rw [hr] at har ⊢
        exact .inr ⟨_, rfl, har.release⟩
      · rw [hr]
        exact .inr ⟨_, rfl, ha⟩

/-- A port without a baud rate is not set up, whatever the device answers. -/
theorem radarProcessorStart_unset (ans : PortAnswers × CreateAnswers) {processor : RadarProcessor}
    (h : processor.baudRate = 0) : (radarProcessorStart ans processor).1 ≠ 0 := by
  have hfd : (setupSerialPort ans.1 0).1 = -1 := by
    unfold setupSerialPort
    split
    · rfl
    · split
      · rfl
      · rfl
  unfold radarProcessorStart
  simp [h, hfd]

namespace Program

variable {s t : Program K} {evs : List (ProgEvent K)}

/-! ### The calls of `main` -/

theorem startWorker_zero {ret : Int × ThreadContext × List ThreadEvent} (h : ret.1 = 0)
    (w : Worker) (ph : MainPhase) : s.startWorker w ph ret =
      (((s.setCtx w ret.2.1).spawn w).goto ph, ret.2.2.map (.thread w) ++ [.started w]) := by
  rw [startWorker, if_neg (not_not.mpr h)]

theorem startWorker_does (h : s.Data) {p ph : MainPhase} (hp : s.phase = p) (hbody : p.body)
    (hloop : p.inLoop = false) (hne : p ≠ .createSimulator) {w : Worker}
    {ret : Int × ThreadContext × List ThreadEvent}
    (hstarts : ret.1 = 0 → Skeleton.Starts p w ph) :
    Does s false (s.startWorker w ph ret).1 (s.startWorker w ph ret).2 := by
  by_cases hcode : ret.1 = 0
  · rw [startWorker_zero hcode]
    exact ⟨.started hp (hstarts hcode), { h with },
      quiet_append (quiet_thread w _) (quiet_single rfl)⟩
  · rw [startWorker, if_pos hcode]
    rw [← show s.skeleton.phase = p from hp] at hbody hloop
    exact ⟨.failed hbody hloop fun hsim => absurd (hp.symm.trans hsim) hne, { h with },
      quiet_thread w _⟩

variable [Field K] [LinearOrder K] {env : ProgEnv K}

theorem callStep_unloaded (env : ProgEnv K) {load : LoadEnv} {ret : MecErrorCode} (hret : ret ≠ .ok)
    (hload : configLoad load = (ret, none)) (hph : s.phase = .loadConfig) :
    ∃ v, (v = .null ∨ v = .gone) ∧ callStep env s (.configLoad load) =
      let s' := { s with ret := .code ret, config := none }.set .config v
      if s.simMode then some (s'.goto .createQueue, [])
      else some (s'.fail (.code .initFailed), []) := by
  refine ⟨if ret = .initFailed then .gone else .null, by split <;> simp, ?_⟩
  simp only [callStep, if_pos hph, hload]
  cases ret <;> first | exact absurd rfl hret | rfl

theorem configLoad_does (h : s.Data) {load : LoadEnv}
    (hstep : callStep env s (.configLoad load) = some (t, evs)) :
    Does s (ProgAct.call (.configLoad load) : ProgAct K).refused t evs := by
  obtain ⟨hph, hthen⟩ := Option.ite_none_right_eq_some.mp hstep
  rcases configLoad_cases load with ⟨config, hload⟩ | ⟨ret, hret, hload⟩
  · rw [hload] at hthen
    obtain ⟨rfl, rfl⟩ := Prod.mk.inj (Option.some.inj hthen)
    have hfalse : (ProgAct.call (.configLoad load) : ProgAct K).refused = false := by
      simp [ProgAct.refused, hload]
    rw [hfalse]
    exact ⟨.loaded hph, { h with }, quiet_single rfl⟩
  · have htrue : (ProgAct.call (.configLoad load) : ProgAct K).refused = true := by
      simp [ProgAct.refused, hload, hret]
    obtain ⟨v, hv, hcall⟩ := callStep_unloaded env hret hload hph
    have hnot : decide (MainRet.code ret = .code .ok) = false := by simpa using hret
    rw [htrue]
    rw [hcall] at hstep
    dsimp only at hstep
    split at hstep
    · next hsim =>
      obtain ⟨rfl, rfl⟩ := Prod.mk.inj (Option.some.inj hstep)
      have hmove := Skeleton.Move.unloaded (s := s.skeleton) v hph hv hsim
      rw [← hnot] at hmove
      exact ⟨hmove, { h with }, quiet_nil⟩
    · next hsim =>
      obtain ⟨rfl, rfl⟩ := Prod.mk.inj (Option.some.inj hstep)
      exact ⟨.refused v hph (Bool.eq_false_iff.mpr hsim), { h with }, quiet_nil⟩

theorem mecQueueCreate_does (hc : s.skeleton.Control) (h : s.Data) {ok : Bool}
    (hstep : callStep env s (.mecQueueCreate ok) = some (t, evs)) :
    Does s (ProgAct.call (.mecQueueCreate ok) : ProgAct K).refused t evs := by
  obtain ⟨hph, hstep⟩ := Option.ite_none_right_eq_some.mp hstep
  have hearly := hc.early_of (by rw [show s.skeleton.phase = _ from hph]; rfl)
  have hnone : ¬s.queue.isSome := fun hq => by
    have hcreate := hearly.queue.mp (h.queue.mpr hq)
    cases (show s.skeleton.phase = _ from hph).symm.trans hcreate
  cases ok with
  | false =>
    obtain ⟨rfl, rfl⟩ := Prod.mk.inj (Option.some.inj hstep)
    exact ⟨.unqueued hph, { h with queue := iff_of_false nofun hnone }, quiet_nil⟩
  | true =>
    cases hq : mecQueueCreate true 50 with
    | none => cases hq
    | some q =>
      obtain ⟨hcoh, hqueued, -⟩ := mecQueueCreate_eq hq
      have howned := h.owned
      rw [refs, slots, Option.not_isSome_iff_eq_none.mp hnone] at howned
      rw [hq] at hstep
      obtain ⟨rfl, rfl⟩ := Prod.mk.inj (Option.some.inj hstep)
      have hdata : (({ s with queue := some q }.set .queue .here).goto .createFusion).Data :=
        { h with
          queue := iff_of_true rfl rfl
          coherent := fun q' hq' => by
            obtain rfl := Option.some.inj hq'
            exact hcoh
          owned := by
            show s.heap.Accounted (q.pointers ++ s.lists)
            rwa [MecQueue.pointers, hqueued]
          empty := fun _ q' hq' => by
            obtain rfl := Option.some.inj hq'
            rw [← q.queued_length, hqueued]
            rfl }
      exact ⟨.queued hph, hdata, quiet_single rfl⟩

omit [Field K] [LinearOrder K] in
theorem Data.declare (h : s.Data) (hunset : ∀ c, c ≠ .config → c ≠ .queue → s.vars c ≠ .here)
    (p : FusionProcessor K) : (({ s with processor := some p }.set .fusion .here).declare).Data :=
  { h with
    processor := iff_of_true rfl rfl
    simVideo := iff_of_false nofun (mt h.simVideo.mpr (hunset _ nofun nofun))
    simRadar := iff_of_false nofun (mt h.simRadar.mpr (hunset _ nofun nofun))
    video := fun _ => h.video (hunset _ nofun nofun)
    radar := fun _ => h.radar (hunset _ nofun nofun) }

theorem fusionProcessorCreate_does (hc : s.skeleton.Control) (h : s.Data)
    {mallocOk callocOk : Bool} {ctx : ThreadContext} {fresh : Fresh K}
    (hstep : callStep env s (.fusionProcessorCreate mallocOk callocOk ctx fresh) = some (t, evs)) :
    Does s (ProgAct.call (.fusionProcessorCreate mallocOk callocOk ctx fresh)).refused t evs := by
  obtain ⟨hph, hstep⟩ := Option.ite_none_right_eq_some.mp hstep
  have hearly := hc.early_of (by rw [show s.skeleton.phase = _ from hph]; rfl)
  have hunset (c : MainPart) (hc : c ≠ .config) (hc' : c ≠ .queue) : s.vars c ≠ .here :=
    fun hv => nomatch (hearly.unset c hc hc').symm.trans hv
  have hprocessor : ¬s.processor.isSome := mt h.processor.mpr (hunset _ nofun nofun)
  by_cases hgone : s.vars .config = .gone
  · rw [if_pos hgone] at hstep
    obtain ⟨rfl, rfl⟩ := Prod.mk.inj (Option.some.inj hstep)
    exact ⟨.dangling _ hph hgone, { h with }, quiet_nil⟩
  · rw [if_neg hgone] at hstep
    by_cases hok : mallocOk = true ∧ callocOk = true
    · rw [if_pos hok] at hstep
      obtain ⟨rfl, rfl⟩ := Prod.mk.inj (Option.some.inj hstep)
      obtain ⟨rfl, rfl⟩ := hok
      have hdata := h.declare hunset
        (Mec.fusionProcessorCreate (mainFusionCfg env.scanDouble s.config) fresh)
      exact ⟨.fused hph hgone, { hdata with }, quiet_single rfl⟩
    · rw [if_neg hok] at hstep
      obtain ⟨rfl, rfl⟩ := Prod.mk.inj (Option.some.inj hstep)
      have htrue :
          (ProgAct.call (.fusionProcessorCreate mallocOk callocOk ctx fresh)).refused = true := by
        cases mallocOk <;> cases callocOk <;> simp_all [ProgAct.refused]
      rw [htrue]
      exact ⟨.unfused hph hgone, { h with processor := iff_of_false nofun hprocessor }, quiet_nil⟩

theorem simulatorCreate_does (hc : s.skeleton.Control) (hentry : s.skeleton.Entry) (h : s.Data)
    {mallocOk : Bool} {ctx : ThreadContext} {video radar : Fresh K}
    (hstep : callStep env s (.simulatorCreate mallocOk ctx video radar) = some (t, evs)) :
    Does s false t evs := by
  obtain ⟨hph, hstep⟩ := Option.ite_none_right_eq_some.mp hstep
  have hbody := hc.body_of (by rw [show s.skeleton.phase = _ from hph]; rfl)
  have hloop : s.skeleton.phase.inLoop = false := by rw [show s.skeleton.phase = _ from hph]; rfl
  split at hstep
  · next hhere =>
    rcases simulatorCreate_cases mallocOk video radar h.owned with
      ⟨v, r, heap, hcreate, howned⟩ | ⟨heap, hcreate, howned⟩
    · rw [hcreate] at hstep
      obtain ⟨rfl, rfl⟩ := Prod.mk.inj (Option.some.inj hstep)
      have hnot := hentry.simulator hph
      have hvideo : s.simVideo = none := by simpa using mt h.simVideo.mpr hnot
      have hradar : s.simRadar = none := by simpa using mt h.simRadar.mpr hnot
      refine ⟨.created hph .simulator fun _ => hhere, ?_, quiet_single rfl⟩
      exact { h with
        simVideo := iff_of_true rfl rfl
        simRadar := iff_of_true rfl rfl
        owned := by
          refine howned.perm ?_
          show (r :: v :: (s.slots ++ s.lists)).Perm
            (s.slots ++ (v :: r :: (s.videoList.toList ++ s.radarList.toList)))
          rw [lists, hvideo, hradar]
          have hv : (s.slots ++ v :: r :: (s.videoList.toList ++ s.radarList.toList)).Perm _ :=
            List.perm_middle
          have hr : (s.slots ++ r :: (s.videoList.toList ++ s.radarList.toList)).Perm _ :=
            List.perm_middle
          exact ((hv.trans (hr.cons v)).trans (.swap ..)).symm }
    · rw [hcreate] at hstep
      obtain ⟨rfl, rfl⟩ := Prod.mk.inj (Option.some.inj hstep)
      have hdata : ({ s with heap := heap }.fail (.code .initFailed)).Data :=
        { h with owned := howned }
      refine ⟨.failed hbody.phase hloop fun _ => hhere, hdata, ?_⟩
      split
      · exact quiet_thread _ _
      · exact quiet_nil
  · next hhere =>
    obtain ⟨rfl, rfl⟩ := Prod.mk.inj (Option.some.inj hstep)
    exact ⟨.unread (.inl hph) hhere, { h with }, quiet_nil⟩

theorem videoProcessorCreate_does (hc : s.skeleton.Control) (hentry : s.skeleton.Entry) (h : s.Data)
    {mallocOk : Bool} {ctx : ThreadContext} {fresh : Fresh K}
    (hstep : callStep env s (.videoProcessorCreate mallocOk ctx fresh) = some (t, evs)) :
    Does s false t evs := by
  obtain ⟨hph, hstep⟩ := Option.ite_none_right_eq_some.mp hstep
  have hbody := hc.body_of (by rw [show s.skeleton.phase = _ from hph]; rfl)
  have hloop : s.skeleton.phase.inLoop = false := by rw [show s.skeleton.phase = _ from hph]; rfl
  have hlist := h.video (hentry.video hph)
  have hperm (p : ListPtr) : (p :: s.refs).Perm
      (s.slots ++ (s.simVideo.toList ++ s.simRadar.toList ++ [p] ++ s.radarList.toList)) := by
    rw [refs, lists, hlist]
    have hp : (s.slots ++ (s.simVideo.toList ++ s.simRadar.toList) ++
        p :: s.radarList.toList).Perm _ := List.perm_middle
    simpa using hp.symm
  split at hstep
  · next hhere =>
    split at hstep
    · rcases h.owned.create fresh 10 with ⟨_, -, hnew, howned⟩ | hnew
      · rw [hnew] at hstep howned
        obtain ⟨rfl, rfl⟩ := Prod.mk.inj (Option.some.inj hstep)
        refine ⟨.created hph .video fun _ => hhere, ?_, quiet_single rfl⟩
        exact { h with
          video := fun hv => absurd rfl hv
          owned := howned.perm (hperm _) }
      · rw [hnew] at hstep
        obtain ⟨rfl, rfl⟩ := Prod.mk.inj (Option.some.inj hstep)
        refine ⟨.created hph .video fun _ => hhere, ?_, quiet_single rfl⟩
        exact { h with
          video := fun hv => absurd rfl hv
          owned := by
            have howned := h.owned
            rwa [refs, lists, hlist] at howned }
    · obtain ⟨rfl, rfl⟩ := Prod.mk.inj (Option.some.inj hstep)
      exact ⟨.failed hbody.phase hloop fun _ => hhere, { h with }, quiet_nil⟩
  · next hhere =>
    obtain ⟨rfl, rfl⟩ := Prod.mk.inj (Option.some.inj hstep)
    exact ⟨.unread (.inr hph) hhere, { h with }, quiet_nil⟩

theorem radarProcessorCreate_does (hc : s.skeleton.Control) (hentry : s.skeleton.Entry) (h : s.Data)
    {mallocOk : Bool} {ctx : ThreadContext} {fresh : Fresh K}
    (hstep : callStep env s (.radarProcessorCreate mallocOk ctx fresh) = some (t, evs)) :
    Does s false t evs := by
  obtain ⟨hph, hstep⟩ := Option.ite_none_right_eq_some.mp hstep
  have hbody := hc.body_of (by rw [show s.skeleton.phase = _ from hph]; rfl)
  have hloop : s.skeleton.phase.inLoop = false := by rw [show s.skeleton.phase = _ from hph]; rfl
  have hne : s.skeleton.phase = .createSimulator → s.skeleton.vars .config = .here := fun hsim =>
    nomatch (show s.skeleton.phase = _ from hph).symm.trans hsim
  have hlist := h.radar (hentry.radar (.inr hph))
  have hperm (p : ListPtr) : (p :: s.refs).Perm
      (s.slots ++ (s.simVideo.toList ++ s.simRadar.toList ++ s.videoList.toList ++ [p])) := by
    rw [refs, lists, hlist]
    have hp := List.perm_append_singleton p
      (s.slots ++ (s.simVideo.toList ++ s.simRadar.toList ++ s.videoList.toList))
    simpa using hp.symm
  split at hstep
  · rcases h.owned.create fresh 50 with ⟨_, -, hnew, howned⟩ | hnew
    · rw [hnew] at hstep howned
      obtain ⟨rfl, rfl⟩ := Prod.mk.inj (Option.some.inj hstep)
      refine ⟨.created hph .radar nofun, ?_, quiet_single rfl⟩
      exact { h with
        radar := fun hv => absurd rfl hv
        owned := howned.perm (hperm _) }
    · rw [hnew] at hstep
      obtain ⟨rfl, rfl⟩ := Prod.mk.inj (Option.some.inj hstep)
      exact ⟨.failed hbody.phase hloop hne, { h with }, quiet_nil⟩
  · obtain ⟨rfl, rfl⟩ := Prod.mk.inj (Option.some.inj hstep)
    exact ⟨.failed hbody.phase hloop hne, { h with }, quiet_nil⟩

theorem monitorStartService_does (h : s.Data) {mallocOk : Bool} {ans : CreateAnswers}
    (hstep : callStep env s (.monitorStartService mallocOk ans) = some (t, evs)) :
    Does s false t evs := by
  obtain ⟨hph, hstep⟩ := Option.ite_none_right_eq_some.mp hstep
  split at hstep
  · dsimp only at hstep
    split at hstep
    · obtain ⟨rfl, rfl⟩ := Prod.mk.inj (Option.some.inj hstep)
      exact ⟨.monitored hph, { h with }, quiet_append (quiet_thread _ _) (by simp [ProgEvent.quiet])⟩
    · obtain ⟨rfl, rfl⟩ := Prod.mk.inj (Option.some.inj hstep)
      exact ⟨.turn hph .enter, { h with }, quiet_append (quiet_thread _ _) (quiet_single rfl)⟩
  · obtain ⟨rfl, rfl⟩ := Prod.mk.inj (Option.some.inj hstep)
    exact ⟨.turn hph .enter, { h with }, quiet_single rfl⟩

theorem loopTop_does (h : s.Data) {load : LoadEnv}
    (hstep : callStep env s (.loopTop load) = some (t, evs)) : Does s false t evs := by
  obtain ⟨hph, hstep⟩ := Option.ite_none_right_eq_some.mp hstep
  simp only [h.reload, Bool.false_eq_true, if_false] at hstep
  split at hstep
  · obtain ⟨rfl, rfl⟩ := Prod.mk.inj (Option.some.inj hstep)
    exact ⟨.turn hph .pop, { h with }, quiet_nil⟩
  · obtain ⟨rfl, rfl⟩ := Prod.mk.inj (Option.some.inj hstep)
    exact ⟨.left hph, { h with reload := rfl }, quiet_nil⟩

omit [Field K] [LinearOrder K] in
theorem Data.loop (hc : s.skeleton.Control) (h : s.Data) (hph : s.phase.inLoop) :
    s.simMode = true ∧ (∃ q, s.queue = some q ∧ q.count = 0) ∧ (∃ p, s.processor = some p) ∧
      ∃ list l, s.simVideo = some list ∧ s.heap.cell list = some l := by
  have hsourced : s.phase.sourced = true := by simp [MainPhase.sourced, hph]
  have hbody : s.skeleton.Body := hc.body_of (MainPhase.body_of_inLoop hph)
  have hsim : s.simMode = true := hc.simulated_of hsourced
  obtain ⟨q, hq⟩ := Option.isSome_iff_exists.mp (h.queue.mp hbody.queue)
  obtain ⟨p, hp⟩ := Option.isSome_iff_exists.mp (h.processor.mp hbody.fusion)
  obtain ⟨list, hlist⟩ := Option.isSome_iff_exists.mp (h.simVideo.mp (hbody.simulator hsourced))
  obtain ⟨l, hl⟩ := h.owned.cell_of_mem (mem_refs_of_list (.inl hlist))
  exact ⟨hsim, ⟨q, hq, h.empty hsim q hq⟩, ⟨p, hp⟩, list, l, hlist, hl⟩

omit [Field K] [LinearOrder K] in
theorem popSection_empty {q : MecQueue} (h : q.count = 0) (woken : Option Int) :
    (woken.elim (Mec.mecQueuePop 500 q) fun rc => mecQueuePopWoken 500 rc q) = .waits ∨
      (woken.elim (Mec.mecQueuePop 500 q) fun rc => mecQueuePopWoken 500 rc q) = .failed := by
  have hwaits : Mec.mecQueuePop 500 q = .waits := by simp [Mec.mecQueuePop, h]
  cases woken with
  | none => exact .inl hwaits
  | some rc =>
    simp only [Option.elim_some, mecQueuePopWoken, hwaits]
    split <;> simp

theorem mecQueuePop_does (hc : s.skeleton.Control) (h : s.Data) {woken : Option Int} {tv : Timeval}
    (hstep : callStep env s (.mecQueuePop woken tv) = some (t, evs)) : Does s false t evs := by
  obtain ⟨hph, hstep⟩ := Option.ite_none_right_eq_some.mp hstep
  obtain ⟨-, ⟨q, hq, hcount⟩, ⟨p, hp⟩, -⟩ := h.loop hc (by rw [hph]; rfl)
  rw [hq, hp] at hstep
  dsimp only at hstep
  rcases popSection_empty hcount woken with hsec | hsec <;> rw [hsec] at hstep
  · obtain ⟨rfl, rfl⟩ := Prod.mk.inj (Option.some.inj hstep)
    exact .stay (by rw [hph]; rfl) h rfl quiet_nil
  · obtain ⟨rfl, rfl⟩ := Prod.mk.inj (Option.some.inj hstep)
    exact ⟨.turn hph .empty, { h with }, quiet_nil⟩

theorem idle_does (hc : s.skeleton.Control) (h : s.Data) {now : Int}
    (hstep : callStep env s (.idle now) = some (t, evs)) : Does s false t evs := by
  obtain ⟨hph, hstep⟩ := Option.ite_none_right_eq_some.mp hstep
  obtain ⟨hsim, ⟨q, hq, -⟩, ⟨p, hp⟩, list, l, hlist, hl⟩ := h.loop hc (by rw [hph]; rfl)
  have hbind : s.simVideo.bind s.heap.cell = some l := by rw [hlist]; exact hl
  split at hstep
  case h_2 hnone => exact absurd hp (hnone q p hq)
  simp only [if_pos hsim, hbind] at hstep
  obtain ⟨rfl, rfl⟩ := Prod.mk.inj (Option.some.inj hstep)
  refine ⟨.turn hph ?_, { h with }, ?_⟩
  · show Skeleton.Turns .idle (if 0 < l.count then .feeding else .loopTop)
    split
    · exact .poll
    · exact .nothing
  · intro e he
    split at he
    · simp only [List.mem_cons, List.not_mem_nil, or_false] at he
      rcases he with rfl | rfl
      · rfl
      · simp [ProgEvent.quiet, h.frames]
    · cases he

theorem feed_does (hc : s.skeleton.Control) (h : s.Data)
    (hstep : callStep env s .feed = some (t, evs)) : Does s false t evs := by
  obtain ⟨hph, hstep⟩ := Option.ite_none_right_eq_some.mp hstep
  obtain ⟨-, -, ⟨p, hp⟩, list, l, hlist, hl⟩ := h.loop hc (by rw [hph]; rfl)
  have hbind : s.simVideo.bind s.heap.cell = some l := by rw [hlist]; exact hl
  rw [hbind, hp] at hstep
  obtain ⟨rfl, rfl⟩ := Prod.mk.inj (Option.some.inj hstep)
  have hdata : { s with processor := some (fusionProcessorAddTracks env.libm p l 1).2 }.Data :=
    { h with processor := by simp [h.processor, hp] }
  exact ⟨.turn hph .feed, { hdata with }, quiet_single rfl⟩

theorem clear_does (h : s.Data) (hstep : callStep env s .clear = some (t, evs)) :
    Does s false t evs := by
  obtain ⟨hph, hstep⟩ := Option.ite_none_right_eq_some.mp hstep
  obtain ⟨rfl, rfl⟩ := Prod.mk.inj (Option.some.inj hstep)
  have hdata := h.edited (fun p hp => mem_refs_of_list (.inl hp)) [.clear]
  exact ⟨.turn hph .clear, { hdata with }, quiet_nil⟩

/-! ### `cleanup` -/

section Cleanup

omit [Field K] [LinearOrder K]

theorem accounted_release {heap : ListHeap K} {list : Option ListPtr} {refs : List ListPtr}
    (h : heap.Accounted (list.toList ++ refs)) : (trackListRelease heap list).Accounted refs := by
  cases list with
  | none => exact h
  | some p => exact h.release

theorem destroy_skeleton (s : Program K) (c : MainPart) :
    (s.destroy c).skeleton = s.skeleton.takeDown c (s.destroy c).alive := by
  cases c <;> rfl

theorem afterCleanup_eq (s : Program K) (c : MainPart) :
    s.afterCleanup c = s.skeleton.after c := by
  cases c <;> simp [afterCleanup, Skeleton.after, MainPart.next, skeleton]

theorem perm_list (before after : List ListPtr) (list : Option ListPtr) :
    (before ++ (list.toList ++ after)).Perm (list.toList ++ (before ++ after)) := by
  rw [← List.append_assoc, ← List.append_assoc]
  exact List.perm_append_comm.append_right after

theorem gone_iff_none {v : Var} {α : Type} {x : Option α} (hv : v ≠ .here) (hx : x = none) :
    v = .here ↔ x.isSome := by simp [hv, hx]

theorem Data.destroy (h : s.Data) (c : MainPart) : (s.destroy c).Data := by
  have hgone : Var.gone ≠ .here := by decide
  have howned := h.owned
  rw [refs, lists] at howned
  cases c with
  | monitor => exact { h with }
  | config => exact { h with }
  | fusion => exact { h with processor := gone_iff_none hgone rfl }
  | simulator =>
    refine { h with
      simVideo := gone_iff_none hgone rfl
      simRadar := gone_iff_none hgone rfl
      owned := ?_ }
    have hfirst : s.heap.Accounted (s.simVideo.toList ++
        (s.slots ++ (s.simRadar.toList ++ (s.videoList.toList ++ s.radarList.toList)))) := by
      refine howned.perm ?_
      simpa using perm_list s.slots
        (s.simRadar.toList ++ (s.videoList.toList ++ s.radarList.toList)) s.simVideo
    exact accounted_release ((accounted_release hfirst).perm (perm_list s.slots _ s.simRadar))
  | video =>
    refine { h with video := fun _ => rfl, owned := ?_ }
    refine accounted_release (howned.perm ?_)
    simpa [refs, lists, Program.destroy, slots, set, join] using
      perm_list (s.slots ++ (s.simVideo.toList ++ s.simRadar.toList)) s.radarList.toList s.videoList
  | radar =>
    refine { h with radar := fun _ => rfl, owned := ?_ }
    refine accounted_release (howned.perm ?_)
    simpa [refs, lists, Program.destroy, slots, set, join] using
      perm_list (s.slots ++ (s.simVideo.toList ++ (s.simRadar.toList ++ s.videoList.toList))) []
        s.radarList
  | queue =>
    refine { h with
      queue := gone_iff_none hgone rfl
      coherent := fun q hq => absurd hq (Option.not_mem_none q)
      owned := ?_
      empty := fun _ q hq => absurd hq (Option.not_mem_none q) }
    rw [slots] at howned
    cases hq : s.queue with
    | none =>
      have hheap : (s.destroy .queue).heap = s.heap := by simp [Program.destroy, hq]
      rw [hq] at howned
      rw [hheap]
      exact howned
    | some q =>
      have hheap : (s.destroy .queue).heap = mecQueueDestroy s.heap q := by
        simp [Program.destroy, hq]
      rw [hq] at howned
      rw [hheap, mecQueueDestroy_eq]
      exact howned.releaseAll

end Cleanup

theorem cleanup_does (h : s.Data) (hstep : callStep env s .cleanup = some (t, evs)) :
    Does s false t evs := by
  simp only [callStep] at hstep
  split at hstep
  · next c hph =>
    rw [afterCleanup_eq] at hstep
    split at hstep
    · next hv =>
      obtain ⟨rfl, rfl⟩ := Prod.mk.inj (Option.some.inj hstep)
      exact ⟨.passed hph hv, { h with }, quiet_nil⟩
    · next hv =>
      obtain ⟨rfl, rfl⟩ := Prod.mk.inj (Option.some.inj hstep)
      have hmove := Skeleton.Move.tookDown (s := s.skeleton) (s.destroy c).alive hph hv
      rw [← destroy_skeleton] at hmove
      exact ⟨hmove, { h.destroy c with }, quiet_destroyEvents s c⟩
    · next hv =>
      obtain ⟨rfl, rfl⟩ := Prod.mk.inj (Option.some.inj hstep)
      exact ⟨.misread hph (.inl hv), { h with }, quiet_nil⟩
    · next hv =>
      obtain ⟨rfl, rfl⟩ := Prod.mk.inj (Option.some.inj hstep)
      exact ⟨.misread hph (.inr hv), { h with }, quiet_nil⟩
  · cases hstep

/-! ### A step and a run -/

theorem callStep_does (hc : s.skeleton.Control) (hentry : s.skeleton.Entry) (h : s.Data)
    {c : ProgCall K} (hstep : callStep env s c = some (t, evs)) :
    Does s (ProgAct.call c).refused t evs := by
  cases c with
  | configLoad load => exact configLoad_does h hstep
  | mecQueueCreate ok => exact mecQueueCreate_does hc h hstep
  | fusionProcessorCreate mallocOk callocOk ctx fresh => exact fusionProcessorCreate_does hc h hstep
  | simulatorCreate mallocOk ctx video radar => exact simulatorCreate_does hc hentry h hstep
  | simulatorStart ans =>
    obtain ⟨hph, hstep⟩ := Option.ite_none_right_eq_some.mp hstep
    obtain ⟨rfl, rfl⟩ := Prod.mk.inj (Option.some.inj hstep)
    exact startWorker_does h hph rfl rfl nofun fun _ => .simulator
  | videoProcessorCreate mallocOk ctx fresh => exact videoProcessorCreate_does hc hentry h hstep
  | radarProcessorCreate mallocOk ctx fresh => exact radarProcessorCreate_does hc hentry h hstep
  | videoProcessorStart ans =>
    obtain ⟨hph, hstep⟩ := Option.ite_none_right_eq_some.mp hstep
    obtain ⟨rfl, rfl⟩ := Prod.mk.inj (Option.some.inj hstep)
    exact startWorker_does h hph rfl rfl nofun fun _ => .video
  | radarProcessorStart ans =>
    obtain ⟨hph, hstep⟩ := Option.ite_none_right_eq_some.mp hstep
    obtain ⟨rfl, rfl⟩ := Prod.mk.inj (Option.some.inj hstep)
    exact startWorker_does h hph rfl rfl nofun fun hcode =>
      absurd hcode (radarProcessorStart_unset ans (show s.radarProcessor.baudRate = 0 from rfl))
  | fusionProcessorStart ans =>
    obtain ⟨hph, hstep⟩ := Option.ite_none_right_eq_some.mp hstep
    obtain ⟨rfl, rfl⟩ := Prod.mk.inj (Option.some.inj hstep)
    exact startWorker_does h hph rfl rfl nofun fun _ => .fusion
  | monitorStartService mallocOk ans => exact monitorStartService_does h hstep
  | loopTop load => exact loopTop_does h hstep
  | mecQueuePop woken tv => exact mecQueuePop_does hc h hstep
  | idle now => exact idle_does hc h hstep
  | feed => exact feed_does hc h hstep
  | clear => exact clear_does h hstep
  | cleanup => exact cleanup_does h hstep

/-- **Invariant** of the program. -/
structure Inv (s : Program K) : Prop where
  control : s.skeleton.Control
  entry : s.skeleton.Entry
  data : s.Data

theorem progStep_does (h : s.Inv) {a : ProgAct K} (hstep : progStep env s a = some (t, evs)) :
    Does s a.refused t evs := by
  cases a with
  | call c =>
    obtain ⟨-, hstep⟩ := Option.ite_none_right_eq_some.mp hstep
    exact callStep_does h.control h.entry h.data hstep
  | worker w =>
    obtain ⟨hactive, hstep⟩ := Option.ite_none_right_eq_some.mp hstep
    exact workerStep_does h.control h.data hactive hstep
  | signal sig =>
    obtain ⟨hactive, hstep⟩ := Option.ite_none_right_eq_some.mp hstep
    cases sig with
    | sigint | sigterm =>
      rw [if_pos (by decide)] at hstep
      obtain ⟨rfl, rfl⟩ := Prod.mk.inj (Option.some.inj hstep)
      have hdata : { s with running := false }.Data := { h.data with }
      exact .stay hactive hdata rfl quiet_nil
    | sighup =>
      rw [if_neg (by decide)] at hstep
      obtain ⟨rfl, rfl⟩ := Prod.mk.inj (Option.some.inj hstep)
      exact ⟨.killed hactive, { h.data with }, quiet_nil⟩

theorem Inv.step (h : s.Inv) {a : ProgAct K} (hstep : progStep env s a = some (t, evs)) : t.Inv :=
  have hdoes := progStep_does h hstep
  ⟨hdoes.move.control h.control, hdoes.move.entry h.entry, hdoes.data⟩

end Program

end Mec
