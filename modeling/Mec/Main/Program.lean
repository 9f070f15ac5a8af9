import Mec.Main.Reload
import Mec.Queue.Holders
import Mec.Queue.Snapshot
import Mec.Radar.Convert
import Mec.Thread.Basic
import Mec.V2x.Codec

/-!
# The whole program (`main.c`)

`main` from the load of the configuration to its return, beside the threads it
starts and the signals it gets. A call of `main` is a step, with what the outside
answers; so is a round of a thread between lock and unlock. Every `goto cleanup`
is followed as it is: `cleanup` tests variables whose initialisation the jump may
have passed over, and a pointer there holds what `Var` says. The calls into the thread
library are reported as they are made, and taken to come back whether or not the library
defines them.
-/

namespace Mec

open Lib.Lts Lib.Scan

variable {K : Type}

/-! ## State -/

/-- What `cleanup` takes down, in its order. -/
inductive MainPart where
  | monitor
  | simulator
  | video
  | radar
  | fusion
  | queue
  | config
  deriving DecidableEq, Repr

/-- A pointer variable of `main`: never assigned, `NULL`, or the address of an object
that exists or no longer does. -/
inductive Var where
  | unset
  | null
  | here
  | gone
  deriving DecidableEq, Repr

/-- The threads beside `main`. -/
inductive Worker where
  | monitor
  | simulator
  | video
  | radar
  | fusion
  deriving DecidableEq, Repr

/-- What `main` does next. -/
inductive MainPhase where
  | loadConfig
  | createQueue
  | createFusion
  | createSimulator
  | startSimulator
  | createVideo
  | createRadar
  | startVideo
  | startRadar
  | startFusion
  | startMonitor
  | loopTop
  | popping
  | idle
  | feeding
  | clearing
  | cleanup (c : MainPart)
  | exited (status : Int)
  /-- The behaviour is undefined: `main` read a variable it had not assigned, or
  followed a pointer to nothing. -/
  | undefined
  /-- Terminated by a signal that has its default action. -/
  | killed
  deriving DecidableEq, Repr

/-- The variable `ret`. -/
inductive MainRet where
  | code (c : MecErrorCode)
  | startFailed
  deriving DecidableEq, Repr

inductive Signal where
  | sigint
  | sigterm
  | sighup
  deriving DecidableEq, Repr

/-- `main`'s variables, the objects they point to, and the threads that run. The lists
of the simulator are in the heap like those of the sensors, which the queue shares;
`ctx` holds the components' thread contexts, `frames` is `frame_count` of `g_stats`,
`lastHb` the static `last_hb`. -/
structure Program (K : Type) where
  phase : MainPhase
  simMode : Bool
  running : Bool
  reloadConfig : Bool
  ret : MainRet
  vars : MainPart → Var
  alive : Worker → Bool
  ctx : Worker → ThreadContext
  config : Option Config
  queue : Option MecQueue
  processor : Option (FusionProcessor K)
  heap : ListHeap K
  simVideo : Option ListPtr
  simRadar : Option ListPtr
  videoList : Option ListPtr
  radarList : Option ListPtr
  frames : Nat
  lastHb : Int

/-- What a step did that can be seen, or that it must not do. -/
inductive ProgEvent (K : Type) where
  | created (c : MainPart)
  | destroyed (c : MainPart)
  | started (w : Worker)
  /-- A call into the thread library for the thread's context. -/
  | thread (w : Worker) (call : ThreadEvent)
  | entered
  | reloaded
  | popped (msg : MecMsg)
  | recorded
  | encoded (packet : Option Encoded)
  | heartbeat (queueSize activeTracks : Nat)
  | reported (frames : Nat)
  | fusion (act : FusionAct K) (touches : List (Touch K))
  | status (activeTracks : Nat)
  /-- The thread went for an object that is not there. -/
  | fault (w : Worker)

/-- The calls of `main`, with the answers of the outside and what the memory held: `ctx` is
the thread context of a new object. -/
inductive ProgCall (K : Type) where
  | configLoad (env : LoadEnv)
  | mecQueueCreate (ok : Bool)
  | fusionProcessorCreate (mallocOk callocOk : Bool) (ctx : ThreadContext) (fresh : Fresh K)
  | simulatorCreate (mallocOk : Bool) (ctx : ThreadContext) (video radar : Fresh K)
  | simulatorStart (ans : CreateAnswers)
  | videoProcessorCreate (mallocOk : Bool) (ctx : ThreadContext) (fresh : Fresh K)
  | radarProcessorCreate (mallocOk : Bool) (ctx : ThreadContext) (fresh : Fresh K)
  | videoProcessorStart (ans : CreateAnswers)
  | radarProcessorStart (ans : PortAnswers × CreateAnswers)
  | fusionProcessorStart (ans : CreateAnswers)
  | monitorStartService (mallocOk : Bool) (ans : CreateAnswers)
  | loopTop (env : LoadEnv)
  | mecQueuePop (woken : Option Int) (tv : Timeval)
  | idle (now : Int)
  | feed
  | clear
  | cleanup

/-- A round of a thread. `inject` and `restart` are the simulator's, `query` is the
monitor's. -/
inductive WorkerAct (K : Type) where
  | videoFrame (track : TargetTrack K) (fresh : Fresh K)
  | radarFrame (detection : RadarDetection K) (old : TargetTrack K) (fresh : Fresh K)
  | inject (track : TargetTrack K) (fresh : Fresh K)
  | restart
  | pass (env : PassEnv K)
  | query

inductive ProgAct (K : Type) where
  | call (c : ProgCall K)
  | worker (w : WorkerAct K)
  | signal (sig : Signal)

namespace MainPart

/-- The position in `cleanup`. -/
def rank : MainPart → Nat
  | monitor => 0
  | simulator => 1
  | video => 2
  | radar => 3
  | fusion => 4
  | queue => 5
  | config => 6

def worker? : MainPart → Option Worker
  | monitor => some .monitor
  | simulator => some .simulator
  | video => some .video
  | radar => some .radar
  | fusion => some .fusion
  | queue => none
  | config => none

/-- What `cleanup` looks at next. -/
def next : MainPart → Option MainPart
  | monitor => some simulator
  | simulator => some video
  | video => some radar
  | radar => some fusion
  | fusion => some queue
  | queue => some config
  | config => none

end MainPart

namespace Program

def start (simMode : Bool) : Program K where
  phase := .loadConfig
  simMode := simMode
  running := true
  reloadConfig := false
  ret := .code .ok
  vars c := if c = .config then .null else .unset
  alive _ := false
  ctx _ := ⟨0, false⟩
  config := none
  queue := none
  processor := none
  heap := .empty
  simVideo := none
  simRadar := none
  videoList := none
  radarList := none
  frames := 0
  lastHb := 0

def goto (s : Program K) (phase : MainPhase) : Program K := { s with phase := phase }

/-- `ret = …; goto cleanup;`. -/
def fail (s : Program K) (ret : MainRet) : Program K :=
  { s with ret := ret, phase := .cleanup .monitor }

def set (s : Program K) (c : MainPart) (v : Var) : Program K :=
  { s with vars := Function.update s.vars c v }

/-- The four variables declared as `NULL` after the processor was created. -/
def declare (s : Program K) : Program K :=
  { s with
    vars := fun c => match c with
      | .video | .radar | .simulator | .monitor => .null
      | c => s.vars c }

def spawn (s : Program K) (w : Worker) : Program K :=
  { s with alive := Function.update s.alive w true }

def setCtx (s : Program K) (w : Worker) (ctx : ThreadContext) : Program K :=
  { s with ctx := Function.update s.ctx w ctx }

/-- The code of a start function decides between `goto cleanup` and the next call. -/
def startWorker (s : Program K) (w : Worker) (phase : MainPhase)
    (ret : Int × ThreadContext × List ThreadEvent) : Program K × List (ProgEvent K) :=
  let s := s.setCtx w ret.2.1
  if ret.1 ≠ 0 then (s.fail .startFailed, ret.2.2.map (.thread w))
  else ((s.spawn w).goto phase, ret.2.2.map (.thread w) ++ [.started w])

/-- The list behind a pointer, edited; a pointer to no list is undefined behaviour, and
`NULL` is passed over. -/
def edit (s : Program K) (list : Option ListPtr) (ops : List (ListOp K)) : ListHeap K :=
  match list with
  | none => s.heap
  | some p => match s.heap.cell p with
    | none => s.heap.touchDead
    | some l => s.heap.write p (runOps l ops)

/-- `mec_queue_push` of a sensor's list. -/
def push (s : Program K) (q : MecQueue) (msg : MecMsg) : Program K :=
  { s with heap := (mecQueuePush s.heap q msg).2.1, queue := some (mecQueuePush s.heap q msg).2.2 }

/-- Where `cleanup` goes from `c`; after the last it returns. -/
def afterCleanup (s : Program K) (c : MainPart) : MainPhase :=
  match c.next with
  | some d => .cleanup d
  | none => .exited (if s.ret = .code .ok then 0 else 1)

/-- The radar processor as `main` has it: `radar_cfg` is zeroed and its `baud_rate` never
set, so that its port is never open. -/
def radarProcessor (s : Program K) : RadarProcessor where
  baudRate := 0
  threadCtx := s.ctx .radar
  fd := -1

/-- The calls into the thread library when `c` is stopped and destroyed. -/
def destroyCalls (s : Program K) : MainPart → List ThreadEvent
  | .monitor => monitorStopService (s.ctx .monitor)
  | .simulator =>
    let (ctx, calls) := simulatorStop (s.ctx .simulator)
    calls ++ simulatorDestroy ctx
  | .video =>
    let (ctx, calls) := videoProcessorStop (s.ctx .video)
    calls ++ videoProcessorDestroy ctx
  | .radar =>
    let (processor, calls) := radarProcessorStop s.radarProcessor
    calls ++ radarProcessorDestroy processor
  | .fusion =>
    let (ctx, calls) := fusionProcessorStop (s.ctx .fusion)
    calls ++ fusionProcessorDestroy ctx
  | .queue | .config => []

/-- The thread ends when it is joined, which a context without a handle is not. -/
def join (s : Program K) (w : Worker) : Program K :=
  { s with alive := if (s.ctx w).thread ≠ 0 then Function.update s.alive w false else s.alive }

/-- What the stop and destroy functions do to the program; the monitor's variable is set to
`NULL`. -/
def destroy (s : Program K) : MainPart → Program K
  | .monitor => (s.join .monitor).set .monitor .null
  | .simulator =>
    { (s.join .simulator).set .simulator .gone with
      heap := trackListRelease (trackListRelease s.heap s.simVideo) s.simRadar
      simVideo := none
      simRadar := none }
  | .video =>
    { (s.join .video).set .video .gone with
      heap := trackListRelease s.heap s.videoList
      videoList := none }
  | .radar =>
    { (s.join .radar).set .radar .gone with
      heap := trackListRelease s.heap s.radarList
      radarList := none }
  | .fusion => { (s.join .fusion).set .fusion .gone with processor := none }
  | .queue =>
    { s.set .queue .gone with
      heap := match s.queue with
        | none => s.heap
        | some q => mecQueueDestroy s.heap q
      queue := none }
  | .config => { s.set .config .gone with config := none }

def destroyEvents (s : Program K) (c : MainPart) : List (ProgEvent K) :=
  match c.worker? with
  | some w => (s.destroyCalls c).map (.thread w) ++ [.destroyed c]
  | none => [.destroyed c]

end Program

/-! ## Steps -/

def signalHandler (s : Program K) : Signal → Program K
  | .sigint | .sigterm => { s with running := false }
  | .sighup => { s with reloadConfig := true }

/-- The signals `main` installs the handler for. -/
def installed : List Signal := [.sigint, .sigterm]

/-- `simulator_create`, with its two lists; a missing one takes both down again. -/
def simulatorCreate (mallocOk : Bool) (video radar : Fresh K) (h : ListHeap K) :
    Option (ListPtr × ListPtr) × ListHeap K :=
  if mallocOk then
    let (v, h) := trackListNew video 100 h
    let (r, h) := trackListNew radar 100 h
    match v, r with
    | some v, some r => (some (v, r), h)
    | _, _ => (none, trackListRelease (trackListRelease h v) r)
  else (none, h)

section Step

variable [Field K] [LinearOrder K]

/-- The outside functions of the program. -/
structure ProgEnv (K : Type) where
  libm : Libm K
  scanDouble : ScanDouble K
  host : Host K

/-- A popped message: its tracks go to the processor, its reference is given back, and
what the processor last wrote out is encoded. -/
def Program.consume (env : ProgEnv K) (s : Program K) (p : FusionProcessor K) (msg : MecMsg)
    (tv : Timeval) : Program K × List (ProgEvent K) :=
  let tracks := msg.tracks.bind s.heap.cell
  let p' := match tracks with
    | none => p
    | some l => (fusionProcessorAddTracks env.libm p l msg.sensorId).2
  let fed := match tracks with
    | none => []
    | some l => [.fusion (.addTracks l msg.sensorId) (touched env.libm msg.sensorId p l.contents)]
  let packets := match p'.outputTracks with
    | none => []
    | some fused =>
      if 0 < fused.count then [.encoded (v2xEncodeRsm env.host tv (some fused) 0xABCD 2048)]
      else []
  ({ s with
      processor := some p'
      heap := trackListRelease s.heap msg.tracks
      frames := s.frames + 1
      phase := .loopTop },
    .popped msg :: fed ++ .recorded :: packets)

def callStep (env : ProgEnv K) (s : Program K) :
    ProgCall K → Option (Program K × List (ProgEvent K))
  | .configLoad load =>
    if s.phase = .loadConfig then
      match configLoad load with
      | (.ok, config) =>
        some (({ s with ret := .code .ok, config := config }.set .config .here).goto .createQueue,
          [.created .config])
      | (ret, config) =>
        let v : Var := if ret = .initFailed then .gone else .null
        let s := { s with ret := .code ret, config := config }.set .config v
        if s.simMode then some (s.goto .createQueue, [])
        else some (s.fail (.code .initFailed), [])
    else none
  | .mecQueueCreate ok =>
    if s.phase = .createQueue then
      match mecQueueCreate ok 50 with
      | none => some ((s.set .queue .null).fail (.code .initFailed), [])
      | some q =>
        some (({ s with queue := some q }.set .queue .here).goto .createFusion, [.created .queue])
    else none
  | .fusionProcessorCreate mallocOk callocOk ctx fresh =>
    if s.phase = .createFusion then
      -- `if (config)` takes a pointer to a freed object for a configuration
      if s.vars .config = .gone then some (s.goto .undefined, [])
      else if mallocOk ∧ callocOk then
        let p := fusionProcessorCreate (mainFusionCfg env.scanDouble s.config) fresh
        some (((({ s with processor := some p }.setCtx .fusion ctx).set .fusion .here).declare).goto
          (if s.simMode then .createSimulator else .createVideo), [.created .fusion])
      else some ((s.set .fusion .null).fail (.code .initFailed), [])
    else none
  | .simulatorCreate mallocOk ctx video radar =>
    if s.phase = .createSimulator then
      -- without a configuration `config_get_string` leaves `sim_data` as it is
      if s.vars .config = .here then
        match simulatorCreate mallocOk video radar s.heap with
        | (none, h) =>
          -- without one of its lists the simulator is destroyed again
          some ({ s with heap := h }.fail (.code .initFailed),
            if mallocOk then (simulatorDestroy ctx).map (.thread .simulator) else [])
        | (some (v, r), h) =>
          some ((({ s with heap := h, simVideo := some v, simRadar := some r }.setCtx .simulator
            ctx).set .simulator .here).goto .startSimulator, [.created .simulator])
      else some (s.goto .undefined, [])
    else none
  | .simulatorStart ans =>
    if s.phase = .startSimulator then
      some (s.startWorker .simulator .startFusion (simulatorStart ans (s.ctx .simulator)))
    else none
  | .videoProcessorCreate mallocOk ctx fresh =>
    if s.phase = .createVideo then
      if s.vars .config = .here then
        if mallocOk then
          let (list, h) := trackListNew fresh 10 s.heap
          some ((({ s with heap := h, videoList := list }.setCtx .video ctx).set .video
            .here).goto .createRadar, [.created .video])
        else some (s.fail (.code .initFailed), [])
      else some (s.goto .undefined, [])
    else none
  | .radarProcessorCreate mallocOk ctx fresh =>
    if s.phase = .createRadar then
      if mallocOk then
        match trackListNew fresh 50 s.heap with
        | (none, h) => some ({ s with heap := h }.fail (.code .initFailed), [])
        | (some list, h) =>
          some ((({ s with heap := h, radarList := some list }.setCtx .radar ctx).set .radar
            .here).goto .startVideo, [.created .radar])
      else some (s.fail (.code .initFailed), [])
    else none
  | .videoProcessorStart ans =>
    if s.phase = .startVideo then
      some (s.startWorker .video .startRadar (videoProcessorStart ans (s.ctx .video)))
    else none
  | .radarProcessorStart ans =>
    if s.phase = .startRadar then
      let (code, processor, calls) := radarProcessorStart ans s.radarProcessor
      some (s.startWorker .radar .startFusion (code, processor.threadCtx, calls))
    else none
  | .fusionProcessorStart ans =>
    if s.phase = .startFusion then
      some (s.startWorker .fusion .startMonitor (fusionProcessorStart ans (s.ctx .fusion)))
    else none
  | .monitorStartService mallocOk ans =>
    if s.phase = .startMonitor then
      if mallocOk then
        let (code, ctx, calls) := threadCreate .monitorServerThread ans ⟨0, false⟩
        if code = 0 then
          some ((((s.setCtx .monitor ctx).set .monitor .here).spawn .monitor).goto .loopTop,
            calls.map (.thread .monitor) ++ [.created .monitor, .started .monitor, .entered])
        else some (s.goto .loopTop, calls.map (.thread .monitor) ++ [.entered])
      else some (s.goto .loopTop, [.entered])
    else none
  | .loopTop load =>
    if s.phase = .loopTop then
      if s.running then
        if s.reloadConfig then
          match configReload load with
          | (.ok, config) =>
            some (({ s with reloadConfig := false, config := config }.set .config .here).goto
              .popping, [.reloaded])
          | _ => some ({ s with reloadConfig := false }.goto .popping, [])
        else some (s.goto .popping, [])
      else some ({ s with ret := .code .ok }.goto (.cleanup .monitor), [])
    else none
  | .mecQueuePop woken tv =>
    if s.phase = .popping then
      match s.queue, s.processor with
      | some q, some p =>
        match woken.elim (mecQueuePop 500 q) fun rc => mecQueuePopWoken 500 rc q with
        | .took msg q => some ({ s with queue := some q }.consume env p msg tv)
        | .failed => some (s.goto .idle, [])
        | .waits => some (s, [])
      | _, _ => some (s.goto .undefined, [])
    else none
  | .idle now =>
    if s.phase = .idle then
      match s.queue, s.processor with
      | some q, some p =>
        let beat : List (ProgEvent K) :=
          if 5 ≤ now - s.lastHb then [.heartbeat q.count p.trackCount, .reported s.frames] else []
        let s := { s with lastHb := if 5 ≤ now - s.lastHb then now else s.lastHb }
        if s.simMode then
          match s.simVideo.bind s.heap.cell with
          | none => some (s.goto .undefined, beat)
          | some l => some (s.goto (if 0 < l.count then .feeding else .loopTop), beat)
        else some (s.goto .loopTop, beat)
      | _, _ => some (s.goto .undefined, [])
    else none
  | .feed =>
    if s.phase = .feeding then
      match s.simVideo.bind s.heap.cell, s.processor with
      | some l, some p =>
        let p' := (fusionProcessorAddTracks env.libm p l 1).2
        some ({ s with processor := some p' }.goto .clearing,
          [.fusion (.addTracks l 1) (touched env.libm 1 p l.contents)])
      | _, _ => some (s.goto .undefined, [])
    else none
  | .clear =>
    if s.phase = .clearing then
      some ({ s with heap := s.edit s.simVideo [.clear] }.goto .loopTop, [])
    else none
  | .cleanup =>
    match s.phase with
    | .cleanup c =>
      match s.vars c with
      | .null => some (s.goto (s.afterCleanup c), [])
      | .here =>
        some ((s.destroy c).goto (s.afterCleanup c), s.destroyEvents c)
      | .unset | .gone => some (s.goto .undefined, [])
    | _ => none

/-- A round of a thread that runs. -/
def workerStep (env : ProgEnv K) (s : Program K) :
    WorkerAct K → Option (Program K × List (ProgEvent K))
  | .videoFrame track fresh =>
    if s.alive .video then
      match s.vars .video, s.queue with
      | .here, some q =>
        some ({ s with heap := s.edit s.videoList [.clear, .add fresh track] }.push q
          { sensorId := 1, tracks := s.videoList, timestamp := track.timestamp }, [])
      | _, _ => some (s, [.fault .video])
    else none
  | .radarFrame detection old fresh =>
    if s.alive .radar then
      match s.vars .radar, s.queue with
      | .here, some q =>
        let (code, track) := radarConvertToTrack env.libm detection { radarId := 2 } old
        if code ≠ 0 then some (s, [])
        else
          some ({ s with heap := s.edit s.radarList [.add fresh track] }.push q
            { sensorId := 2, tracks := s.radarList, timestamp := detection.timestamp }, [])
      | _, _ => some (s, [.fault .radar])
    else none
  | .inject track fresh =>
    if s.alive .simulator then
      match s.vars .simulator with
      | .here =>
        if track.sensorId = 1 then
          some ({ s with heap := s.edit s.simVideo [.add fresh track] }, [])
        else if track.sensorId = 2 then
          some ({ s with heap := s.edit s.simRadar [.add fresh track] }, [])
        else some (s, [])
      | _ => some (s, [.fault .simulator])
    else none
  | .restart =>
    if s.alive .simulator then
      match s.vars .simulator with
      | .here =>
        let s := { s with heap := s.edit s.simVideo [.clear] }
        some ({ s with heap := s.edit s.simRadar [.clear] }, [])
      | _ => some (s, [.fault .simulator])
    else none
  | .pass penv =>
    if s.alive .fusion then
      match s.processor with
      | some p =>
        some ({ s with processor := some (fusionPass env.libm penv p) },
          [.fusion (.pass penv) []])
      | none => some (s, [.fault .fusion])
    else none
  | .query =>
    if s.alive .monitor then
      match s.vars .monitor, s.processor with
      | .here, some p => some (s, [.status p.trackCount])
      | _, _ => some (s, [.fault .monitor])
    else none

namespace MainPhase

/-- The process is still running. -/
def active : MainPhase → Bool
  | exited _ | undefined | killed => false
  | _ => true

end MainPhase

/-- A step of the program; there are none once it has ended. -/
def progStep (env : ProgEnv K) (s : Program K) :
    ProgAct K → Option (Program K × List (ProgEvent K))
  | .call c => if s.phase.active then callStep env s c else none
  | .worker w => if s.phase.active then workerStep env s w else none
  | .signal sig =>
    if s.phase.active then
      if sig ∈ installed then some (signalHandler s sig, []) else some (s.goto .killed, [])
    else none

end Step

end Mec
