/-!
# Starting and stopping a processor (`thread.c`)

The functions that start and stop a processor's thread, with the calls they make
into the C library, in order. A call that fails does nothing and is not in the
list; what it answers is an argument. Whether a mutex is initialised or a thread
joined is the library's to know, not the context's.
-/

namespace Mec

/-- The thread functions. -/
inductive Routine where
  | videoProcessingThread
  | radarProcessingThread
  | fusionProcessingThread
  | simulatorThread
  | monitorServerThread
  deriving DecidableEq, Repr

/-- The calls: on the context's mutex, on its condition variable, to start and join
a thread, and on file descriptors. -/
inductive ThreadEvent where
  | mutexInit
  | mutexLock
  | mutexUnlock
  | mutexDestroy
  | condInit
  | condBroadcast
  | condDestroy
  | create (routine : Routine) (thread : Nat)
  | join (thread : Nat)
  | opened (fd : Int)
  | closed (fd : Int)
  deriving DecidableEq, Repr

structure ThreadContext where
  thread : Nat
  running : Bool
  deriving DecidableEq, Repr

/-- What `pthread_mutex_init`, `pthread_cond_init` and `pthread_create` return, and
the handle that is in `ctx->thread` after the last. -/
structure CreateAnswers where
  mutexInit : Int
  condInit : Int
  create : Int
  thread : Nat
  deriving DecidableEq, Repr

def threadCreate (startRoutine : Routine) (ans : CreateAnswers) (ctx : ThreadContext) :
    Int × ThreadContext × List ThreadEvent :=
  let ctx := { ctx with running := true }
  if ans.mutexInit ≠ 0 then (-1, ctx, [])
  else if ans.condInit ≠ 0 then (-1, ctx, [.mutexInit, .mutexDestroy])
  else
    (ans.create, { ctx with thread := ans.thread },
      if ans.create = 0 then [.mutexInit, .condInit, .create startRoutine ans.thread]
      else [.mutexInit, .condInit])

def threadDestroy (ctx : ThreadContext) : ThreadContext × List ThreadEvent :=
  ({ ctx with running := false },
    [.mutexLock, .condBroadcast, .mutexUnlock] ++
      (if ctx.thread ≠ 0 then [.join ctx.thread] else []) ++
      [.mutexDestroy, .condDestroy])

/-- The start functions that do nothing but start the thread. -/
def startThread (startRoutine : Routine) (ans : CreateAnswers) (ctx : ThreadContext) :
    Int × ThreadContext × List ThreadEvent :=
  match threadCreate startRoutine ans ctx with
  | (r, ctx, evs) => if r ≠ 0 then (-1, ctx, evs) else (0, ctx, evs)

def videoProcessorStart : CreateAnswers → ThreadContext → Int × ThreadContext × List ThreadEvent :=
  startThread .videoProcessingThread

def videoProcessorStop (ctx : ThreadContext) : ThreadContext × List ThreadEvent :=
  threadDestroy ctx

/-- `video_processor_destroy` as far as the thread goes; the same for the others. -/
def videoProcessorDestroy (ctx : ThreadContext) : List ThreadEvent := (videoProcessorStop ctx).2

def fusionProcessorStart : CreateAnswers → ThreadContext → Int × ThreadContext × List ThreadEvent :=
  startThread .fusionProcessingThread

def fusionProcessorStop (ctx : ThreadContext) : ThreadContext × List ThreadEvent :=
  threadDestroy ctx

def fusionProcessorDestroy (ctx : ThreadContext) : List ThreadEvent := (fusionProcessorStop ctx).2

def simulatorStart : CreateAnswers → ThreadContext → Int × ThreadContext × List ThreadEvent :=
  startThread .simulatorThread

def simulatorStop (ctx : ThreadContext) : ThreadContext × List ThreadEvent := threadDestroy ctx

def simulatorDestroy (ctx : ThreadContext) : List ThreadEvent := (simulatorStop ctx).2

/-- `monitor_stop_service` as far as the thread goes; the mutex and the condition variable
are freed with the monitor. -/
def monitorStopService (ctx : ThreadContext) : List ThreadEvent :=
  if ctx.thread ≠ 0 then [.mutexLock, .condBroadcast, .mutexUnlock, .join ctx.thread] else []

/-! ## The radar's serial port -/

/-- What `open`, `tcgetattr` and `tcsetattr` return. -/
structure PortAnswers where
  fd : Int
  tcgetattr : Int
  tcsetattr : Int
  deriving DecidableEq, Repr

def setupSerialPort (port : PortAnswers) (baudRate : Int) : Int × List ThreadEvent :=
  if port.fd < 0 then (-1, [])
  else if port.tcgetattr ≠ 0 then (-1, [.opened port.fd, .closed port.fd])
  else if baudRate ∉ [9600, 19200, 38400, 57600, 115200] then
    (-1, [.opened port.fd, .closed port.fd])
  else if port.tcsetattr ≠ 0 then (-1, [.opened port.fd, .closed port.fd])
  else (port.fd, [.opened port.fd])

/-- What `radar_processor_start` and `radar_processor_stop` use of `radar_processor_t`. -/
structure RadarProcessor where
  baudRate : Int
  threadCtx : ThreadContext
  fd : Int
  deriving DecidableEq, Repr

def radarProcessorStart (ans : PortAnswers × CreateAnswers) (processor : RadarProcessor) :
    Int × RadarProcessor × List ThreadEvent :=
  match setupSerialPort ans.1 processor.baudRate with
  | (fd, opening) =>
    if fd < 0 then (-1, { processor with fd := fd }, opening)
    else
      match threadCreate .radarProcessingThread ans.2 processor.threadCtx with
      | (r, ctx, evs) =>
        if r ≠ 0 then
          (-1, { processor with threadCtx := ctx, fd := -1 }, opening ++ evs ++ [.closed fd])
        else (0, { processor with threadCtx := ctx, fd := fd }, opening ++ evs)

def radarProcessorStop (processor : RadarProcessor) : RadarProcessor × List ThreadEvent :=
  match threadDestroy processor.threadCtx with
  | (ctx, evs) =>
    if 0 ≤ processor.fd then
      ({ processor with threadCtx := ctx, fd := -1 }, evs ++ [.closed processor.fd])
    else ({ processor with threadCtx := ctx }, evs)

def radarProcessorDestroy (processor : RadarProcessor) : List ThreadEvent :=
  match radarProcessorStop processor with
  | (processor, evs) => if 0 ≤ processor.fd then evs ++ [.closed processor.fd] else evs

end Mec
