import Mec.Locks.Functions

/-!
# The locks each thread takes

The lock code of the six threads, from the functions of `Mec.Locks.Functions`.
The video processor is the mock one, which is what is built. A thread's loop is a
repetition of its body. `main` goes through its steps and skips to the cleanup
where one fails.
-/

namespace Mec.Locks

open Lib.LockOrder Code

variable {top n : Nat}

/-! ## `simulator.c` -/

def simulatorStop : LockCode := opt (threadDestroy .simulator)

/-- `simulator_destroy`, with the two lists it releases. -/
def simulatorDestroy : LockCode :=
  opt (block [simulatorStop, any trackListRelease, any trackListRelease, mecFree])

def simulatorCreate : LockCode :=
  opt (block [mecMalloc,
    opt (block [trackListCreate, trackListCreate, alt simulatorDestroy logMessageWithContext])])

def simulatorStart : LockCode := block [threadCreate .simulator, opt logMessageWithContext]

/-- The injection of one line. -/
def simulatorInject : LockCode := lock (.context .simulator) (opt trackListAdd)

/-- Every round plays the file and logs the restart; the last one finds no file, or
stops after it. -/
def simulatorThread : LockCode :=
  block [star (block [star simulatorInject, logMessageWithContext]),
    alt logMessageWithContext (star simulatorInject)]

@[simp] theorem simulatorStop_fits :
    simulatorStop.Fits Mutex.rank Thread.level top n ↔ n = 0 ∧ 0 < top := by
  simp [simulatorStop]

@[simp] theorem simulatorDestroy_fits :
    simulatorDestroy.Fits Mutex.rank Thread.level top n ↔ n = 0 ∧ 0 < top := by
  simp only [simulatorDestroy, fits_opt, fits_block_cons, fits_block_nil, and_true, fits_any,
    simulatorStop_fits, trackListRelease_fits, mecFree_fits, forall_const]
  omega

theorem simulatorThread_fits : simulatorThread.Fits Mutex.rank Thread.level top 0 := by
  simp [simulatorThread, simulatorInject, Mutex.rank]

/-! ## `video_processor_mock.c` -/

def videoProcessorCreate : LockCode :=
  opt (block [mecMalloc, opt (block [trackListCreate, logMessageWithContext])])

def videoProcessorStart : LockCode := opt (block [threadCreate .video, opt logMessageWithContext])

def videoProcessorStop : LockCode := opt (threadDestroy .video)

def videoProcessorDestroy : LockCode :=
  opt (block [videoProcessorStop, any trackListRelease, mecFree])

def videoProcessingThread : LockCode :=
  star (lock (.context .video) (block [trackListAdd, opt (any mecQueuePush)]))

theorem videoProcessingThread_fits :
    videoProcessingThread.Fits Mutex.rank Thread.level top 0 := by
  simp [videoProcessingThread, Mutex.rank]

/-! ## `radar_processor.c` -/

def radarProcessorCreate : LockCode :=
  opt (block [mecMalloc,
    opt (block [trackListCreate, alt mecFree logMessageWithContext])])

def setupSerialPort : LockCode := opt logMessageWithContext

/-- The port, and then the thread, with a message whether it starts or not. -/
def radarProcessorStart : LockCode :=
  opt (block [setupSerialPort, opt (block [threadCreate .radar, logMessageWithContext])])

def radarProcessorStop : LockCode := opt (block [threadDestroy .radar, logMessageWithContext])

def radarProcessorDestroy : LockCode :=
  opt (block [radarProcessorStop, any trackListRelease, mecFree])

/-- `radar_read_data` warns of every checksum that is wrong. -/
def radarReadData : LockCode := star logMessageWithContext

def radarProcessingThread : LockCode :=
  star (block [radarReadData,
    opt (lock (.context .radar) (block [trackListAdd, opt (any mecQueuePush)]))])

theorem radarProcessingThread_fits :
    radarProcessingThread.Fits Mutex.rank Thread.level top 0 := by
  simp [radarProcessingThread, radarReadData, Mutex.rank]

/-! ## `fusion_processor.c` -/

def fusionProcessorCreate : LockCode :=
  opt (block [mecMalloc,
    opt (block [mecCalloc, alt mecFree (block [trackListCreate, logMessageWithContext])])])

def fusionProcessorStart : LockCode :=
  opt (block [threadCreate .fusion, opt logMessageWithContext])

def fusionProcessorStop : LockCode := opt (threadDestroy .fusion)

def fusionProcessorDestroy : LockCode :=
  opt (block [fusionProcessorStop, any trackListRelease, mecFree, mecFree])

def fusionProcessorAddTracks : LockCode := opt (guard (.context .fusion))

def fusionProcessingThread : LockCode := star (lock (.context .fusion) (star trackListAdd))

theorem fusionProcessingThread_fits :
    fusionProcessingThread.Fits Mutex.rank Thread.level top 0 := by
  simp [fusionProcessingThread, Mutex.rank]

/-! ## `monitor.c` -/

def monitorStartService : LockCode :=
  opt (block [mecMalloc,
    opt (block [threadCreate .monitor, opt (block [logMessageWithContext, mecFree])])])

/-- `monitor_stop_service` wakes and joins its thread itself. -/
def monitorStopService : LockCode :=
  opt (block [opt (block [guard (.context .monitor), await (.worker .monitor),
    opt logMessageWithContext]), mecFree])

/-- Whatever fails, and the service itself, is logged once. -/
def monitorServerThread : LockCode := logMessageWithContext

/-! ## `main.c` -/

/-- A setting is read and its error code logged. -/
def readSetting : LockCode := block [configGet, mecErrorLog]

/-- The reload at the top of the main loop. -/
def handleReload : LockCode :=
  block [configReload,
    alt (block [readSetting, readSetting, logMessageWithContext]) logMessageWithContext]

/-- A message: it is fed, its list released and its latency recorded. -/
def handleMessage : LockCode :=
  block [fusionProcessorAddTracks, mecErrorLog, any trackListRelease, metricsRecordFrame]

/-- No message: the heartbeat now and then (the queue's size is asked before the log
call), and the simulator's list. -/
def handleIdle : LockCode :=
  block [opt (block [mecQueueSize, logMessageWithContext, metricsReport]),
    opt (block [fusionProcessorAddTracks, mecErrorLog])]

def mainLoop : LockCode :=
  star (block [opt handleReload, mecQueuePop, alt handleMessage handleIdle])

/-- From the start of the fusion thread on. -/
def mainServices : LockCode :=
  block [fusionProcessorStart, alt logMessageWithContext
    (block [monitorStartService, opt logMessageWithContext, logMessageWithContext, mainLoop])]

/-- The simulator as the source, and then the rest. -/
def mainSimulated : LockCode :=
  block [readSetting, simulatorCreate, alt logMessageWithContext
    (block [simulatorStart, alt logMessageWithContext mainServices])]

/-- The sensors as the sources, and then the rest. -/
def mainSensors : LockCode :=
  block [readSetting, readSetting, videoProcessorCreate, alt logMessageWithContext
    (block [radarProcessorCreate, alt logMessageWithContext
      (block [videoProcessorStart, alt logMessageWithContext
        (block [radarProcessorStart, alt logMessageWithContext mainServices])])])]

/-- From the queue on: the settings of the fusion, its processor, the sources. -/
def mainSetup : LockCode :=
  block [mecQueueCreate, alt logMessageWithContext
    (block [star readSetting, fusionProcessorCreate, alt logMessageWithContext
      (alt mainSimulated mainSensors)])]

/-- The label `cleanup`; what was not set up is skipped. -/
def mainCleanup : LockCode :=
  block [logMessageWithContext, opt monitorStopService,
    opt (block [simulatorStop, simulatorDestroy]),
    opt (block [videoProcessorStop, videoProcessorDestroy]),
    opt (block [radarProcessorStop, radarProcessorDestroy]),
    opt (block [fusionProcessorStop, fusionProcessorDestroy]),
    opt mecQueueDestroy, logCleanup, mecMemoryCleanup, mecMemoryGetPeakUsage,
    logMessageWithContext]

/-- The handlers are installed between the first log message and the configuration.
Without a configuration and a simulation there is nothing to set up. -/
def main : LockCode :=
  block [mecMemoryInit, logInit, logMessageWithContext, call .install, configLoad,
    alt (block [logMessageWithContext, logMessageWithContext])
      (block [opt logMessageWithContext, mainSetup]),
    mainCleanup]

def threadCode : Thread → LockCode
  | .main => main
  | .worker .fusion => fusionProcessingThread
  | .worker .video => videoProcessingThread
  | .worker .radar => radarProcessingThread
  | .worker .simulator => simulatorThread
  | .worker .monitor => monitorServerThread

theorem mainServices_fits : mainServices.Fits Mutex.rank Thread.level 1 0 := by
  simp [mainServices, fusionProcessorStart, monitorStartService, mainLoop, handleReload,
    handleMessage, handleIdle, readSetting, fusionProcessorAddTracks, Mutex.rank]

theorem mainSetup_fits : mainSetup.Fits Mutex.rank Thread.level 1 0 := by
  simp [mainSetup, mainSimulated, mainSensors, mainServices_fits, readSetting, simulatorCreate,
    simulatorStart, videoProcessorCreate, videoProcessorStart, radarProcessorCreate,
    setupSerialPort, radarProcessorStart, fusionProcessorCreate]

theorem mainCleanup_fits : mainCleanup.Fits Mutex.rank Thread.level 1 0 := by
  simp [mainCleanup, monitorStopService, videoProcessorStop, videoProcessorDestroy,
    radarProcessorStop, radarProcessorDestroy, fusionProcessorStop, fusionProcessorDestroy,
    Mutex.rank, Thread.level]

theorem threadCode_fits (t : Thread) :
    (threadCode t).Fits Mutex.rank Thread.level t.level 0 := by
  cases t with
  | main => simp [threadCode, main, mainSetup_fits, mainCleanup_fits, Thread.level]
  | worker w =>
    cases w with
    | fusion => exact fusionProcessingThread_fits
    | video => exact videoProcessingThread_fits
    | radar => exact radarProcessingThread_fits
    | simulator => exact simulatorThread_fits
    | monitor => simp [threadCode, monitorServerThread]

end Mec.Locks
