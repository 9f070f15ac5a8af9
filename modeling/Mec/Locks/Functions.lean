import Mec.Lib.LockOrder

/-!
# The locks each function takes

The program's mutexes and, function by function, the order in which they are taken
and given back (`Code`): what depends on data is a choice, a loop is a repetition,
a call is the code of the callee. A `LOG_DEBUG` is below the level set by
`log_init` and returns before it locks; every other log call takes `log_mutex`.
The memory functions are those of `memory_new.c`.
-/

namespace Mec.Locks

open Lib.LockOrder Code

/-- The threads that `main` starts. -/
inductive Worker where
  | fusion
  | video
  | radar
  | simulator
  | monitor
  deriving DecidableEq, Repr

inductive Thread where
  | main
  | worker (w : Worker)
  deriving DecidableEq, Repr

/-- The mutexes: `log_mutex`, the lock of `g_stats`, the message queue's, the two
pools' and `stats_lock` of the memory module, the configuration's, the context's of
each thread and the `ref_lock` of each track list. -/
inductive Mutex where
  | log
  | stats
  | queue
  | smallPool
  | mediumPool
  | memStats
  | config
  | context (w : Worker)
  | listRef (list : Nat)
  deriving DecidableEq, Repr

/-- What `main` does besides: it starts a thread, it installs `signal_handler`. -/
inductive Call where
  | create (w : Worker)
  | install
  deriving DecidableEq, Repr

abbrev LockCode := Code Mutex Thread Call

/-- The order the locks are taken in. -/
def Mutex.rank : Mutex → Nat
  | context _ | config | stats => 0
  | queue => 1
  | listRef _ => 2
  | smallPool | mediumPool => 3
  | memStats => 4
  | log => 5

/-- `main` joins the others, and no other thread joins any. -/
def Thread.level : Thread → Nat
  | main => 1
  | worker _ => 0

variable {top n : Nat}

/-! ## `logging.c` and `error.c` -/

def logMessageWithContext : LockCode := guard .log

def logInit : LockCode := block [guard .log, logMessageWithContext]

def logCleanup : LockCode := guard .log

def signalHandler : LockCode := logMessageWithContext

/-- `mec_error_log`; also `MEC_LOG_ERROR_IF_ERROR`. -/
def mecErrorLog : LockCode := opt logMessageWithContext

@[simp] theorem logMessageWithContext_fits :
    logMessageWithContext.Fits Mutex.rank Thread.level top n ↔ n ≤ 5 := fits_guard

@[simp] theorem logInit_fits : logInit.Fits Mutex.rank Thread.level top n ↔ n ≤ 5 := by
  simp [logInit, Mutex.rank]

@[simp] theorem logCleanup_fits : logCleanup.Fits Mutex.rank Thread.level top n ↔ n ≤ 5 :=
  fits_guard

@[simp] theorem mecErrorLog_fits : mecErrorLog.Fits Mutex.rank Thread.level top n ↔ n ≤ 5 := by
  simp [mecErrorLog]

/-! ## `metrics.c` -/

def metricsRecordFrame : LockCode := guard .stats

/-- `metrics_report` logs inside its critical section. -/
def metricsReport : LockCode := lock .stats (opt logMessageWithContext)

@[simp] theorem metricsRecordFrame_fits :
    metricsRecordFrame.Fits Mutex.rank Thread.level top n ↔ n = 0 := by
  simp [metricsRecordFrame, Mutex.rank]

@[simp] theorem metricsReport_fits :
    metricsReport.Fits Mutex.rank Thread.level top n ↔ n = 0 := by
  simp [metricsReport, Mutex.rank]

/-! ## `memory_new.c` -/

def mecMemoryInit : LockCode :=
  block [logMessageWithContext, opt logMessageWithContext, opt logMessageWithContext,
    logMessageWithContext]

def mecMemoryCleanup : LockCode := block [logMessageWithContext, logMessageWithContext]

/-- A pool answers, or the system does, with a warning, or nobody. -/
def mecMalloc : LockCode :=
  block [alt (guard .smallPool) (opt (guard .mediumPool)),
    alt (guard .memStats) (opt (block [logMessageWithContext, guard .memStats]))]

/-- `NULL`; a block of the small pool; of the medium one; any other. -/
def mecFree : LockCode :=
  opt (alt (block [guard .smallPool, guard .memStats])
    (block [opt (guard .smallPool),
      alt (block [guard .mediumPool, guard .memStats]) (opt (guard .mediumPool))]))

def mecCalloc : LockCode := mecMalloc

def mecRealloc : LockCode := alt mecMalloc (alt mecFree (opt (block [mecMalloc, opt mecFree])))

def mecMemoryGetPeakUsage : LockCode := guard .memStats

@[simp] theorem mecMemoryInit_fits :
    mecMemoryInit.Fits Mutex.rank Thread.level top n ↔ n ≤ 5 := by
  simp [mecMemoryInit]

@[simp] theorem mecMemoryCleanup_fits :
    mecMemoryCleanup.Fits Mutex.rank Thread.level top n ↔ n ≤ 5 := by
  simp [mecMemoryCleanup]

@[simp] theorem mecMalloc_fits : mecMalloc.Fits Mutex.rank Thread.level top n ↔ n ≤ 3 := by
  simp only [mecMalloc, fits_block_cons, fits_block_nil, and_true, fits_alt, fits_opt, fits_guard,
    logMessageWithContext_fits, Mutex.rank]
  omega

@[simp] theorem mecFree_fits : mecFree.Fits Mutex.rank Thread.level top n ↔ n ≤ 3 := by
  simp only [mecFree, fits_block_cons, fits_block_nil, and_true, fits_alt, fits_opt, fits_guard,
    Mutex.rank]
  omega

@[simp] theorem mecCalloc_fits : mecCalloc.Fits Mutex.rank Thread.level top n ↔ n ≤ 3 :=
  mecMalloc_fits

@[simp] theorem mecRealloc_fits : mecRealloc.Fits Mutex.rank Thread.level top n ↔ n ≤ 3 := by
  simp [mecRealloc]

@[simp] theorem mecMemoryGetPeakUsage_fits :
    mecMemoryGetPeakUsage.Fits Mutex.rank Thread.level top n ↔ n ≤ 4 := fits_guard

/-! ## `track_list.c` -/

def trackListCreate : LockCode := opt (block [mecMalloc, opt mecFree])

def trackListRetain (list : Nat) : LockCode := opt (guard (.listRef list))

/-- The count goes down under the lock; the memory goes back after it. -/
def trackListRelease (list : Nat) : LockCode :=
  opt (block [guard (.listRef list), opt (block [mecFree, mecFree])])

def trackListAdd : LockCode := opt mecRealloc

@[simp] theorem trackListCreate_fits :
    trackListCreate.Fits Mutex.rank Thread.level top n ↔ n ≤ 3 := by
  simp [trackListCreate]

@[simp] theorem trackListRetain_fits {list : Nat} :
    (trackListRetain list).Fits Mutex.rank Thread.level top n ↔ n ≤ 2 := by
  simp [trackListRetain, Mutex.rank]

@[simp] theorem trackListRelease_fits {list : Nat} :
    (trackListRelease list).Fits Mutex.rank Thread.level top n ↔ n ≤ 2 := by
  simp only [trackListRelease, fits_opt, fits_block_cons, fits_block_nil, and_true, fits_guard,
    mecFree_fits, Mutex.rank]
  omega

@[simp] theorem trackListAdd_fits : trackListAdd.Fits Mutex.rank Thread.level top n ↔ n ≤ 3 := by
  simp [trackListAdd]

/-! ## `queue.c` -/

def mecQueueCreate : LockCode :=
  opt (block [mecMalloc, opt (block [mecCalloc, alt mecFree logMessageWithContext])])

/-- The queued lists are released inside the critical section. -/
def mecQueueDestroy : LockCode :=
  opt (block [lock .queue (star (any trackListRelease)), mecFree, mecFree, logMessageWithContext])

/-- `NULL`; a full queue, which is unlocked before the warning; a push. -/
def mecQueuePush (list : Nat) : LockCode :=
  opt (alt (block [guard .queue, logMessageWithContext]) (lock .queue (trackListRetain list)))

/-- Each wait on `not_empty` gives the mutex back and takes it again. -/
def mecQueuePop : LockCode := block [guard .queue, star (guard .queue)]

def mecQueueSize : LockCode := guard .queue

@[simp] theorem mecQueueCreate_fits :
    mecQueueCreate.Fits Mutex.rank Thread.level top n ↔ n ≤ 3 := by
  simp only [mecQueueCreate, fits_opt, fits_block_cons, fits_block_nil, and_true, fits_alt,
    mecMalloc_fits, mecCalloc_fits, mecFree_fits, logMessageWithContext_fits]
  omega

@[simp] theorem mecQueueDestroy_fits :
    mecQueueDestroy.Fits Mutex.rank Thread.level top n ↔ n ≤ 1 := by
  simp only [mecQueueDestroy, fits_opt, fits_block_cons, fits_block_nil, and_true, fits_lock,
    fits_star, fits_any, trackListRelease_fits, mecFree_fits, logMessageWithContext_fits,
    forall_const, Mutex.rank]
  omega

@[simp] theorem mecQueuePush_fits {list : Nat} :
    (mecQueuePush list).Fits Mutex.rank Thread.level top n ↔ n ≤ 1 := by
  simp only [mecQueuePush, fits_opt, fits_alt, fits_block_cons, fits_block_nil, and_true,
    fits_guard, fits_lock, trackListRetain_fits, logMessageWithContext_fits, Mutex.rank]
  omega

@[simp] theorem mecQueuePop_fits : mecQueuePop.Fits Mutex.rank Thread.level top n ↔ n ≤ 1 := by
  simp [mecQueuePop, Mutex.rank]

@[simp] theorem mecQueueSize_fits : mecQueueSize.Fits Mutex.rank Thread.level top n ↔ n ≤ 1 :=
  fits_guard

/-! ## `config.c` -/

/-- `config_load`: an error, no memory, or what was loaded. -/
def configLoad : LockCode := opt logMessageWithContext

def configReload : LockCode := configLoad

/-- `config_get_string`, `config_get_int` and `config_get_double`. -/
def configGet : LockCode := opt (guard .config)

@[simp] theorem configLoad_fits : configLoad.Fits Mutex.rank Thread.level top n ↔ n ≤ 5 := by
  simp [configLoad]

@[simp] theorem configReload_fits : configReload.Fits Mutex.rank Thread.level top n ↔ n ≤ 5 :=
  configLoad_fits

@[simp] theorem configGet_fits : configGet.Fits Mutex.rank Thread.level top n ↔ n = 0 := by
  simp [configGet, Mutex.rank]

/-! ## `thread.c` -/

/-- `thread_create` starts the thread or fails. -/
def threadCreate (w : Worker) : LockCode := opt (call (.create w))

/-- `thread_destroy` wakes the thread and joins it. -/
def threadDestroy (w : Worker) : LockCode := block [guard (.context w), opt (await (.worker w))]

@[simp] theorem threadCreate_fits {w : Worker} :
    (threadCreate w).Fits Mutex.rank Thread.level top n := by
  simp [threadCreate]

@[simp] theorem threadDestroy_fits {w : Worker} :
    (threadDestroy w).Fits Mutex.rank Thread.level top n ↔ n = 0 ∧ 0 < top := by
  simp [threadDestroy, Mutex.rank, Thread.level]

end Mec.Locks
