import Mathlib.Data.List.DropRight
import Mathlib.Logic.Function.Basic
import Mec.Lib.Lts
import Mec.Lib.Print

/-!
# The log (`logging.c`)

A thread that logs a record tests its level without the mutex and then, under it, prints
one line to the terminal, the log file or both. The log file is opened by `log_init` and
closed by the next one or by `log_cleanup`; `log_cleanup` leaves the target as it is, so
that records logged afterwards are lost.
-/

namespace Mec

open Lib.Lts Lib.Print

inductive LogTarget where
  | console
  | file
  | both
  deriving DecidableEq

/-- The streams of the process: the terminal's, or the file under a path. -/
inductive LogStream where
  | stdout
  | stderr
  | file (path : List Char)
  deriving DecidableEq

/-- `log_manager_t`; nothing reads the fields for rotation. -/
structure LogManager where
  logFile : Option LogStream
  minLevel : Int
  target : LogTarget
  filepath : List Char
  filepath_lt : filepath.length < 256

/-- `g_log_manager` before any call. -/
def LogManager.initial : LogManager where
  logFile := none
  minLevel := 1
  target := .console
  filepath := "/tmp/mec_system.log".toList
  filepath_lt := by decide

/-- The arguments of `log_message_with_context`, with what `vsnprintf` makes of the format. -/
structure LogRecord where
  level : Int
  file : List Char
  line : Int
  func : List Char
  text : List Char

def levelStr (level : Int) : List Char :=
  if level = 0 then "DEBUG  ".toList
  else if level = 1 then "INFO   ".toList
  else if level = 2 then "WARN  ".toList
  else if level = 3 then "ERROR ".toList
  else if level = 4 then "CRITICAL".toList
  else "UNKNOWN".toList

def fileName (file : List Char) : List Char := file.rtakeWhile (· ≠ '/')

/-- `module_info`, in 256 bytes. -/
def moduleInfo (r : LogRecord) : List Char :=
  (render [.str, .lit [':'], .int, .lit " in ".toList, .str, .lit "(): ".toList]
    [.text (fileName r.file), .num r.line, .text r.func]).take 255

/-- `log_write_message`; `formatted_msg` has 1024 bytes. -/
def logWriteMessage (timestamp : List Char) (r : LogRecord) : List Char :=
  render [.lit ['['], .str, .lit "] [".toList, .str, .lit "] ".toList, .str, .str, .lit ['\n']]
    [.text timestamp, .text (levelStr r.level), .text (moduleInfo r), .text (r.text.take 1023)]

namespace LogManager

variable (m : LogManager)

/-- The log file unless it is one of the terminal's streams. -/
def openFile : Option (List Char) :=
  match m.logFile with
  | some (.file path) => some path
  | _ => none

def closeFile : LogManager := if m.openFile.isSome then { m with logFile := none } else m

theorem take_path_lt (name : List Char) : (name.take 255).length < 256 := by
  rw [List.length_take]
  omega

/-- `log_init` under the mutex; `opens` says whether `fopen` succeeds. -/
def init (filename : Option (List Char)) (level : Int) (opens : Bool) : LogManager :=
  let m := { m.closeFile with minLevel := level }
  match filename with
  | none => { m with logFile := some .stdout, target := .console }
  | some name =>
    { m with
      filepath := name.take 255
      filepath_lt := take_path_lt name
      logFile := if opens then some (.file (name.take 255)) else some .stderr
      target := if opens then .file else .console }

def streams : List LogStream :=
  (if m.target = .file then [] else [.stdout]) ++
    if m.target = .console then [] else m.logFile.toList

end LogManager

/-- The manager, what the streams hold, and the records that passed the level test and wait
for the mutex, by thread. `opened` and `closed` count the calls of `fopen` and `fclose`. -/
structure LogSys where
  manager : LogManager
  written : LogStream → List Char
  waiting : Nat → Option LogRecord
  opened : Nat
  closed : Nat

inductive LogAct where
  | init (filename : Option (List Char)) (level : Int) (opens : Bool)
  | cleanup
  | setLevel (level : Int)
  | setTarget (target : LogTarget)
  /-- The level test of `log_message_with_context`. -/
  | test (thread : Nat) (r : LogRecord)
  /-- The rest of it, at the time `timestamp`. -/
  | write (thread : Nat) (timestamp : List Char)

/-- What a call does for the record in it: the level test drops it or not, or it is written
to these streams. -/
inductive LogReply where
  | quiet
  | filtered
  | admitted
  | wrote (r : LogRecord) (streams : List LogStream)

structure LogLine where
  stream : LogStream
  timestamp : List Char
  record : LogRecord

def LogLine.text (l : LogLine) : List Char := logWriteMessage l.timestamp l.record

namespace LogSys

def start (written : LogStream → List Char) : LogSys where
  manager := .initial
  written := written
  waiting _ := none
  opened := 0
  closed := 0

def append (s : LogSys) (l : LogLine) : LogSys :=
  { s with written := Function.update s.written l.stream (s.written l.stream ++ l.text) }

end LogSys

def recordLines (timestamp : List Char) (r : LogRecord) (streams : List LogStream) :
    List LogLine := streams.map fun stream => ⟨stream, timestamp, r⟩

def logStep (s : LogSys) : LogAct → Option (LogSys × LogReply)
  | .init filename level opens =>
    some ({ s with
      manager := s.manager.init filename level opens
      opened := if filename.isSome ∧ opens then s.opened + 1 else s.opened
      closed := if s.manager.openFile.isSome then s.closed + 1 else s.closed }, .quiet)
  | .cleanup =>
    some ({ s with
      manager := s.manager.closeFile
      closed := if s.manager.openFile.isSome then s.closed + 1 else s.closed }, .quiet)
  | .setLevel level => some ({ s with manager := { s.manager with minLevel := level } }, .quiet)
  | .setTarget target => some ({ s with manager := { s.manager with target } }, .quiet)
  | .test thread r =>
    if (s.waiting thread).isSome then none
    else if r.level < s.manager.minLevel then some (s, .filtered)
    else some ({ s with waiting := Function.update s.waiting thread (some r) }, .admitted)
  | .write thread timestamp => (s.waiting thread).map fun r =>
    ({ (recordLines timestamp r s.manager.streams).foldl LogSys.append s with
      waiting := Function.update s.waiting thread none }, .wrote r s.manager.streams)

abbrev LogTrace := List (LogAct × LogReply)

namespace LogTrace

def stepLines : LogAct × LogReply → List LogLine
  | (.write _ timestamp, .wrote r streams) => recordLines timestamp r streams
  | _ => []

def lines (tr : LogTrace) (stream : LogStream) : List LogLine :=
  (tr.flatMap stepLines).filter fun l => l.stream = stream

/-- The record that passes a thread's level test. -/
def admitted? (thread : Nat) : LogAct × LogReply → Option LogRecord
  | (.test i r, .admitted) => if i = thread then some r else none
  | _ => none

/-- The record a thread's call ends with, and the streams it went to: none if it is lost. -/
def handled? (thread : Nat) : LogAct × LogReply → Option (LogRecord × List LogStream)
  | (.write i _, .wrote r streams) => if i = thread then some (r, streams) else none
  | _ => none

/-- A record that a thread's call wrote somewhere. -/
def wrote? (thread : Nat) (x : LogAct × LogReply) : Option LogRecord :=
  (handled? thread x).bind fun y => if y.2 = [] then none else some y.1

end LogTrace

/-- The level and the target set last, and the log file. -/
structure LogSettings where
  level : Int
  target : LogTarget
  file : Option LogStream

namespace LogSettings

def initial : LogSettings := ⟨1, .console, none⟩

def next (c : LogSettings) : LogAct → LogSettings
  | .init none level _ => ⟨level, .console, some .stdout⟩
  | .init (some name) level true => ⟨level, .file, some (.file (name.take 255))⟩
  | .init (some _) level false => ⟨level, .console, some .stderr⟩
  | .cleanup => match c.file with
    | some (.file _) => { c with file := none }
    | _ => c
  | .setLevel level => { c with level }
  | .setTarget target => { c with target }
  | .test .. | .write .. => c

/-- Where the target sends a record. -/
def streams (c : LogSettings) : List LogStream :=
  match c.target with
  | .console => [.stdout]
  | .file => c.file.toList
  | .both => .stdout :: c.file.toList

/-- The target is the log file, and there is none. -/
def Loses (c : LogSettings) : Prop := c.target = .file ∧ c.file = none

theorem streams_eq_nil {c : LogSettings} : c.streams = [] ↔ c.Loses := by
  unfold streams Loses
  cases c.target <;> simp

end LogSettings

def LogManager.settings (m : LogManager) : LogSettings := ⟨m.minLevel, m.target, m.logFile⟩

theorem LogManager.streams_eq (m : LogManager) : m.streams = m.settings.streams := by
  unfold LogManager.streams LogSettings.streams LogManager.settings
  cases m.target <;> rfl

/-- What the calls of a run have set. -/
def LogTrace.settings (tr : LogTrace) : LogSettings :=
  tr.foldl (fun c x => c.next x.1) .initial

/-! ## What the streams hold -/

theorem foldl_append (lines : List LogLine) (s : LogSys) (stream : LogStream) :
    (lines.foldl LogSys.append s).written stream =
      s.written stream ++ (lines.filter fun l => l.stream = stream).flatMap LogLine.text := by
  induction lines generalizing s with
  | nil => simp
  | cons l lines ih =>
    rw [List.foldl_cons, ih]
    by_cases h : l.stream = stream
    · subst h
      simp [LogSys.append]
    · simp [LogSys.append, h, Function.update_of_ne (Ne.symm h)]

theorem foldl_append_manager (lines : List LogLine) (s : LogSys) :
    (lines.foldl LogSys.append s).manager = s.manager ∧
      (lines.foldl LogSys.append s).opened = s.opened ∧
      (lines.foldl LogSys.append s).closed = s.closed := by
  induction lines generalizing s with
  | nil => exact ⟨rfl, rfl, rfl⟩
  | cons l lines ih => exact ih (s.append l)

theorem lines_snoc (tr : LogTrace) (x : LogAct × LogReply) (stream : LogStream) :
    LogTrace.lines (tr ++ [x]) stream =
      LogTrace.lines tr stream ++ (LogTrace.stepLines x).filter fun l => l.stream = stream := by
  simp [LogTrace.lines]

/-- The streams hold the lines of the run, a thread's records are handled in the order of its
calls, and the manager is set as the calls asked. -/
structure Logged (written : LogStream → List Char) (tr : LogTrace) (s : LogSys) : Prop where
  written : ∀ stream,
    s.written stream = written stream ++ (LogTrace.lines tr stream).flatMap LogLine.text
  calls : ∀ thread,
    (tr.filterMap (LogTrace.handled? thread)).map Prod.fst ++ (s.waiting thread).toList =
      tr.filterMap (LogTrace.admitted? thread)
  settings : s.manager.settings = LogTrace.settings tr

variable {written : LogStream → List Char} {tr : LogTrace} {s t : LogSys}

theorem closeFile_settings (m : LogManager) :
    m.closeFile.settings = m.settings.next .cleanup := by
  obtain ⟨file, level, target, path, hpath⟩ := m
  cases file with
  | none => rfl
  | some stream => cases stream <;> rfl

theorem init_settings (m : LogManager) (filename : Option (List Char)) (level : Int)
    (opens : Bool) :
    (m.init filename level opens).settings = m.settings.next (.init filename level opens) := by
  cases filename <;> cases opens <;> rfl

theorem logStep_settings {a : LogAct} {e : LogReply} (h : logStep s a = some (t, e)) :
    t.manager.settings = s.manager.settings.next a := by
  cases a with
  | init filename level opens =>
    cases h
    exact init_settings ..
  | cleanup =>
    cases h
    exact closeFile_settings _
  | setLevel level | setTarget target =>
    cases h
    rfl
  | test thread r =>
    obtain ⟨-, h⟩ := Option.ite_none_left_eq_some.mp h
    split at h <;> cases h <;> rfl
  | write thread timestamp =>
    obtain ⟨r, -, heq⟩ := Option.map_eq_some_iff.mp h
    cases heq
    show ((recordLines timestamp r s.manager.streams).foldl LogSys.append s).manager.settings = _
    rw [(foldl_append_manager _ s).1]
    rfl

theorem settings_snoc (tr : LogTrace) (x : LogAct × LogReply) :
    LogTrace.settings (tr ++ [x]) = (LogTrace.settings tr).next x.1 := by
  unfold LogTrace.settings
  rw [List.foldl_append]
  rfl

theorem Logged.quiet (hs : Logged written tr s) {a : LogAct} {e : LogReply}
    (hlines : LogTrace.stepLines (a, e) = [])
    (hhandled : ∀ thread, LogTrace.handled? thread (a, e) = none)
    (hadmitted : ∀ thread, LogTrace.admitted? thread (a, e) = none)
    (hwritten : t.written = s.written) (hwaiting : t.waiting = s.waiting)
    (hsettings : t.manager.settings = LogTrace.settings (tr ++ [(a, e)])) :
    Logged written (tr ++ [(a, e)]) t where
  written stream := by
    rw [hwritten, lines_snoc, hlines, List.filter_nil, List.append_nil]
    exact hs.written stream
  calls thread := by
    rw [hwaiting, List.filterMap_append, List.filterMap_append,
      List.filterMap_cons_none (hhandled thread), List.filterMap_cons_none (hadmitted thread)]
    simpa using hs.calls thread
  settings := hsettings

theorem Logged.step (tr : LogTrace) (s : LogSys) (a : LogAct) (t : LogSys) (e : LogReply)
    (hs : Logged written tr s) (h : logStep s a = some (t, e)) :
    Logged written (tr ++ [(a, e)]) t := by
  have hsettings : t.manager.settings = LogTrace.settings (tr ++ [(a, e)]) := by
    rw [logStep_settings h, hs.settings, settings_snoc]
  cases a with
  | init filename level opens =>
    cases h
    exact hs.quiet rfl (fun _ => rfl) (fun _ => rfl) rfl rfl hsettings
  | cleanup =>
    cases h
    exact hs.quiet rfl (fun _ => rfl) (fun _ => rfl) rfl rfl hsettings
  | setLevel level =>
    cases h
    exact hs.quiet rfl (fun _ => rfl) (fun _ => rfl) rfl rfl hsettings
  | setTarget target =>
    cases h
    exact hs.quiet rfl (fun _ => rfl) (fun _ => rfl) rfl rfl hsettings
  | test thread r =>
    obtain ⟨hfree, h⟩ := Option.ite_none_left_eq_some.mp h
    split at h
    · cases h
      exact hs.quiet rfl (fun _ => rfl) (fun _ => rfl) rfl rfl hsettings
    · cases h
      refine ⟨fun stream => ?_, fun i => ?_, hsettings⟩
      · rw [lines_snoc]
        simpa [LogTrace.stepLines] using hs.written stream
      · have hcalls := hs.calls i
        rw [List.filterMap_append, List.filterMap_append, ← hcalls]
        by_cases hi : thread = i
        · subst hi
          have hnone : s.waiting thread = none := by simpa using hfree
          simp [LogTrace.handled?, LogTrace.admitted?, hnone]
        · simp [LogTrace.handled?, LogTrace.admitted?, hi, Function.update_of_ne (Ne.symm hi)]
  | write thread timestamp =>
    obtain ⟨r, hr, heq⟩ := Option.map_eq_some_iff.mp h
    cases heq
    refine ⟨fun stream => ?_, fun i => ?_, hsettings⟩
    · show ((recordLines timestamp r s.manager.streams).foldl LogSys.append s).written stream = _
      rw [foldl_append, lines_snoc, hs.written stream, List.append_assoc, ← List.flatMap_append]
      rfl
    · have hcalls := hs.calls i
      rw [List.filterMap_append, List.filterMap_append, ← hcalls]
      by_cases hi : thread = i
      · subst hi
        simp [LogTrace.handled?, LogTrace.admitted?, hr]
      · simp [LogTrace.handled?, LogTrace.admitted?, hi, Function.update_of_ne (Ne.symm hi)]

theorem wrote_eq_handled (thread : Nat) :
    (∀ y ∈ tr.filterMap (LogTrace.handled? thread), y.2 ≠ []) →
      tr.filterMap (LogTrace.wrote? thread) =
        (tr.filterMap (LogTrace.handled? thread)).map Prod.fst := by
  intro hne
  rw [List.map_filterMap]
  refine List.filterMap_congr fun x hx => ?_
  cases hy : LogTrace.handled? thread x with
  | none => simp [LogTrace.wrote?, hy]
  | some y => simp [LogTrace.wrote?, hy, hne y (List.mem_filterMap.mpr ⟨x, hx, hy⟩)]

/-! ## Reading it back -/

/-- A line as it stands in the file. -/
def logFormat : List Piece :=
  [.lit ['['], .str, .lit "] [".toList, .str, .lit "] ".toList, .str, .lit [':'], .int,
    .lit " in ".toList, .str, .lit "(): ".toList, .str, .lit ['\n']]

/-- What can be read from a line. -/
def LogLine.entry (l : LogLine) : List Arg :=
  [.text l.timestamp, .text (levelStr l.record.level), .text (fileName l.record.file),
    .num l.record.line, .text l.record.func, .text l.record.text]

/-- None of the line's texts has the character that ends it, and nothing is cut off. -/
structure LogLine.Plain (l : LogLine) : Prop where
  timestamp : ']' ∉ l.timestamp
  file : ':' ∉ fileName l.record.file
  func : '(' ∉ l.record.func
  text : '\n' ∉ l.record.text
  line : -2147483648 ≤ l.record.line ∧ l.record.line < 2147483648
  module_le : (fileName l.record.file).length + (printInt l.record.line).length +
    l.record.func.length ≤ 246
  text_le : l.record.text.length ≤ 1023

theorem LogLine.Plain.text_eq {l : LogLine} (h : l.Plain) :
    l.text = render logFormat l.entry := by
  have hmodule : moduleInfo l.record =
      fileName l.record.file ++ (':' :: (printInt l.record.line ++ (" in ".toList ++
        (l.record.func ++ "(): ".toList)))) := by
    unfold moduleInfo
    rw [List.take_of_length_le]
    · simp [render]
    · have := h.module_le
      simp [render]
      omega
  unfold LogLine.text logWriteMessage
  rw [hmodule, List.take_of_length_le h.text_le]
  simp [render, logFormat, LogLine.entry]

theorem LogLine.Plain.readable {l : LogLine} (h : l.Plain) : Readable logFormat l.entry := by
  have hlevel : ']' ∉ levelStr l.record.level := by
    unfold levelStr
    repeat' split
    all_goals decide
  exact ⟨⟨']', rfl, h.timestamp⟩, ⟨']', rfl, hlevel⟩, ⟨':', rfl, h.file⟩, h.line,
    ⟨' ', rfl, by decide⟩, ⟨'(', rfl, h.func⟩, ⟨'\n', rfl, h.text⟩, trivial⟩

/-- **The log is what was logged.** In every run, with any number of threads logging and any
calls of `log_init`, `log_cleanup`, `log_set_level` and `log_set_target` in between: a stream
has gained the lines written to it, in order, and lines whose texts are plain read back from
it one by one; a call lets its record through unless it is below the level set last at its
test; each thread's records that were let through end in the order of its calls, each once;
and a record ends in the streams that the calls so far ask for, or is lost just where the
target is the log file and there is none. -/
theorem log_exact (hrun : Run logStep (.start written) tr s) :
    (∀ stream, ∃ text, s.written stream = written stream ++ text ∧
      text = (LogTrace.lines tr stream).flatMap LogLine.text ∧
      ((∀ l ∈ LogTrace.lines tr stream, l.Plain) →
        readFile logFormat text = some ((LogTrace.lines tr stream).map LogLine.entry))) ∧
    (∀ tr₁ thread r e tr₂, tr = tr₁ ++ (.test thread r, e) :: tr₂ →
      (e = .admitted ↔ (LogTrace.settings tr₁).level ≤ r.level)) ∧
    (∀ thread,
      (tr.filterMap (LogTrace.handled? thread)).map Prod.fst ++ (s.waiting thread).toList =
          tr.filterMap (LogTrace.admitted? thread) ∧
        ((∀ y ∈ tr.filterMap (LogTrace.handled? thread), y.2 ≠ []) →
          tr.filterMap (LogTrace.wrote? thread) ++ (s.waiting thread).toList =
            tr.filterMap (LogTrace.admitted? thread))) ∧
    ∀ tr₁ thread timestamp r streams tr₂,
      tr = tr₁ ++ (.write thread timestamp, .wrote r streams) :: tr₂ →
      streams = (LogTrace.settings tr₁).streams ∧
        (streams = [] ↔ (LogTrace.settings tr₁).Loses) := by
  have hstart : Logged written [] (.start written) :=
    ⟨fun stream => (List.append_nil _).symm, fun thread => rfl, rfl⟩
  have hall := hrun.history_nil Logged.step hstart
  refine ⟨fun stream => ⟨_, hall.written stream, rfl, fun hplain => ?_⟩, ?_, fun thread => ?_, ?_⟩
  · have heq : (LogTrace.lines tr stream).flatMap LogLine.text =
        ((LogTrace.lines tr stream).map LogLine.entry).flatMap (render logFormat) := by
      rw [List.flatMap_map]
      exact List.flatMap_congr fun l hl => (hplain l hl).text_eq
    have hne : ∀ args ∈ (LogTrace.lines tr stream).map LogLine.entry,
        render logFormat args ≠ [] := by
      intro args _
      exact List.cons_ne_nil _ _
    rw [heq]
    refine readFile_render (fun args hargs => ?_) hne
    obtain ⟨l, hl, rfl⟩ := List.mem_map.mp hargs
    exact (hplain l hl).readable
  · rintro tr₁ thread r e tr₂ rfl
    obtain ⟨u, hu, hrest⟩ := hrun.split
    have hlevel : u.manager.minLevel = (LogTrace.settings tr₁).level :=
      congrArg LogSettings.level (hu.history_nil Logged.step hstart).settings
    cases hrest with
    | cons hstep _ =>
      obtain ⟨-, h⟩ := Option.ite_none_left_eq_some.mp hstep
      rw [← hlevel]
      split at h
      · next hlt =>
        cases h
        exact iff_of_false (by simp) (not_le.mpr hlt)
      · next hlt =>
        cases h
        exact iff_of_true rfl (not_lt.mp hlt)
  · refine ⟨hall.calls thread, fun hne => ?_⟩
    rw [wrote_eq_handled thread hne]
    exact hall.calls thread
  · rintro tr₁ thread timestamp r streams tr₂ rfl
    obtain ⟨u, hu, hrest⟩ := hrun.split
    have hsettings := (hu.history_nil Logged.step hstart).settings
    cases hrest with
    | cons hstep _ =>
      obtain ⟨r', -, heq⟩ := Option.map_eq_some_iff.mp hstep
      cases heq
      rw [LogManager.streams_eq, hsettings]
      exact ⟨rfl, LogSettings.streams_eq_nil⟩

def twoThreads : LogTrace × LogSys :=
  let r (line : Int) (text : String) : LogRecord :=
    ⟨1, "src/main.c".toList, line, "main".toList, text.toList⟩
  play logStep (.start fun _ => [])
    [.init (some "/tmp/mec_system.log".toList) 1 true, .test 0 (r 47 "starting"),
      .test 1 (r 191 "running"), .write 1 "2024-01-01 00:00:00".toList,
      .write 0 "2024-01-01 00:00:01".toList, .cleanup, .test 0 (r 300 "complete"),
      .write 0 "2024-01-01 00:00:02".toList]

/-- The third record is let through and lost. -/
theorem log_exact_twoThreads :
    twoThreads.2.written (.file "/tmp/mec_system.log".toList) =
        ("[2024-01-01 00:00:00] [INFO   ] main.c:191 in main(): running\n" ++
          "[2024-01-01 00:00:01] [INFO   ] main.c:47 in main(): starting\n").toList ∧
      ((twoThreads.1.filterMap (LogTrace.handled? 0)).map Prod.snd =
        [[.file "/tmp/mec_system.log".toList], []]) ∧
      ∀ thread, (twoThreads.1.filterMap (LogTrace.handled? thread)).map Prod.fst ++
        (twoThreads.2.waiting thread).toList =
          twoThreads.1.filterMap (LogTrace.admitted? thread) :=
  ⟨by decide +kernel, by decide +kernel, fun thread =>
    ((log_exact (run_play logStep (.start fun _ => []) _)).2.2.1 thread).1⟩

/-! ## Where it goes -/

/-- What became of the log file: nothing yet, no file was asked for or could be opened, the
file is open, it was closed. -/
inductive LogPhase where
  | fresh
  | terminal
  | logging (path : List Char)
  | closed

namespace LogPhase

def next : LogPhase → LogAct → LogPhase
  | _, .init none _ _ => .terminal
  | _, .init (some name) _ opens => if opens then .logging (name.take 255) else .terminal
  | .logging _, .cleanup => .closed
  | p, _ => p

/-- Where a record goes; into a closed log, nowhere. -/
def streams : LogPhase → List LogStream
  | fresh | terminal => [.stdout]
  | logging path => [.file path]
  | closed => []

def Holds : LogPhase → LogManager → Prop
  | fresh, m => m.target = .console ∧ m.logFile = none
  | terminal, m => m.target = .console ∧ (m.logFile = some .stdout ∨ m.logFile = some .stderr)
  | logging path, m => m.target = .file ∧ m.logFile = some (.file path)
  | closed, m => m.target = .file ∧ m.logFile = none

end LogPhase

def LogTrace.phase (tr : LogTrace) : LogPhase := tr.foldl (fun p x => p.next x.1) .fresh

theorem phase_snoc (tr : LogTrace) (a : LogAct) (e : LogReply) :
    LogTrace.phase (tr ++ [(a, e)]) = (LogTrace.phase tr).next a := by
  unfold LogTrace.phase
  rw [List.foldl_append]
  rfl

theorem LogPhase.Holds.streams_eq {p : LogPhase} {m : LogManager} (h : p.Holds m) :
    m.streams = p.streams := by
  unfold LogManager.streams
  cases p with
  | fresh | terminal =>
    rw [h.1]
    rfl
  | logging path | closed =>
    rw [h.1, h.2]
    rfl

theorem LogPhase.Holds.next {p : LogPhase} {m : LogManager} (h : p.Holds m) {a : LogAct}
    {e : LogReply} (hs : logStep s a = some (t, e)) (hm : s.manager = m)
    (htarget : ∀ target, a ≠ .setTarget target) : (p.next a).Holds t.manager := by
  subst hm
  cases a with
  | init filename level opens =>
    cases hs
    cases filename with
    | none => exact ⟨rfl, .inl rfl⟩
    | some name =>
      cases opens with
      | true => exact ⟨rfl, rfl⟩
      | false => exact ⟨rfl, .inr rfl⟩
  | cleanup =>
    cases hs
    show (p.next .cleanup).Holds s.manager.closeFile
    unfold LogManager.closeFile LogManager.openFile
    cases p with
    | fresh | closed =>
      rw [h.2]
      exact h
    | terminal => rcases h.2 with hfile | hfile <;> rw [hfile] <;> exact h
    | logging path =>
      rw [h.2]
      exact ⟨h.1, rfl⟩
  | setLevel level =>
    cases hs
    cases p <;> exact h
  | setTarget target => exact absurd rfl (htarget target)
  | test thread r =>
    obtain ⟨-, hs⟩ := Option.ite_none_left_eq_some.mp hs
    split at hs <;> cases hs <;> cases p <;> exact h
  | write thread timestamp =>
    obtain ⟨r, -, heq⟩ := Option.map_eq_some_iff.mp hs
    cases heq
    show (p.next (.write thread timestamp)).Holds
      ((recordLines timestamp r s.manager.streams).foldl LogSys.append s).manager
    rw [(foldl_append_manager _ s).1]
    cases p <;> exact h

theorem closeFile_openFile (m : LogManager) : m.closeFile.openFile = none := by
  unfold LogManager.closeFile
  split
  · rfl
  · next h => simpa using h

theorem init_openFile (m : LogManager) (filename : Option (List Char)) (level : Int)
    (opens : Bool) :
    (m.init filename level opens).openFile.isSome = (filename.isSome && opens) := by
  cases filename <;> cases opens <;> rfl

/-- Calls of `fopen` and `fclose`, and the file that is open. -/
def Balanced (s : LogSys) : Prop :=
  s.opened = s.closed + if s.manager.openFile.isSome then 1 else 0

theorem Balanced.step (s : LogSys) (a : LogAct) (t : LogSys) (e : LogReply) (hs : Balanced s)
    (h : logStep s a = some (t, e)) : Balanced t := by
  unfold Balanced at hs ⊢
  cases a with
  | init filename level opens =>
    cases h
    rw [init_openFile]
    cases filename <;> cases opens <;> simp <;> split at hs <;> simp_all
  | cleanup =>
    cases h
    rw [closeFile_openFile]
    split at hs <;> simp_all
  | setLevel level | setTarget target =>
    cases h
    exact hs
  | test thread r =>
    obtain ⟨-, h⟩ := Option.ite_none_left_eq_some.mp h
    split at h <;> cases h <;> exact hs
  | write thread timestamp =>
    obtain ⟨r, -, heq⟩ := Option.map_eq_some_iff.mp h
    cases heq
    obtain ⟨hm, ho, hc⟩ := foldl_append_manager (recordLines timestamp r s.manager.streams) s
    simp only [hm, ho, hc]
    exact hs

/-- **Where a record goes.** In every run at most one log file is open, and every one that
was opened and is not open any more was closed once. As long as `log_set_target` is not
called, a record is written to the terminal before the file is opened and if it cannot be,
to the file while it is open, and nowhere after `log_cleanup` has closed it. -/
theorem log_phases (hrun : Run logStep (.start written) tr s) :
    (s.opened = s.closed + if s.manager.openFile.isSome then 1 else 0) ∧
    ∀ tr₁ thread timestamp r streams tr₂,
      tr = tr₁ ++ (.write thread timestamp, .wrote r streams) :: tr₂ →
      (∀ target e, (.setTarget target, e) ∉ tr₁) → streams = (LogTrace.phase tr₁).streams := by
  refine ⟨hrun.invariant (I := Balanced) Balanced.step rfl, ?_⟩
  rintro tr₁ thread timestamp r streams tr₂ rfl htarget
  obtain ⟨u, hu, hrest⟩ := hrun.split
  have hphase := hu.history_nil
    (I := fun tr s => (∀ target e, (.setTarget target, e) ∉ tr) →
      (LogTrace.phase tr).Holds s.manager)
    (fun tr s a t e hs hstep hno => by
      have hno' : ∀ target e, (.setTarget target, e) ∉ tr := fun target e' hmem =>
        hno target e' (List.mem_append_left _ hmem)
      rw [phase_snoc]
      refine (hs hno').next hstep rfl fun target heq => ?_
      exact hno target e (by simp [heq]))
    (fun _ => ⟨rfl, rfl⟩)
  cases hrest with
  | cons hstep _ =>
    obtain ⟨r', -, heq⟩ := Option.map_eq_some_iff.mp hstep
    cases heq
    exact (hphase htarget).streams_eq

/-- The record after `log_cleanup` is written nowhere. -/
theorem log_phases_twoThreads :
    twoThreads.1.map (fun x => (LogTrace.stepLines x).length) = [0, 0, 0, 1, 1, 0, 0, 0] ∧
      twoThreads.2.opened = twoThreads.2.closed +
        if twoThreads.2.manager.openFile.isSome then 1 else 0 :=
  ⟨by decide +kernel, (log_phases (run_play logStep (.start fun _ => []) _)).1⟩

end Mec
