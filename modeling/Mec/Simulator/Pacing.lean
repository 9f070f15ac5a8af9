import Mathlib.Data.Prod.Lex
import Mec.Simulator.Playback

/-!
# The playback thread step by step

`simulator_thread` between its reads of `running`: it may be told to stop at any
point, and the main loop polls in between. Undisturbed it plays back as `simStep`
says. It injects the lines in their order and none before its time, but the one
line it waits with when it is told to stop: that one is injected at once, and if
the clock was not read for it, under a time stamp without a value. Then it
closes the file and ends.
-/

namespace Mec

open Lib.Lts Lib.Scan

variable {K : Type}

/-- Where `simulator_thread` is. `line` is the buffer, and `now` has no value until
the clock is read. -/
inductive PacePoint (K : Type) where
  | outer
  | opening
  | reading
  | fetching
  | waiting (line : List Char) (r : ScenarioLine K) (now : Option Timeval)
  | sampling (line : List Char) (r : ScenarioLine K)
  | injecting (line : List Char) (r : ScenarioLine K) (now : Option Timeval)
  | closing
  | restarting
  | ended

/-- The thread's data are those of `SimSys`; `left` is what `fgets` has not read yet. -/
structure PaceSys (K : Type) where
  sys : SimSys K
  running : Bool
  point : PacePoint K

/-- What the outside gives to a step of the thread: whether the file opens, the
clock, the block for a list that grows, and what a variable without a value holds. -/
structure PaceInput (K : Type) where
  opens : Bool
  time : Timeval
  fresh : Fresh K
  stale : Timeval

inductive PaceAct (K : Type) where
  | thread (ext : PaceInput K)
  | stop
  | poll
  | clear

inductive PaceEvent (K : Type) where
  | quiet
  | opened (startTime : Timeval)
  | failed
  | skipped
  | injected (which : Nat × Nat) (r : ScenarioLine K) (startMs : Int) (now : Option Timeval)
  | closed
  | restarted
  | main (reply : SimReply K)

/-- The list a poll hands over, with the lines it comes from. -/
def SimReply.handed : SimReply K → List (List (TargetTrack K) × List (Nat × Nat))
  | .nothing => []
  | .fed tracks which => [(tracks, which)]

def PaceEvent.handed : PaceEvent K → List (List (TargetTrack K) × List (Nat × Nat))
  | .main reply => reply.handed
  | _ => []

/-- The line a step injects. -/
def PaceEvent.line : PaceEvent K → Option (ℕ ×ₗ ℕ)
  | .injected which _ _ _ => some (toLex which)
  | _ => none

/-- When the file was opened. -/
def PaceEvent.openedAt : PaceEvent K → Option Timeval
  | .opened startTime => some startTime
  | _ => none

def PaceEvent.opens : PaceEvent K → Nat
  | .opened _ => 1
  | _ => 0

def PaceEvent.closes : PaceEvent K → Nat
  | .closed => 1
  | _ => 0

def PaceAct.isThread : PaceAct K → Bool
  | .thread _ => true
  | _ => false

namespace PaceSys

def start (video radar : TrackList K) : PaceSys K := ⟨.start video radar, true, .outer⟩

variable [Field K] [LinearOrder K]

/-- `simulator_thread` up to the next read of `running` or of the outside. -/
def thread (scanDouble : ScanDouble K) (config : SimConfig K) (text : List Char)
    (s : PaceSys K) (ext : PaceInput K) : Option (PaceSys K × PaceEvent K) :=
  match s.point with
  | .outer =>
    if s.running then some ({ s with point := .opening }, .quiet)
    else some ({ s with sys := { s.sys with ended := true }, point := .ended }, .quiet)
  | .opening =>
    if ext.opens then
      some ({ s with
        sys := { s.sys with left := some (scenarioLines text), startMs := ext.time.millis }
        point := .reading }, .opened ext.time)
    else some ({ s with sys := { s.sys with ended := true }, point := .ended }, .failed)
  | .reading => some ({ s with point := if s.running then .fetching else .closing }, .quiet)
  | .fetching =>
    match s.sys.left with
    | some (line :: rest) =>
      match parseLine scanDouble line with
      | none =>
        some ({ s with
          sys := { s.sys with left := some rest, index := s.sys.index + 1 }
          point := .reading }, .skipped)
      | some r =>
        some ({ s with
          sys := { s.sys with left := some rest }
          point := .waiting line r none }, .quiet)
    | _ => some ({ s with point := .closing }, .quiet)
  | .waiting line r now =>
    some ({ s with
      point := if s.running then .sampling line r else .injecting line r now }, .quiet)
  | .sampling line r =>
    some ({ s with
      point := if config.due s.sys.startMs ext.time r then .injecting line r (some ext.time)
        else .waiting line r (some ext.time) }, .quiet)
  | .injecting _ r now =>
    some ({ s with
      sys := { s.sys.inject r ext.fresh (now.getD ext.stale) with index := s.sys.index + 1 }
      point := .reading }, .injected (s.sys.playback, s.sys.index) r s.sys.startMs now)
  | .closing =>
    if config.loop = 0 then
      some ({ s with sys := { s.sys with left := none, ended := true }, point := .ended }, .closed)
    else some ({ s with sys := { s.sys with left := none }, point := .restarting }, .closed)
  | .restarting =>
    some ({ s with
      sys := { s.sys with
        video := trackListClear s.sys.video
        radar := trackListClear s.sys.radar
        playback := s.sys.playback + 1
        index := 0
        inVideo := []
        missed := s.sys.missed ++ s.sys.waiting }
      point := .outer }, .restarted)
  | .ended => none

end PaceSys

section Step

variable [Field K] [LinearOrder K]

/-- The main loop's two steps are those of `simStep`; `stop` is `thread_destroy`'s. -/
def paceStep (scanDouble : ScanDouble K) (config : SimConfig K) (text : List Char)
    (s : PaceSys K) : PaceAct K → Option (PaceSys K × PaceEvent K)
  | .thread ext => s.thread scanDouble config text ext
  | .stop => some ({ s with running := false }, .quiet)
  | .poll => (simStep scanDouble config text s.sys .poll).map fun (sys, reply) =>
    ({ s with sys }, .main reply)
  | .clear => (simStep scanDouble config text s.sys .clear).map fun (sys, reply) =>
    ({ s with sys }, .main reply)

end Step

abbrev PaceTrace (K : Type) := List (PaceAct K × PaceEvent K)

namespace SimSys

variable [Zero K] (s : SimSys K) (r : ScenarioLine K) (fresh : Fresh K) (now : Timeval)

@[simp] theorem inject_left : (s.inject r fresh now).left = s.left := by
  unfold inject; split <;> [rfl; split <;> rfl]

@[simp] theorem inject_startMs : (s.inject r fresh now).startMs = s.startMs := by
  unfold inject; split <;> [rfl; split <;> rfl]

theorem inject_with_left (l : Option (List (List Char))) :
    ({ s with left := l }).inject r fresh now = { s.inject r fresh now with left := l } := by
  unfold inject; split <;> [rfl; split <;> rfl]

end SimSys

/-- Steps to the end once `running` is false. -/
def PacePoint.stepsLeft : PacePoint K → Nat
  | .ended => 0
  | .outer => 1
  | .restarting => 2
  | .closing => 3
  | .reading => 4
  | .opening | .injecting _ _ _ => 5
  | .waiting _ _ _ => 6
  | .sampling _ _ | .fetching => 7

/-- Lines that will be injected once `running` is false. -/
def PacePoint.linesLeft : PacePoint K → Nat
  | .fetching | .waiting _ _ _ | .sampling _ _ | .injecting _ _ _ => 1
  | _ => 0

/-- What the file still holds for `simStep`, which reads a line in one step with its injection
and closes the file when it clears the lists. -/
def PacePoint.unread (l : Option (List (List Char))) : PacePoint K → Option (List (List Char))
  | .waiting line _ _ | .sampling line _ | .injecting line _ _ => l.map (line :: ·)
  | .restarting => some []
  | _ => l

namespace PaceSys

/-- The state of `simStep` it stands for. -/
def abs (s : PaceSys K) : SimSys K := { s.sys with left := s.point.unread s.sys.left }

/-- The thread holds line `index`, and the file is read up to it. -/
structure Holds (scanDouble : ScanDouble K) (text : List Char) (sys : SimSys K)
    (line : List Char) (r : ScenarioLine K) : Prop where
  parsed : parseLine scanDouble line = some r
  line : (scenarioLines text)[sys.index]? = some line
  left : sys.left = some ((scenarioLines text).drop (sys.index + 1))

def openFiles (s : PaceSys K) : Nat := if s.sys.left.isSome then 1 else 0

variable [Field K] [LinearOrder K]

/-- What holds where; what a stop ends is under `running`. -/
def Inv (scanDouble : ScanDouble K) (config : SimConfig K) (text : List Char)
    (s : PaceSys K) : Prop :=
  match s.point with
  | .outer | .opening => s.sys.left = none ∧ s.sys.index = 0 ∧ s.sys.ended = false
  | .reading | .fetching =>
    s.sys.left = some ((scenarioLines text).drop s.sys.index) ∧ s.sys.ended = false
  | .waiting line r _ | .sampling line r =>
    Holds scanDouble text s.sys line r ∧ s.sys.ended = false
  | .injecting line r now =>
    Holds scanDouble text s.sys line r ∧ s.sys.ended = false ∧
      (s.running = true → ∃ t, now = some t ∧ config.due s.sys.startMs t r)
  | .closing =>
    s.sys.left.isSome ∧ s.sys.ended = false ∧ (s.running = true → s.sys.left = some [])
  | .restarting => s.sys.left = none ∧ s.sys.ended = false ∧ config.loop ≠ 0
  | .ended => s.sys.left = none

variable {scanDouble : ScanDouble K} {config : SimConfig K} {text : List Char}
  {s t : PaceSys K} {a : PaceAct K} {e : PaceEvent K} {tr : PaceTrace K}

theorem thread_running {ext : PaceInput K}
    (h : s.thread scanDouble config text ext = some (t, e)) : t.running = s.running := by
  unfold PaceSys.thread at h
  repeat' split at h
  all_goals cases h
  all_goals rfl

theorem inv_start (video radar : TrackList K) :
    (start video radar).Inv scanDouble config text := ⟨rfl, rfl, rfl⟩

omit [Field K] [LinearOrder K] in
theorem Holds.of_drop {sys : SimSys K} {line : List Char} {rest : List (List Char)}
    {r : ScenarioLine K} (hdrop : (scenarioLines text).drop sys.index = line :: rest)
    (hparse : parseLine scanDouble line = some r) :
    Holds scanDouble text { sys with left := some rest } line r := by
  refine ⟨hparse, ?_, ?_⟩
  · rw [← List.head?_drop, hdrop]
    rfl
  · rw [← List.tail_drop, hdrop]
    rfl

theorem Inv.frame {sys : SimSys K} (hs : s.Inv scanDouble config text)
    (hleft : sys.left = s.sys.left) (hindex : sys.index = s.sys.index)
    (hended : sys.ended = s.sys.ended) (hms : sys.startMs = s.sys.startMs) :
    ({ s with sys } : PaceSys K).Inv scanDouble config text := by
  have hholds : ∀ line r, Holds scanDouble text s.sys line r → Holds scanDouble text sys line r :=
    fun line r h => ⟨h.parsed, hindex ▸ h.line, by rw [hleft, hindex]; exact h.left⟩
  obtain ⟨u, running, point⟩ := s
  cases point with
  | outer | opening | reading | fetching | closing | restarting | ended =>
    simpa only [Inv, hleft, hindex, hended] using hs
  | waiting line r now | sampling line r => exact ⟨hholds _ _ hs.1, hended ▸ hs.2⟩
  | injecting line r now => exact ⟨hholds _ _ hs.1, hended ▸ hs.2.1, hms ▸ hs.2.2⟩

theorem Inv.stop (hs : s.Inv scanDouble config text) :
    ({ s with running := false } : PaceSys K).Inv scanDouble config text := by
  obtain ⟨sys, running, point⟩ := s
  cases point with
  | injecting line r now => exact ⟨hs.1, hs.2.1, fun h => by cases h⟩
  | closing => exact ⟨hs.1, hs.2.1, fun h => by cases h⟩
  | _ => exact hs

theorem Inv.thread {ext : PaceInput K} (hs : s.Inv scanDouble config text)
    (h : s.thread scanDouble config text ext = some (t, e)) :
    t.Inv scanDouble config text := by
  obtain ⟨sys, running, point⟩ := s
  cases point with
  | outer =>
    obtain ⟨hleft, hindex, hended⟩ := hs
    simp only [PaceSys.thread] at h
    split at h <;> cases h
    · exact ⟨hleft, hindex, hended⟩
    · exact hleft
  | opening =>
    obtain ⟨hleft, hindex, hended⟩ := hs
    simp only [PaceSys.thread] at h
    split at h <;> cases h
    · refine ⟨?_, hended⟩
      show some _ = some ((scenarioLines text).drop sys.index)
      rw [show sys.index = 0 from hindex, List.drop_zero]
    · exact hleft
  | reading =>
    cases h
    cases running with
    | true => exact hs
    | false => exact ⟨by rw [hs.1]; rfl, hs.2, fun hr => by cases hr⟩
  | fetching =>
    obtain ⟨hleft, hended⟩ := hs
    simp only at hleft
    simp only [PaceSys.thread, hleft] at h
    split at h
    · next line rest hdrop =>
      have hdrop' := Option.some.inj hdrop
      split at h <;> cases h
      · refine ⟨?_, hended⟩
        show some rest = some ((scenarioLines text).drop (sys.index + 1))
        rw [← List.tail_drop, hdrop']
        rfl
      · next r hparse => exact ⟨.of_drop hdrop' hparse, hended⟩
    · next hnone =>
      cases h
      refine ⟨by rw [hleft]; rfl, hended, fun _ => ?_⟩
      rw [hleft]
      cases hdrop : (scenarioLines text).drop sys.index with
      | nil => rfl
      | cons line rest => exact absurd (congrArg some hdrop) (hnone line rest)
  | waiting line r now =>
    cases h
    cases running with
    | true => exact hs
    | false => exact ⟨hs.1, hs.2, fun hr => by cases hr⟩
  | sampling line r =>
    cases h
    by_cases hdue : config.due sys.startMs ext.time r
    · simp only [if_pos hdue]
      exact ⟨hs.1, hs.2, fun _ => ⟨_, rfl, hdue⟩⟩
    · simp only [if_neg hdue]
      exact hs
  | injecting line r now =>
    cases h
    refine ⟨?_, ?_⟩
    · show (sys.inject r ext.fresh (now.getD ext.stale)).left = _
      rw [SimSys.inject_left]
      exact hs.1.left
    · show (sys.inject r ext.fresh (now.getD ext.stale)).ended = false
      rw [SimSys.inject_ended]
      exact hs.2.1
  | closing =>
    obtain ⟨-, hended, -⟩ := hs
    simp only [PaceSys.thread] at h
    split at h <;> cases h
    · rfl
    · next hloop => exact ⟨rfl, hended, hloop⟩
  | restarting =>
    obtain ⟨hleft, hended, -⟩ := hs
    cases h
    exact ⟨hleft, rfl, hended⟩
  | ended => cases h

theorem Inv.step (hs : s.Inv scanDouble config text)
    (h : paceStep scanDouble config text s a = some (t, e)) : t.Inv scanDouble config text := by
  cases a with
  | thread ext => exact hs.thread h
  | stop =>
    cases h
    exact hs.stop
  | poll =>
    obtain ⟨⟨sys, reply⟩, hsim, h⟩ := Option.map_eq_some_iff.mp h
    cases h
    obtain ⟨-, rfl, -⟩ := simStep_poll hsim
    exact hs.frame rfl rfl rfl rfl
  | clear =>
    obtain ⟨⟨sys, reply⟩, hsim, h⟩ := Option.map_eq_some_iff.mp h
    cases h
    obtain ⟨-, -, rfl⟩ := simStep_clear hsim
    exact hs.frame rfl rfl rfl rfl

/-! ## Undisturbed, it is the playback -/

theorem thread_refines {ext : PaceInput K} (hs : s.Inv scanDouble config text)
    (hrunning : s.running = true) (h : s.thread scanDouble config text ext = some (t, e)) :
    ∃ acts, Run (simStep scanDouble config text) s.abs acts t.abs ∧
      acts.flatMap (·.2.handed) = e.handed := by
  have hone : ∀ {u v : SimSys K} {e : PaceEvent K} (b : SimAct K),
      simStep scanDouble config text u b = some (v, .nothing) → e.handed = [] →
      ∃ acts, Run (simStep scanDouble config text) u acts v ∧
        acts.flatMap (·.2.handed) = e.handed :=
    fun b hu he => ⟨_, .single hu, he.symm⟩
  have hnone : ∀ {u v : SimSys K} {e : PaceEvent K}, u = v → e.handed = [] →
      ∃ acts, Run (simStep scanDouble config text) u acts v ∧
        acts.flatMap (·.2.handed) = e.handed :=
    fun huv he => ⟨[], huv ▸ .nil _, he.symm⟩
  obtain ⟨sys, running, point⟩ := s
  obtain rfl : running = true := hrunning
  cases point with
  | outer | reading | waiting line r now =>
    cases h
    exact hnone rfl rfl
  | opening =>
    obtain ⟨hleft, -, hended⟩ := hs
    simp only at hleft hended
    have hopen : ¬(sys.ended = true ∨ sys.left.isSome = true) := by simp [hleft, hended]
    simp only [PaceSys.thread] at h
    split at h <;> cases h
    · next hopens =>
      exact hone (.openFile ext.opens ext.time) (by
        simp only [simStep, abs, PacePoint.unread, if_neg hopen, if_pos hopens]) rfl
    · next hopens =>
      exact hone (.openFile ext.opens ext.time) (by
        simp only [simStep, abs, PacePoint.unread, if_neg hopen, if_neg hopens]) rfl
  | fetching =>
    obtain ⟨hleft, hended⟩ := hs
    simp only at hleft
    simp only [PaceSys.thread, hleft] at h
    split at h
    · next line rest hdrop =>
      split at h <;> cases h
      · next hparse =>
        refine hone (.nextLine ext.fresh ext.time) ?_ rfl
        simp only [simStep, abs, PacePoint.unread, hleft, hdrop, hparse]
      · refine hnone ?_ rfl
        simp only [abs, PacePoint.unread, hleft, hdrop, Option.map_some]
    · cases h
      exact hnone rfl rfl
  | sampling line r =>
    cases h
    by_cases hdue : config.due sys.startMs ext.time r
    · exact hnone (by simp only [if_pos hdue]; rfl) rfl
    · exact hnone (by simp only [if_neg hdue]; rfl) rfl
  | injecting line r now =>
    obtain ⟨⟨hparse, -, hleft⟩, -, hnow⟩ := hs
    obtain ⟨clock, rfl, hdue⟩ := hnow rfl
    simp only at hleft hdue
    cases h
    refine hone (.nextLine ext.fresh clock) ?_ rfl
    simp only [simStep, abs, PacePoint.unread, hleft, Option.map_some, hparse, if_pos hdue,
      SimSys.inject_with_left, SimSys.inject_left, Option.getD_some]
  | closing =>
    obtain ⟨-, hended, hleft⟩ := hs
    replace hleft : sys.left = some [] := hleft rfl
    simp only [PaceSys.thread] at h
    split at h <;> cases h
    · next hloop =>
      refine hone .endOfFile ?_ rfl
      simp only [simStep, abs, PacePoint.unread, hleft, if_pos hloop]
    · refine hnone ?_ rfl
      simp only [abs, PacePoint.unread, hleft]
  | restarting =>
    obtain ⟨hleft, -, hloop⟩ := hs
    cases h
    refine hone .endOfFile ?_ rfl
    simp only at hleft
    simp only [simStep, abs, PacePoint.unread, if_neg hloop, hleft]
    rfl
  | ended => cases h

theorem step_refines (hs : s.Inv scanDouble config text)
    (h : paceStep scanDouble config text s a = some (t, e)) (hrunning : t.running = true) :
    s.running = true ∧ ∃ acts, Run (simStep scanDouble config text) s.abs acts t.abs ∧
      acts.flatMap (·.2.handed) = e.handed := by
  cases a with
  | thread ext =>
    have hsame : t.running = s.running := thread_running h
    exact ⟨hsame ▸ hrunning, thread_refines hs (hsame ▸ hrunning) h⟩
  | stop =>
    cases h
    cases hrunning
  | poll =>
    obtain ⟨⟨sys, reply⟩, hsim, h⟩ := Option.map_eq_some_iff.mp h
    cases h
    obtain ⟨hpoll, heq⟩ := Option.ite_none_right_eq_some.mp hsim
    cases heq
    refine ⟨hrunning, [(.poll, .fed s.sys.video.contents s.sys.inVideo)], .single ?_, rfl⟩
    exact if_pos hpoll
  | clear =>
    obtain ⟨⟨sys, reply⟩, hsim, h⟩ := Option.map_eq_some_iff.mp h
    cases h
    obtain ⟨hpolled, rfl, rfl⟩ := simStep_clear hsim
    refine ⟨hrunning, [(.clear, .nothing)], .single ?_, rfl⟩
    exact if_pos hpolled

/-- **Refinement.** As long as nobody stops it, the thread with its waits, and the polls
whenever they come, do what `simStep` does: some run of it comes to the same state and
hands over the same lists in the same order. -/
theorem paced_refines {video radar : TrackList K}
    (hrun : Run (paceStep scanDouble config text) (start video radar) tr s)
    (hrunning : s.running = true) :
    ∃ acts, Run (simStep scanDouble config text) (.start video radar) acts s.abs ∧
      acts.flatMap (·.2.handed) = tr.flatMap (·.2.handed) := by
  have hall := hrun.history_nil
    (I := fun tr s => s.Inv scanDouble config text ∧ (s.running = true →
      ∃ acts, Run (simStep scanDouble config text) (.start video radar) acts s.abs ∧
        acts.flatMap (·.2.handed) = tr.flatMap (·.2.handed)))
    ?_ ⟨inv_start video radar, fun _ => ⟨[], .nil _, rfl⟩⟩
  · exact hall.2 hrunning
  · rintro tr s a t e ⟨hs, hsim⟩ hstep
    refine ⟨hs.step hstep, fun ht => ?_⟩
    obtain ⟨hrunning, acts', hacts', hhanded'⟩ := step_refines hs hstep ht
    obtain ⟨acts, hacts, hhanded⟩ := hsim hrunning
    refine ⟨acts ++ acts', hacts.append hacts', ?_⟩
    rw [List.flatMap_append, List.flatMap_append, hhanded, hhanded']
    simp

def step1 : PaceAct ℚ := .thread ⟨true, ⟨1, 0⟩, none, ⟨0, 0⟩⟩

def playedVideo : PaceTrace ℚ × PaceSys ℚ :=
  play (paceStep scanDecimal ⟨1, 1⟩ videoText) (start simList simList)
    [step1, step1, step1, step1, step1, step1, step1, .poll, .clear]

theorem paced_refines_video :
    ∃ acts, Run (simStep scanDecimal ⟨1, 1⟩ videoText) (.start simList simList) acts
        playedVideo.2.abs ∧
      acts.flatMap (·.2.handed) = playedVideo.1.flatMap (·.2.handed) :=
  paced_refines (run_play _ _ _) (by decide +kernel)

/-! ## No line before its time -/

def turn (s : PaceSys K) : ℕ ×ₗ ℕ := toLex (s.sys.playback, s.sys.index)

theorem thread_line {ext : PaceInput K} (h : s.thread scanDouble config text ext = some (t, e)) :
    (s.turn ≤ t.turn ∧ e.line = none) ∨
      ∃ line r now, s.point = .injecting line r now ∧
        t.turn = toLex (s.sys.playback, s.sys.index + 1) ∧
        e = .injected (s.sys.playback, s.sys.index) r s.sys.startMs now := by
  obtain ⟨sys, running, point⟩ := s
  have hsame : ∀ {i}, sys.index ≤ i → toLex (sys.playback, sys.index) ≤ toLex (sys.playback, i) :=
    fun hi => Prod.Lex.toLex_le_toLex.mpr (.inr ⟨rfl, hi⟩)
  unfold PaceSys.thread at h
  cases point with
  | injecting line r now =>
    cases h
    refine .inr ⟨line, r, now, rfl, ?_, rfl⟩
    simp [turn]
  | restarting =>
    cases h
    exact .inl ⟨Prod.Lex.toLex_le_toLex.mpr (.inl (Nat.lt_succ_self _)), rfl⟩
  | fetching =>
    refine .inl ?_
    simp only at h
    split at h
    · split at h <;> cases h
      · exact ⟨hsame (Nat.le_succ _), rfl⟩
      · exact ⟨hsame le_rfl, rfl⟩
    · cases h
      exact ⟨hsame le_rfl, rfl⟩
  | ended => cases h
  | _ =>
    refine .inl ?_
    simp only at h
    repeat' split at h
    all_goals cases h
    all_goals exact ⟨hsame le_rfl, rfl⟩

theorem step_line (h : paceStep scanDouble config text s a = some (t, e)) :
    (s.turn ≤ t.turn ∧ e.line = none) ∨
      ∃ line r now, s.point = .injecting line r now ∧
        t.turn = toLex (s.sys.playback, s.sys.index + 1) ∧
        e = .injected (s.sys.playback, s.sys.index) r s.sys.startMs now := by
  cases a with
  | thread ext => exact thread_line h
  | stop =>
    cases h
    exact .inl ⟨le_rfl, rfl⟩
  | poll =>
    obtain ⟨⟨sys, reply⟩, hsim, h⟩ := Option.map_eq_some_iff.mp h
    cases h
    obtain ⟨-, rfl, -⟩ := simStep_poll hsim
    exact .inl ⟨le_rfl, rfl⟩
  | clear =>
    obtain ⟨⟨sys, reply⟩, hsim, h⟩ := Option.map_eq_some_iff.mp h
    cases h
    obtain ⟨-, -, rfl⟩ := simStep_clear hsim
    exact .inl ⟨le_rfl, rfl⟩

theorem lines_increasing (hrun : Run (paceStep scanDouble config text) s tr t) :
    (tr.filterMap (·.2.line)).Pairwise (· < ·) := by
  refine (hrun.increasing turn (·.2.line) fun s a t e hstep => ?_).2.1
  rcases step_line hstep with ⟨hle, hnone⟩ | ⟨line, r, now, -, ht, rfl⟩
  · exact ⟨hle, fun d hd => absurd (hnone.symm.trans hd) (Option.some_ne_none d).symm⟩
  · have hlt : s.turn < t.turn :=
      ht ▸ Prod.Lex.toLex_lt_toLex.mpr (.inr ⟨rfl, Nat.lt_succ_self _⟩)
    refine ⟨hlt.le, ?_⟩
    rintro d ⟨⟩
    exact ⟨le_rfl, hlt⟩

theorem running_iff {video radar : TrackList K}
    (hrun : Run (paceStep scanDouble config text) (start video radar) tr s) :
    s.running = true ↔ ∀ e, (.stop, e) ∉ tr := by
  refine hrun.history_nil (I := fun tr s => s.running = true ↔ ∀ e, (.stop, e) ∉ tr)
    (fun tr s a t e hs hstep => ?_) (iff_of_true rfl fun _ => List.not_mem_nil)
  have hrest : a ≠ .stop → t.running = s.running →
      (t.running = true ↔ ∀ e', (.stop, e') ∉ tr ++ [(a, e)]) := by
    intro ha hsame
    rw [hsame, hs]
    refine forall_congr' fun e' => ?_
    simp [Ne.symm ha]
  cases a with
  | thread ext => exact hrest (by simp) (thread_running hstep)
  | stop =>
    cases hstep
    exact iff_of_false Bool.false_ne_true fun hall => hall .quiet (by simp)
  | poll | clear =>
    obtain ⟨⟨sys, reply⟩, -, h⟩ := Option.map_eq_some_iff.mp hstep
    cases h
    exact hrest (by simp) rfl

theorem thread_opened {ext : PaceInput K}
    (h : s.thread scanDouble config text ext = some (t, e)) :
    (∃ time, e.openedAt = some time ∧ t.sys.startMs = time.millis) ∨
      e.openedAt = none ∧ t.sys.startMs = s.sys.startMs ∧
        (t.sys.left.isSome → s.sys.left.isSome) := by
  obtain ⟨sys, running, point⟩ := s
  unfold PaceSys.thread at h
  cases point with
  | opening =>
    simp only at h
    split at h <;> cases h
    · exact .inl ⟨_, rfl, rfl⟩
    · exact .inr ⟨rfl, rfl, id⟩
  | injecting line r now =>
    cases h
    exact .inr ⟨rfl, SimSys.inject_startMs .., by simp⟩
  | fetching =>
    simp only at h
    split at h
    · next hleft =>
      split at h <;> cases h <;> exact .inr ⟨rfl, rfl, fun _ => by rw [hleft]; rfl⟩
    · cases h
      exact .inr ⟨rfl, rfl, id⟩
  | ended => cases h
  | _ =>
    simp only at h
    repeat' split at h
    all_goals cases h
    all_goals exact .inr ⟨rfl, rfl, by simp⟩

/-- While a file is open, `startMs` is the time at which the last one was opened. -/
theorem startMs_of_run {video radar : TrackList K}
    (hrun : Run (paceStep scanDouble config text) (start video radar) tr s)
    (hleft : s.sys.left.isSome) :
    ∃ time, (tr.filterMap (·.2.openedAt)).getLast? = some time ∧ s.sys.startMs = time.millis := by
  have hkeep : ∀ {tr : PaceTrace K} {s t : PaceSys K} {a : PaceAct K} {e : PaceEvent K},
      (s.sys.left.isSome → ∃ time, (tr.filterMap (·.2.openedAt)).getLast? = some time ∧
        s.sys.startMs = time.millis) →
      e.openedAt = none → t.sys.startMs = s.sys.startMs →
      (t.sys.left.isSome → s.sys.left.isSome) → t.sys.left.isSome →
      ∃ time, ((tr ++ [(a, e)]).filterMap (·.2.openedAt)).getLast? = some time ∧
        t.sys.startMs = time.millis := by
    intro tr s t a e hs hnone hms hopen ht
    obtain ⟨time, hlast, htime⟩ := hs (hopen ht)
    exact ⟨time, by simpa [hnone] using hlast, hms.trans htime⟩
  refine hrun.history_nil (I := fun tr s => s.sys.left.isSome → ∃ time,
      (tr.filterMap (·.2.openedAt)).getLast? = some time ∧ s.sys.startMs = time.millis)
    (fun tr s a t e hs hstep => ?_) nofun hleft
  cases a with
  | thread ext =>
    rcases thread_opened hstep with ⟨time, hopened, htime⟩ | ⟨hnone, hms, hopen⟩
    · exact fun _ => ⟨time, by simp [hopened], htime⟩
    · exact hkeep hs hnone hms hopen
  | stop =>
    cases hstep
    exact hkeep hs rfl rfl id
  | poll =>
    obtain ⟨⟨sys, reply⟩, hsim, h⟩ := Option.map_eq_some_iff.mp hstep
    cases h
    obtain ⟨-, rfl, -⟩ := simStep_poll hsim
    exact hkeep hs rfl rfl id
  | clear =>
    obtain ⟨⟨sys, reply⟩, hsim, h⟩ := Option.map_eq_some_iff.mp hstep
    cases h
    obtain ⟨-, -, rfl⟩ := simStep_clear hsim
    exact hkeep hs rfl rfl id

/-- **Pacing.** The lines are injected in the order of the file, playback after
playback, none twice. Each is the line it is counted as; and unless the thread was told
to stop before, the time under which it is injected is one at which it was due, counted
from the time at which the file was last opened. -/
theorem injected_in_time {video radar : TrackList K}
    (hrun : Run (paceStep scanDouble config text) (start video radar) tr s) :
    (tr.filterMap (·.2.line)).Pairwise (· < ·) ∧
    ∀ tr₁ a which r startMs now tr₂, tr = tr₁ ++ (a, .injected which r startMs now) :: tr₂ →
      (∃ line, (scenarioLines text)[which.2]? = some line ∧
        parseLine scanDouble line = some r) ∧
      (∃ time, (tr₁.filterMap (·.2.openedAt)).getLast? = some time ∧ startMs = time.millis) ∧
      ((∀ e, (.stop, e) ∉ tr₁) → ∃ t, now = some t ∧ config.due startMs t r) := by
  refine ⟨lines_increasing hrun, ?_⟩
  rintro tr₁ a which r startMs now tr₂ rfl
  obtain ⟨u, hu, hrest⟩ := hrun.split
  have hinv : u.Inv scanDouble config text :=
    hu.invariant (fun s a t e hs h => hs.step h) (inv_start video radar)
  cases hrest with
  | cons hstep _ =>
    rcases step_line hstep with ⟨-, hnone⟩ | ⟨line, r', now', hpoint, -, heq⟩
    · cases hnone
    · cases heq
      obtain ⟨sys, running, point⟩ := u
      cases hpoint
      obtain ⟨hholds, -, hdue⟩ := hinv
      have hopen : sys.left.isSome := by rw [hholds.left]; rfl
      exact ⟨⟨line, hholds.line, hholds.parsed⟩, startMs_of_run hu hopen,
        fun hnostop => hdue ((running_iff hu).mpr hnostop)⟩

theorem injected_in_time_video :
    playedVideo.1.filterMap (·.2.line) = [toLex (0, 0)] ∧
      (playedVideo.1.filterMap (·.2.line)).Pairwise (· < ·) :=
  ⟨by decide +kernel, (injected_in_time (run_play (paceStep scanDecimal ⟨1, 1⟩ videoText)
    (start simList simList)
    [step1, step1, step1, step1, step1, step1, step1, .poll, .clear])).1⟩

/-! ## Stopping -/

omit [Field K] [LinearOrder K] in
theorem stepsLeft_le (p : PacePoint K) : p.stepsLeft ≤ 7 := by
  cases p <;> simp [PacePoint.stepsLeft]

omit [Field K] [LinearOrder K] in
theorem linesLeft_le (p : PacePoint K) : p.linesLeft ≤ 1 := by
  cases p <;> simp [PacePoint.linesLeft]

theorem thread_nearer {ext : PaceInput K} (hstop : s.running = false)
    (h : s.thread scanDouble config text ext = some (t, e)) :
    t.point.stepsLeft + 1 ≤ s.point.stepsLeft ∧
      t.point.linesLeft + e.line.toList.length ≤ s.point.linesLeft := by
  obtain ⟨sys, running, point⟩ := s
  obtain rfl : running = false := hstop
  unfold PaceSys.thread at h
  cases point with
  | ended => cases h
  | sampling line r =>
    cases h
    by_cases hdue : config.due sys.startMs ext.time r <;>
      simp [hdue, PacePoint.stepsLeft, PacePoint.linesLeft, PaceEvent.line]
  | _ =>
    simp only at h
    repeat' split at h
    all_goals cases h
    all_goals first
      | contradiction
      | simp [PacePoint.stepsLeft, PacePoint.linesLeft, PaceEvent.line]

theorem step_frame (ha : a.isThread = false)
    (h : paceStep scanDouble config text s a = some (t, e)) :
    t.point = s.point ∧ t.sys.left = s.sys.left ∧ (s.running = false → t.running = false) ∧
      e.line = none ∧ e.opens = 0 ∧ e.closes = 0 := by
  cases a with
  | thread ext => cases ha
  | stop =>
    cases h
    exact ⟨rfl, rfl, fun _ => rfl, rfl, rfl, rfl⟩
  | poll =>
    obtain ⟨⟨sys, reply⟩, hsim, h⟩ := Option.map_eq_some_iff.mp h
    cases h
    obtain ⟨-, rfl, -⟩ := simStep_poll hsim
    exact ⟨rfl, rfl, id, rfl, rfl, rfl⟩
  | clear =>
    obtain ⟨⟨sys, reply⟩, hsim, h⟩ := Option.map_eq_some_iff.mp h
    cases h
    obtain ⟨-, -, rfl⟩ := simStep_clear hsim
    exact ⟨rfl, rfl, id, rfl, rfl, rfl⟩

theorem step_nearer (hstop : s.running = false)
    (h : paceStep scanDouble config text s a = some (t, e)) :
    t.running = false ∧
      t.point.stepsLeft + (if a.isThread then 1 else 0) ≤ s.point.stepsLeft ∧
      t.point.linesLeft + e.line.toList.length ≤ s.point.linesLeft := by
  cases ha : a.isThread with
  | true =>
    cases a with
    | thread ext => exact ⟨(thread_running h).trans hstop, thread_nearer hstop h⟩
    | stop | poll | clear => cases ha
  | false =>
    obtain ⟨hpoint, -, hrunning, hline, -⟩ := step_frame ha h
    rw [hpoint, hline]
    exact ⟨hrunning hstop, le_rfl, le_rfl⟩

theorem thread_isSome (hpoint : s.point ≠ .ended) (ext : PaceInput K) :
    (s.thread scanDouble config text ext).isSome := by
  unfold PaceSys.thread
  repeat' split
  all_goals first
    | rfl
    | contradiction

theorem thread_files {ext : PaceInput K} (hs : s.Inv scanDouble config text)
    (h : s.thread scanDouble config text ext = some (t, e)) :
    t.openFiles + e.closes = s.openFiles + e.opens := by
  obtain ⟨sys, running, point⟩ := s
  unfold PaceSys.thread at h
  cases point with
  | opening =>
    obtain ⟨hleft, -⟩ := hs
    simp only at h hleft
    split at h <;> cases h <;> simp [openFiles, PaceEvent.opens, PaceEvent.closes, hleft]
  | fetching =>
    obtain ⟨hleft, -⟩ := hs
    simp only at h hleft
    repeat' split at h
    all_goals cases h
    all_goals simp_all [openFiles, PaceEvent.opens, PaceEvent.closes]
  | injecting line r now =>
    cases h
    simp [openFiles, PaceEvent.opens, PaceEvent.closes]
  | closing =>
    obtain ⟨hleft, -⟩ := hs
    simp only at h hleft
    split at h <;> cases h <;> simp [openFiles, PaceEvent.opens, PaceEvent.closes, hleft]
  | ended => cases h
  | _ =>
    simp only at h
    repeat' split at h
    all_goals cases h
    all_goals rfl

/-- **One file at a time.** The thread never has two files open, and when it has ended
every one it opened is closed, however it came to its end. -/
theorem files_closed {video radar : TrackList K}
    (hrun : Run (paceStep scanDouble config text) (start video radar) tr s) :
    (tr.map (·.2.closes)).sum ≤ (tr.map (·.2.opens)).sum ∧
      (tr.map (·.2.opens)).sum ≤ (tr.map (·.2.closes)).sum + 1 ∧
      (s.point = .ended → (tr.map (·.2.opens)).sum = (tr.map (·.2.closes)).sum) := by
  obtain ⟨hs, hfiles⟩ := hrun.history_nil
    (I := fun tr s => s.Inv scanDouble config text ∧
      s.openFiles + (tr.map (·.2.closes)).sum = (tr.map (·.2.opens)).sum)
    (fun tr s a t e hs hstep => by
      refine ⟨hs.1.step hstep, ?_⟩
      have hone : t.openFiles + e.closes = s.openFiles + e.opens := by
        cases ha : a.isThread with
        | true =>
          cases a with
          | thread ext => exact thread_files hs.1 hstep
          | stop | poll | clear => cases ha
        | false =>
          obtain ⟨-, hleft, -, -, hopens, hcloses⟩ := step_frame ha hstep
          rw [openFiles, openFiles, hleft, hopens, hcloses]
      have hrest := hs.2
      simp only [List.map_append, List.sum_append, List.map_cons, List.map_nil, List.sum_cons,
        List.sum_nil]
      omega)
    ⟨inv_start video radar, rfl⟩
  have hle : s.openFiles ≤ 1 := by
    unfold openFiles
    split <;> decide
  refine ⟨by omega, by omega, fun hended => ?_⟩
  have hnone : s.openFiles = 0 := by
    obtain ⟨sys, running, point⟩ := s
    cases hended
    rw [openFiles, show sys.left = none from hs]
    rfl
  omega

def stoppedVideo : PaceTrace ℚ × PaceSys ℚ :=
  play (paceStep scanDecimal ⟨1, 1⟩ videoText) (start simList simList)
    [step1, step1, step1, step1, .stop, step1, step1, step1, step1, step1, step1]

theorem files_closed_video :
    stoppedVideo.2.point.stepsLeft = 0 ∧
      (stoppedVideo.1.map (·.2.closes)).sum ≤ (stoppedVideo.1.map (·.2.opens)).sum :=
  ⟨by decide +kernel, (files_closed (run_play (paceStep scanDecimal ⟨1, 1⟩ videoText)
    (start simList simList)
    [step1, step1, step1, step1, .stop, step1, step1, step1, step1, step1, step1])).1⟩

/-- **Stopping.** Told to stop, wherever it is, the thread takes at most seven more steps,
whatever the main loop does in between, and injects at most one more line; none of its
steps can fail before it has ended, so `pthread_join` returns. -/
theorem stops_soon (hstop : s.running = false)
    (hrun : Run (paceStep scanDouble config text) s tr t) :
    tr.countP (·.1.isThread) ≤ 7 ∧ (tr.filterMap (·.2.line)).length ≤ 1 ∧
      (t.point ≠ .ended → ∀ ext, (paceStep scanDouble config text t (.thread ext)).isSome) := by
  have hsteps := (hrun.budget (I := fun s : PaceSys K => s.running = false)
    (fun s => s.point.stepsLeft) (fun x => x.1.isThread)
    (fun s a t e hs h => ⟨(step_nearer hs h).1, (step_nearer hs h).2.1⟩) hstop).2
  have hlines := (hrun.budget (I := fun s : PaceSys K => s.running = false)
    (fun s => s.point.linesLeft) (fun x => x.2.line.isSome)
    (fun s a t e hs h => by
      obtain ⟨ht, -, hle⟩ := step_nearer hs h
      cases hline : e.line <;> simp_all) hstop).2
  have hmax := stepsLeft_le s.point
  have hone := linesLeft_le s.point
  rw [List.length_filterMap_eq_countP]
  exact ⟨by omega, by omega, fun hpoint ext => thread_isSome hpoint ext⟩

theorem stops_soon_video :
    let s := (play (paceStep scanDecimal ⟨1, 1⟩ videoText) (start simList simList)
      [step1, step1, step1, step1, .stop]).2
    let tr := (play (paceStep scanDecimal ⟨1, 1⟩ videoText) s [step1, step1, .poll, step1]).1
    tr.countP (·.1.isThread) ≤ 7 ∧ (tr.filterMap (·.2.line)).length ≤ 1 :=
  have hstops := stops_soon (by decide +kernel) (run_play (paceStep scanDecimal ⟨1, 1⟩ videoText)
    (play (paceStep scanDecimal ⟨1, 1⟩ videoText) (start simList simList)
      [step1, step1, step1, step1, .stop]).2 [step1, step1, .poll, step1])
  ⟨hstops.1, hstops.2.1⟩

end PaceSys

end Mec
