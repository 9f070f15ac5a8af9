import Mathlib.Algebra.Order.Field.Basic
import Mathlib.Data.List.Nodup
import Mathlib.Data.Rat.Cast.Order
import Mec.Lib.Lts
import Mec.Simulator.Scenario
import Mec.TrackList

/-!
# Playing a scenario back

`simulator_thread` reads the file line by line, injects the detection of each
line into the list of its sensor, and at the end of the file clears both lists
and opens it again. The main loop polls the video list only: it hands the list to
`fusion_processor_add_tracks` and then clears it, in two steps. A detection is
missed if it goes to the radar list, if the list cannot grow, if it comes between
the two steps of a poll, or if the restart finds it unread; every other one is
handed over once.
-/

namespace Mec

open Lib.Lts Lib.Scan

variable {K : Type}

/-- `simulator_config_t` without the path. -/
structure SimConfig (K : Type) where
  playbackSpeed : K
  loop : Int

/-- The simulator and the main loop's poll. `left` is what the open file still
holds, `polled` says that the list has been read and not yet cleared. `playback`,
`index`, `inVideo` and `missed` are history variables: the number of the playback
and of the line, which lines' detections the video list holds, and which were
dropped or will be before anyone reads them. -/
structure SimSys (K : Type) where
  video : TrackList K
  radar : TrackList K
  left : Option (List (List Char))
  startMs : Int
  ended : Bool
  polled : Bool
  playback : Nat
  index : Nat
  inVideo : List (Nat × Nat)
  missed : List (Nat × Nat)

inductive SimAct (K : Type) where
  | openFile (ok : Bool) (startTime : Timeval)
  | nextLine (fresh : Fresh K) (now : Timeval)
  | endOfFile
  | poll
  | clear

/-- What a poll hands to `fusion_processor_add_tracks`, and the playback and line
each track comes from. -/
inductive SimReply (K : Type) where
  | nothing
  | fed (tracks : List (TargetTrack K)) (which : List (Nat × Nat))

def Timeval.millis (t : Timeval) : Int := t.tvSec * 1000 + Int.tdiv t.tvUsec 1000

namespace SimSys

def start (video radar : TrackList K) : SimSys K :=
  { video, radar, left := none, startMs := 0, ended := false, polled := false, playback := 0,
    index := 0, inVideo := [], missed := [] }

/-- The detections in the video list that a poll will still read. -/
def waiting (s : SimSys K) : List (Nat × Nat) := if s.polled then [] else s.inVideo

/-- The list of the sensor, under the thread's lock. -/
def inject [Zero K] (s : SimSys K) (r : ScenarioLine K) (fresh : Fresh K) (now : Timeval) :
    SimSys K :=
  if r.sensorId = 1 then
    let (ret, l) := trackListAdd fresh s.video (r.track now)
    { s with
      video := l
      inVideo := if ret = 0 then s.inVideo ++ [(s.playback, s.index)] else s.inVideo
      missed := if ret = 0 ∧ s.polled = false then s.missed
        else s.missed ++ [(s.playback, s.index)] }
  else if r.sensorId = 2 then
    { s with
      radar := (trackListAdd fresh s.radar (r.track now)).2
      missed := s.missed ++ [(s.playback, s.index)] }
  else s

end SimSys

section Step

variable [Field K] [LinearOrder K]

/-- The wait for a line's time is over. A division by 0 gives an infinity, or for 0 a NaN. -/
def SimConfig.due (config : SimConfig K) (startMs : Int) (now : Timeval) (r : ScenarioLine K) :
    Prop :=
  if config.playbackSpeed = 0 then r.relTimeMs < 0
  else (r.relTimeMs : K) / config.playbackSpeed ≤ ((now.millis - startMs : Int) : K)

instance (config : SimConfig K) (startMs : Int) (now : Timeval) (r : ScenarioLine K) :
    Decidable (config.due startMs now r) := by unfold SimConfig.due; infer_instance

def simStep (scanDouble : ScanDouble K) (config : SimConfig K) (text : List Char) (s : SimSys K) :
    SimAct K → Option (SimSys K × SimReply K)
  | .openFile ok startTime =>
    if s.ended ∨ s.left.isSome then none
    else if ok then
      some ({ s with left := some (scenarioLines text), startMs := startTime.millis }, .nothing)
    else some ({ s with ended := true }, .nothing)
  | .nextLine fresh now =>
    match s.left with
    | some (line :: rest) =>
      match parseLine scanDouble line with
      | none => some ({ s with left := some rest, index := s.index + 1 }, .nothing)
      | some r =>
        if config.due s.startMs now r then
          some ({ s.inject r fresh now with left := some rest, index := s.index + 1 }, .nothing)
        else none
    | _ => none
  | .endOfFile =>
    match s.left with
    | some [] =>
      if config.loop = 0 then some ({ s with left := none, ended := true }, .nothing)
      else
        some ({ s with
          video := trackListClear s.video
          radar := trackListClear s.radar
          left := none
          playback := s.playback + 1
          index := 0
          inVideo := []
          missed := s.missed ++ s.waiting }, .nothing)
    | _ => none
  | .poll =>
    if s.polled = false ∧ 0 < s.video.count then
      some ({ s with polled := true }, .fed s.video.contents s.inVideo)
    else none
  | .clear =>
    if s.polled then
      some ({ s with video := trackListClear s.video, polled := false, inVideo := [] }, .nothing)
    else none

end Step

def fedLines : List (SimAct K × SimReply K) → List (Nat × Nat) :=
  List.flatMap fun
    | (_, .fed _ which) => which
    | _ => []

theorem fedLines_append (tr tr' : List (SimAct K × SimReply K)) :
    fedLines (tr ++ tr') = fedLines tr ++ fedLines tr' := List.flatMap_append

/-- Line `i` of the scenario parses and is of one of the two sensors. -/
def Eligible (scanDouble : ScanDouble K) (text : List Char) (i : Nat) : Prop :=
  ∃ line r, (scenarioLines text)[i]? = some line ∧ parseLine scanDouble line = some r ∧
    (r.sensorId = 1 ∨ r.sensorId = 2)

/-- The track is the detection of that line, injected at some time. -/
def Shows [Zero K] (scanDouble : ScanDouble K) (text : List Char) (track : TargetTrack K)
    (x : Nat × Nat) : Prop :=
  ∃ line r now, (scenarioLines text)[x.2]? = some line ∧ parseLine scanDouble line = some r ∧
    track = r.track now

/-- No detection is missed by this step: a line injected is of the video sensor,
comes while no poll is half done and finds room in the list or a bigger block;
a restart finds the list empty or read. -/
def SimSys.Catches (scanDouble : ScanDouble K) (config : SimConfig K) (s : SimSys K) :
    SimAct K → Prop
  | .nextLine fresh _ => ∀ line rest r, s.left = some (line :: rest) →
      parseLine scanDouble line = some r → r.sensorId = 1 ∨ r.sensorId = 2 →
      r.sensorId = 1 ∧ s.polled = false ∧
        (s.video.count < s.video.capacity ∨ fresh.isSome)
  | .endOfFile => config.loop ≠ 0 → s.polled ∨ s.video.count = 0
  | _ => True

/-! ## What the steps do -/

namespace SimSys

variable [Zero K] (s : SimSys K) (r : ScenarioLine K) (fresh : Fresh K) (now : Timeval)

@[simp] theorem inject_playback : (s.inject r fresh now).playback = s.playback := by
  unfold inject; split <;> [rfl; split <;> rfl]

@[simp] theorem inject_polled : (s.inject r fresh now).polled = s.polled := by
  unfold inject; split <;> [rfl; split <;> rfl]

@[simp] theorem inject_ended : (s.inject r fresh now).ended = s.ended := by
  unfold inject; split <;> [rfl; split <;> rfl]

theorem inject_cases (hr : r.sensorId = 1 ∨ r.sensorId = 2) :
    (r.sensorId = 1 ∧ (trackListAdd fresh s.video (r.track now)).1 = 0 ∧
      (s.inject r fresh now).video.contents = s.video.contents ++ [r.track now] ∧
      (s.inject r fresh now).inVideo = s.inVideo ++ [(s.playback, s.index)] ∧
      (s.inject r fresh now).missed =
        if s.polled = false then s.missed else s.missed ++ [(s.playback, s.index)]) ∨
    (¬(r.sensorId = 1 ∧ (trackListAdd fresh s.video (r.track now)).1 = 0) ∧
      (s.inject r fresh now).video = s.video ∧ (s.inject r fresh now).inVideo = s.inVideo ∧
      (s.inject r fresh now).missed = s.missed ++ [(s.playback, s.index)]) := by
  unfold inject
  by_cases h1 : r.sensorId = 1
  · rw [if_pos h1]
    rcases trackListAdd_cases fresh s.video (r.track now) with ⟨hret, hcont⟩ | heq
    · exact .inl ⟨h1, hret, hcont, if_pos hret, by simp [hret]⟩
    · refine .inr ⟨?_, by rw [heq], ?_, ?_⟩ <;> simp [heq]
  · rw [if_neg h1, if_pos (hr.resolve_left h1)]
    exact .inr ⟨fun h => h1 h.1, rfl, rfl, rfl⟩

theorem inject_capacity :
    s.video.capacity ≤ (s.inject r fresh now).video.capacity := by
  unfold inject
  split
  · exact trackListAdd_capacity fresh s.video (r.track now)
  · split <;> exact Nat.le_refl _

theorem inject_fates (hr : r.sensorId = 1 ∨ r.sensorId = 2) :
    ((s.playback, s.index) :: (s.waiting ++ s.missed)).Perm
      ((s.inject r fresh now).waiting ++ (s.inject r fresh now).missed) := by
  unfold waiting
  rw [s.inject_polled]
  rcases s.inject_cases r fresh now hr with ⟨-, -, -, hin, hmissed⟩ | ⟨-, -, hin, hmissed⟩
  · rw [hin, hmissed]
    cases s.polled with
    | true => simpa using (List.perm_append_singleton _ _).symm
    | false => simpa using List.perm_middle.symm
  · rw [hin, hmissed, ← List.append_assoc]
    exact (List.perm_append_singleton _ _).symm

end SimSys

section Inversion

variable [Field K] [LinearOrder K] {scanDouble : ScanDouble K} {config : SimConfig K}
  {text : List Char} {s t : SimSys K} {e : SimReply K}

theorem simStep_due {line : List Char} {rest : List (List Char)} {r : ScenarioLine K}
    {fresh : Fresh K} {now : Timeval} (hleft : s.left = some (line :: rest))
    (hparse : parseLine scanDouble line = some r) (hdue : config.due s.startMs now r) :
    simStep scanDouble config text s (.nextLine fresh now) =
      some ({ s.inject r fresh now with left := some rest, index := s.index + 1 }, .nothing) := by
  simp only [simStep, hleft, hparse, if_pos hdue]

theorem simStep_openFile {ok : Bool} {startTime : Timeval}
    (h : simStep scanDouble config text s (.openFile ok startTime) = some (t, e)) :
    e = .nothing ∧ s.ended = false ∧ s.left = none ∧
      (t = { s with left := some (scenarioLines text), startMs := startTime.millis } ∨
        t = { s with ended := true }) := by
  simp only [simStep] at h
  split at h
  · cases h
  · next hopen =>
    obtain ⟨hended, hleft⟩ : s.ended = false ∧ s.left = none := by simpa using hopen
    split at h <;> cases h
    · exact ⟨rfl, hended, hleft, .inl rfl⟩
    · exact ⟨rfl, hended, hleft, .inr rfl⟩

/-- A line is skipped or of neither sensor, or its detection is injected. -/
theorem simStep_nextLine {fresh : Fresh K} {now : Timeval}
    (h : simStep scanDouble config text s (.nextLine fresh now) = some (t, e)) :
    ∃ line rest s', s.left = some (line :: rest) ∧ e = .nothing ∧
      t = { s' with left := some rest, index := s.index + 1 } ∧
      ((s' = s ∧ ∀ r, parseLine scanDouble line = some r → ¬(r.sensorId = 1 ∨ r.sensorId = 2)) ∨
        ∃ r, parseLine scanDouble line = some r ∧ (r.sensorId = 1 ∨ r.sensorId = 2) ∧
          s' = s.inject r fresh now) := by
  simp only [simStep] at h
  split at h
  · next line rest hleft =>
    split at h
    · next hparse =>
      cases h
      exact ⟨line, rest, s, hleft, rfl, rfl, .inl ⟨rfl, by simp [hparse]⟩⟩
    · next r hparse =>
      split at h <;> cases h
      refine ⟨line, rest, s.inject r fresh now, hleft, rfl, rfl, ?_⟩
      by_cases hr : r.sensorId = 1 ∨ r.sensorId = 2
      · exact .inr ⟨r, hparse, hr, rfl⟩
      · refine .inl ⟨?_, fun r' hr' => ?_⟩
        · obtain ⟨h1, h2⟩ := not_or.mp hr
          simp [SimSys.inject, h1, h2]
        · cases hparse.symm.trans hr'
          exact hr
  · cases h

theorem simStep_endOfFile (h : simStep scanDouble config text s .endOfFile = some (t, e)) :
    e = .nothing ∧ s.left = some [] ∧
      ((config.loop = 0 ∧ t = { s with left := none, ended := true }) ∨
        (config.loop ≠ 0 ∧ t = { s with
          video := trackListClear s.video
          radar := trackListClear s.radar
          left := none
          playback := s.playback + 1
          index := 0
          inVideo := []
          missed := s.missed ++ s.waiting })) := by
  simp only [simStep] at h
  split at h
  · next hleft =>
    split at h
    · next hloop =>
      cases h
      exact ⟨rfl, hleft, .inl ⟨hloop, rfl⟩⟩
    · next hloop =>
      cases h
      exact ⟨rfl, hleft, .inr ⟨hloop, rfl⟩⟩
  · cases h

theorem simStep_poll (h : simStep scanDouble config text s .poll = some (t, e)) :
    s.polled = false ∧ t = { s with polled := true } ∧
      e = .fed s.video.contents s.inVideo := by
  simp only [simStep] at h
  split at h
  · next hpoll =>
    cases h
    exact ⟨hpoll.1, rfl, rfl⟩
  · cases h

theorem simStep_clear (h : simStep scanDouble config text s .clear = some (t, e)) :
    s.polled = true ∧ e = .nothing ∧
      t = { s with video := trackListClear s.video, polled := false, inVideo := [] } := by
  simp only [simStep] at h
  split at h
  · next hpolled =>
    cases h
    exact ⟨hpolled, rfl, rfl⟩
  · cases h

end Inversion

/-! ## The invariants -/

/-- The video list shows the lines `inVideo` says, of the playback going on, and
the file is read up to `index`. -/
structure SimInv [Zero K] (scanDouble : ScanDouble K) (text : List Char) (s : SimSys K) : Prop where
  listed : List.Forall₂ (Shows scanDouble text) s.video.contents s.inVideo
  room : 0 < s.video.capacity
  left : ∀ l, s.left = some l → l = (scenarioLines text).drop s.index
  closed : s.left = none → s.ended = false → s.index = 0
  current : ∀ x ∈ s.inVideo, x.1 = s.playback

section Steps

variable [Field K] {scanDouble : ScanDouble K} {text : List Char} {s t : SimSys K}
  {a : SimAct K} {e : SimReply K}

theorem SimInv.line (hs : SimInv scanDouble text s) {line : List Char} {rest : List (List Char)}
    (hleft : s.left = some (line :: rest)) :
    (scenarioLines text)[s.index]? = some line ∧ rest = (scenarioLines text).drop (s.index + 1) := by
  have hdrop := (hs.left _ hleft).symm
  constructor
  · rw [← List.head?_drop, hdrop]
    rfl
  · rw [← List.tail_drop, hdrop]
    rfl

theorem SimInv.eligible (hs : SimInv scanDouble text s) {line : List Char}
    {rest : List (List Char)} (hleft : s.left = some (line :: rest)) :
    Eligible scanDouble text s.index ↔
      ∃ r, parseLine scanDouble line = some r ∧ (r.sensorId = 1 ∨ r.sensorId = 2) := by
  obtain ⟨hline, -⟩ := hs.line hleft
  constructor
  · rintro ⟨line', r, hline', hparse, hr⟩
    cases hline.symm.trans hline'
    exact ⟨r, hparse, hr⟩
  · rintro ⟨r, hparse, hr⟩
    exact ⟨line, r, hline, hparse, hr⟩

theorem SimInv.lt_index (hs : SimInv scanDouble text s) (hleft : s.left = some []) {i : Nat}
    (hi : Eligible scanDouble text i) : i < s.index := by
  obtain ⟨line, r, hline, -, -⟩ := hi
  have hlt := (List.getElem?_eq_some_iff.mp hline).1
  have hle := List.drop_eq_nil_iff.mp (hs.left _ hleft).symm
  omega

/-! ## Every detection once -/

/-- Line `x.2` of playback `x.1` is eligible and has been read. -/
def Passed (scanDouble : ScanDouble K) (text : List Char) (s : SimSys K) (x : Nat × Nat) : Prop :=
  Eligible scanDouble text x.2 ∧ (x.1 < s.playback ∨ (x.1 = s.playback ∧ x.2 < s.index))

omit [Field K] in
theorem passed_skip (hline : ¬Eligible scanDouble text s.index) (hplayback : t.playback = s.playback)
    (hindex : t.index = s.index + 1) (x : Nat × Nat) :
    Passed scanDouble text t x ↔ Passed scanDouble text s x := by
  refine and_congr_right fun hx => ?_
  have hne : x.2 ≠ s.index := fun heq => hline (heq ▸ hx)
  rw [hplayback, hindex]
  omega

theorem SimInv.passed_restart (hs : SimInv scanDouble text s) (hleft : s.left = some [])
    (hplayback : t.playback = s.playback + 1) (hindex : t.index = 0) (x : Nat × Nat) :
    Passed scanDouble text t x ↔ Passed scanDouble text s x := by
  refine and_congr_right fun hx => ?_
  have hlt := hs.lt_index hleft hx
  rw [hplayback, hindex]
  omega

/-- What became of the detections so far: handed over, waiting in the list, missed. -/
def fates (tr : List (SimAct K × SimReply K)) (s : SimSys K) : List (Nat × Nat) :=
  fedLines tr ++ s.waiting ++ s.missed

/-- Every eligible line read has one fate, and the tracks handed over are the
detections of the lines they are said to be. -/
structure Settled (scanDouble : ScanDouble K) (text : List Char)
    (tr : List (SimAct K × SimReply K)) (s : SimSys K) : Prop where
  nodup : (fates tr s).Nodup
  mem : ∀ x, x ∈ fates tr s ↔ Passed scanDouble text s x
  told : ∀ a tracks which, (a, .fed tracks which) ∈ tr →
    List.Forall₂ (Shows scanDouble text) tracks which

theorem Settled.quiet {tr : List (SimAct K × SimReply K)} (hs : Settled scanDouble text tr s)
    (hfates : (s.waiting ++ s.missed).Perm (t.waiting ++ t.missed))
    (hpassed : ∀ x, Passed scanDouble text t x ↔ Passed scanDouble text s x) :
    Settled scanDouble text (tr ++ [(a, .nothing)]) t := by
  have hperm : (fates tr s).Perm (fates (tr ++ [(a, .nothing)]) t) := by
    unfold fates
    rw [fedLines_append, List.append_assoc, List.append_assoc]
    exact (List.append_nil (fedLines tr)).symm ▸ hfates.append_left _
  refine ⟨hperm.nodup_iff.mp hs.nodup, fun x => ?_, fun b tracks which hmem => ?_⟩
  · rw [hpassed, ← hs.mem, hperm.mem_iff]
  · rcases List.mem_append.mp hmem with hmem | hmem
    · exact hs.told b tracks which hmem
    · simp at hmem

theorem Settled.reads {tr : List (SimAct K × SimReply K)} (hs : Settled scanDouble text tr s)
    (hline : Eligible scanDouble text s.index) (hplayback : t.playback = s.playback)
    (hindex : t.index = s.index + 1)
    (hfates : ((s.playback, s.index) :: (s.waiting ++ s.missed)).Perm (t.waiting ++ t.missed)) :
    Settled scanDouble text (tr ++ [(a, .nothing)]) t := by
  have hperm : ((s.playback, s.index) :: fates tr s).Perm (fates (tr ++ [(a, .nothing)]) t) := by
    unfold fates
    rw [fedLines_append, List.append_assoc, List.append_assoc]
    refine List.perm_middle.symm.trans ?_
    exact (List.append_nil (fedLines tr)).symm ▸ hfates.append_left _
  have hnew : (s.playback, s.index) ∉ fates tr s := by
    rw [hs.mem]
    rintro ⟨-, hlt | ⟨-, hlt⟩⟩
    · exact Nat.lt_irrefl _ hlt
    · exact Nat.lt_irrefl _ hlt
  refine ⟨hperm.nodup_iff.mp (List.nodup_cons.mpr ⟨hnew, hs.nodup⟩), fun x => ?_,
    fun b tracks which hmem => ?_⟩
  · rw [← hperm.mem_iff, List.mem_cons, hs.mem]
    unfold Passed
    rw [hplayback, hindex]
    constructor
    · rintro (rfl | ⟨hx, hlt⟩)
      · exact ⟨hline, .inr ⟨rfl, Nat.lt_succ_self _⟩⟩
      · exact ⟨hx, by omega⟩
    · rintro ⟨hx, hlt⟩
      by_cases heq : x.1 = s.playback ∧ x.2 = s.index
      · exact .inl (Prod.ext heq.1 heq.2)
      · exact .inr ⟨hx, by omega⟩
  · rcases List.mem_append.mp hmem with hmem | hmem
    · exact hs.told b tracks which hmem
    · simp at hmem

theorem SimInv.start {video radar : TrackList K} {cap : Int} {g : Nat → TargetTrack K}
    (hcap : 0 < cap) (hvideo : trackListCreate (some g) cap = some video) :
    SimInv scanDouble text (.start video radar) := by
  obtain ⟨hcont, hsize, -⟩ := trackListCreate_eq hvideo
  refine ⟨?_, ?_, (fun l hl => by cases hl), fun _ _ => rfl, fun x hx => by cases hx⟩
  · show List.Forall₂ _ video.contents []
    rw [hcont]
    exact .nil
  · show 0 < video.capacity
    omega

theorem Settled.start (video radar : TrackList K) :
    Settled scanDouble text [] (.start video radar) where
  nodup := List.nodup_nil
  mem x := by
    constructor
    · intro hx
      cases hx
    · rintro ⟨-, hlt | ⟨-, hlt⟩⟩ <;> cases hlt
  told a tracks which hmem := by cases hmem

variable [LinearOrder K] {config : SimConfig K}

theorem SimInv.step (s : SimSys K) (a : SimAct K) (t : SimSys K) (e : SimReply K)
    (hs : SimInv scanDouble text s) (h : simStep scanDouble config text s a = some (t, e)) :
    SimInv scanDouble text t := by
  cases a with
  | openFile ok startTime =>
    obtain ⟨-, hended, hleft, rfl | rfl⟩ := simStep_openFile h
    · refine { hs with left := ?_, closed := fun hnone => by cases hnone }
      rintro l ⟨⟩
      rw [hs.closed hleft hended]
      rfl
    · exact { hs with closed := fun _ hfalse => by cases hfalse }
  | nextLine fresh now =>
    obtain ⟨line, rest, s', hleft, -, rfl, hcases⟩ := simStep_nextLine h
    obtain ⟨hline, hrest⟩ := hs.line hleft
    have hleft' : ∀ l, some rest = some l → l = (scenarioLines text).drop (s.index + 1) := by
      rintro l ⟨⟩
      exact hrest
    rcases hcases with ⟨rfl, -⟩ | ⟨r, hparse, hr, rfl⟩
    · exact { hs with left := hleft', closed := fun hnone => by cases hnone }
    · have hroom : 0 < (s.inject r fresh now).video.capacity :=
        Nat.lt_of_lt_of_le hs.room (s.inject_capacity r fresh now)
      rcases s.inject_cases r fresh now hr with ⟨-, -, hcont, hin, -⟩ | ⟨-, hvideo, hin, -⟩
      · refine ⟨?_, hroom, hleft', (fun hnone => by cases hnone), ?_⟩
        · show List.Forall₂ _ (s.inject r fresh now).video.contents (s.inject r fresh now).inVideo
          rw [hcont, hin]
          exact List.rel_append hs.listed (.cons ⟨line, r, now, hline, hparse, rfl⟩ .nil)
        · show ∀ x ∈ (s.inject r fresh now).inVideo, x.1 = (s.inject r fresh now).playback
          rw [hin, s.inject_playback]
          intro x hx
          rcases List.mem_append.mp hx with hx | hx
          · exact hs.current x hx
          · rw [List.mem_singleton.mp hx]
      · refine ⟨?_, hroom, hleft', (fun hnone => by cases hnone), ?_⟩
        · show List.Forall₂ _ (s.inject r fresh now).video.contents (s.inject r fresh now).inVideo
          rw [hvideo, hin]
          exact hs.listed
        · show ∀ x ∈ (s.inject r fresh now).inVideo, x.1 = (s.inject r fresh now).playback
          rw [hin, s.inject_playback]
          exact hs.current
  | endOfFile =>
    obtain ⟨-, hleft, ⟨-, rfl⟩ | ⟨-, rfl⟩⟩ := simStep_endOfFile h
    · exact { hs with
        left := fun l hl => by cases hl
        closed := fun _ hfalse => by cases hfalse }
    · exact ⟨.nil, hs.room, (fun l hl => by cases hl), fun _ _ => rfl, fun x hx => by cases hx⟩
  | poll =>
    obtain ⟨-, rfl, -⟩ := simStep_poll h
    exact { hs with }
  | clear =>
    obtain ⟨-, -, rfl⟩ := simStep_clear h
    exact { hs with listed := .nil, current := fun x hx => by cases hx }

theorem Settled.step (tr : List (SimAct K × SimReply K)) (s : SimSys K) (a : SimAct K)
    (t : SimSys K) (e : SimReply K)
    (hs : SimInv scanDouble text s ∧ Settled scanDouble text tr s)
    (h : simStep scanDouble config text s a = some (t, e)) :
    SimInv scanDouble text t ∧ Settled scanDouble text (tr ++ [(a, e)]) t := by
  obtain ⟨hinv, hs⟩ := hs
  refine ⟨hinv.step s a t e h, ?_⟩
  cases a with
  | openFile ok startTime =>
    obtain ⟨rfl, -, -, rfl | rfl⟩ := simStep_openFile h
    · exact hs.quiet (.refl _) fun x => .rfl
    · exact hs.quiet (.refl _) fun x => .rfl
  | nextLine fresh now =>
    obtain ⟨line, rest, s', hleft, rfl, rfl, hcases⟩ := simStep_nextLine h
    have hline := hinv.eligible hleft
    rcases hcases with ⟨rfl, hnot⟩ | ⟨r, hparse, hr, rfl⟩
    · refine hs.quiet (.refl _) (passed_skip (fun hel => ?_) rfl rfl)
      obtain ⟨r, hparse, hr⟩ := hline.mp hel
      exact hnot r hparse hr
    · refine hs.reads (hline.mpr ⟨r, hparse, hr⟩) (s.inject_playback r fresh now) rfl ?_
      exact s.inject_fates r fresh now hr
  | endOfFile =>
    obtain ⟨rfl, hleft, ⟨-, rfl⟩ | ⟨-, rfl⟩⟩ := simStep_endOfFile h
    · exact hs.quiet (.refl _) fun x => .rfl
    · refine hs.quiet ?_ (hinv.passed_restart hleft rfl rfl)
      show (s.waiting ++ s.missed).Perm ((if s.polled then [] else []) ++ (s.missed ++ s.waiting))
      rw [ite_self, List.nil_append]
      exact List.perm_append_comm
  | poll =>
    obtain ⟨hpolled, rfl, rfl⟩ := simStep_poll h
    have hfates : fates (tr ++ [(.poll, .fed s.video.contents s.inVideo)])
        { s with polled := true } = fates tr s := by
      simp [fates, fedLines, SimSys.waiting, hpolled]
    refine ⟨by rw [hfates]; exact hs.nodup, fun x => by rw [hfates]; exact hs.mem x, ?_⟩
    intro b tracks which hmem
    rcases List.mem_append.mp hmem with hmem | hmem
    · exact hs.told b tracks which hmem
    · cases List.mem_singleton.mp hmem
      exact hinv.listed
  | clear =>
    obtain ⟨hpolled, rfl, rfl⟩ := simStep_clear h
    refine hs.quiet ?_ fun x => .rfl
    simp [SimSys.waiting, hpolled]

omit [LinearOrder K] in
theorem SimInv.waiting_current (hs : SimInv scanDouble text s) :
    ∀ x ∈ s.waiting, x.1 = s.playback := by
  intro x hx
  unfold SimSys.waiting at hx
  split at hx
  · cases hx
  · exact hs.current x hx

omit [LinearOrder K] in
/-- An eligible line is caught if it is the video sensor's, its detection gets into
the list and no poll is half done. -/
theorem SimInv.catches_line (hs : SimInv scanDouble text s) {line : List Char}
    {rest : List (List Char)} {r : ScenarioLine K} (hleft : s.left = some (line :: rest))
    (hparse : parseLine scanDouble line = some r) (hr : r.sensorId = 1 ∨ r.sensorId = 2)
    (fresh : Fresh K) (now : Timeval) :
    s.Catches scanDouble config (.nextLine fresh now) ↔
      (r.sensorId = 1 ∧ (trackListAdd fresh s.video (r.track now)).1 = 0) ∧ s.polled = false := by
  rw [trackListAdd_eq_zero hs.room]
  constructor
  · intro hc
    obtain ⟨h1, hp, hadd⟩ := hc line rest r hleft hparse hr
    exact ⟨⟨h1, hadd⟩, hp⟩
  · rintro ⟨⟨h1, hadd⟩, hp⟩ line' rest' r' hleft' hparse' -
    cases hleft.symm.trans hleft'
    cases hparse.symm.trans hparse'
    exact ⟨h1, hp, hadd⟩

omit [LinearOrder K] in
theorem SimInv.catches_restart (hs : SimInv scanDouble text s) (hloop : config.loop ≠ 0) :
    s.Catches scanDouble config .endOfFile ↔ s.waiting = [] := by
  have hlen : s.inVideo.length = s.video.count := by
    rw [← hs.listed.length_eq, s.video.contents_length]
  have hcatch : s.Catches scanDouble config .endOfFile ↔ s.polled = true ∨ s.video.count = 0 :=
    forall_prop_of_true hloop
  rw [hcatch, ← hlen, SimSys.waiting]
  cases s.polled with
  | true => simp
  | false => simp

omit [Field K] [LinearOrder K] in
/-- Whether playback `k` misses something once `new`, all of the playback going
on, is missed too. -/
theorem missed_iff_of_append {k : Nat} {new : List (Nat × Nat)} {C : Prop}
    (hmissed : t.missed = s.missed ++ new) (hnew : ∀ x ∈ new, x.1 = s.playback)
    (hC : C ↔ new = []) :
    (∃ i, (k, i) ∈ t.missed) ↔ (∃ i, (k, i) ∈ s.missed) ∨ (s.playback = k ∧ ¬C) := by
  rw [hmissed, hC]
  constructor
  · rintro ⟨i, hi⟩
    rcases List.mem_append.mp hi with hi | hi
    · exact .inl ⟨i, hi⟩
    · exact .inr ⟨(hnew _ hi).symm, List.ne_nil_of_mem hi⟩
  · rintro (⟨i, hi⟩ | ⟨rfl, hne⟩)
    · exact ⟨i, List.mem_append_left _ hi⟩
    · obtain ⟨x, hx⟩ := List.exists_mem_of_ne_nil _ hne
      exact ⟨x.2, List.mem_append_right _ (hnew x hx ▸ hx)⟩

/-- The detections a step makes missed are those of the playback going on, and
there are some exactly if it is not one that catches them. -/
theorem SimInv.missed_step (hs : SimInv scanDouble text s)
    (h : simStep scanDouble config text s a = some (t, e)) (k : Nat) :
    (∃ i, (k, i) ∈ t.missed) ↔
      (∃ i, (k, i) ∈ s.missed) ∨ (s.playback = k ∧ ¬s.Catches scanDouble config a) := by
  have hsame : t.missed = s.missed → s.Catches scanDouble config a →
      ((∃ i, (k, i) ∈ t.missed) ↔
        (∃ i, (k, i) ∈ s.missed) ∨ (s.playback = k ∧ ¬s.Catches scanDouble config a)) :=
    fun hm hc => missed_iff_of_append (hm.trans (List.append_nil _).symm)
      (fun x hx => by cases hx) (iff_of_true hc rfl)
  cases a with
  | openFile ok startTime =>
    obtain ⟨-, -, -, rfl | rfl⟩ := simStep_openFile h <;> exact hsame rfl trivial
  | nextLine fresh now =>
    obtain ⟨line, rest, s', hleft, -, rfl, hcases⟩ := simStep_nextLine h
    rcases hcases with ⟨rfl, hnot⟩ | ⟨r, hparse, hr, rfl⟩
    · refine hsame rfl fun line' rest' r hleft' hparse hr => ?_
      cases hleft.symm.trans hleft'
      exact absurd hr (hnot r hparse)
    · have hcatch : s.Catches scanDouble config (.nextLine fresh now) ↔ _ :=
        hs.catches_line hleft hparse hr fresh now
      have hone : ∀ x ∈ [(s.playback, s.index)], x.1 = s.playback := by simp
      rcases s.inject_cases r fresh now hr with ⟨h1, hret, -, -, hmissed⟩ | ⟨hnot, -, -, hmissed⟩
      · by_cases hp : s.polled = false
        · rw [if_pos hp] at hmissed
          exact hsame hmissed (hcatch.mpr ⟨⟨h1, hret⟩, hp⟩)
        · rw [if_neg hp] at hmissed
          exact missed_iff_of_append hmissed hone
            (iff_of_false (fun hc => hp (hcatch.mp hc).2) (List.cons_ne_nil _ _))
      · exact missed_iff_of_append hmissed hone
          (iff_of_false (fun hc => hnot (hcatch.mp hc).1) (List.cons_ne_nil _ _))
  | endOfFile =>
    obtain ⟨-, -, ⟨hloop, rfl⟩ | ⟨hloop, rfl⟩⟩ := simStep_endOfFile h
    · exact hsame rfl fun hne => absurd hloop hne
    · exact missed_iff_of_append rfl hs.waiting_current (hs.catches_restart hloop)
  | poll =>
    obtain ⟨-, rfl, -⟩ := simStep_poll h
    exact hsame rfl trivial
  | clear =>
    obtain ⟨-, -, rfl⟩ := simStep_clear h
    exact hsame rfl trivial

end Steps

/-- **When a playback is delivered.** In a run of the simulator thread and the main
loop's polls, what a poll hands over are the detections of the lines `fedLines`
counts, none of them twice; and of a playback that is over every line of the two
sensors was handed over once if and only if every step taken in it caught its
detections. -/
theorem fedLines_once_iff [Field K] [LinearOrder K] {scanDouble : ScanDouble K}
    {config : SimConfig K} {text : List Char} {video radar : TrackList K}
    {g : Nat → TargetTrack K} {tr : List (SimAct K × SimReply K)} {s : SimSys K}
    (hvideo : trackListCreate (some g) 100 = some video)
    (hrun : Run (simStep scanDouble config text) (.start video radar) tr s) :
    (∀ a tracks which, (a, .fed tracks which) ∈ tr →
      List.Forall₂ (Shows scanDouble text) tracks which) ∧
    (∀ x, (fedLines tr).count x ≤ 1) ∧
    ∀ k, k < s.playback →
      ((∀ i, Eligible scanDouble text i → (fedLines tr).count (k, i) = 1) ↔
        ∀ tr₁ a e tr₂ t, tr = tr₁ ++ (a, e) :: tr₂ →
          Run (simStep scanDouble config text) (.start video radar) tr₁ t →
          t.playback = k → t.Catches scanDouble config a) := by
  have hstart : SimInv scanDouble text (SimSys.start video radar) :=
    SimInv.start (by decide) hvideo
  obtain ⟨hinv, hs⟩ := hrun.history Settled.step ⟨hstart, Settled.start video radar⟩
  rw [List.nil_append] at hs
  have hnodup : (fedLines tr ++ (s.waiting ++ s.missed)).Nodup := by
    rw [← List.append_assoc]
    exact hs.nodup
  obtain ⟨hfed, -, hdisj⟩ := List.nodup_append'.mp hnodup
  refine ⟨hs.told, List.nodup_iff_count_le_one.mp hfed, fun k hk => ?_⟩
  have hmissed : (∃ i, (k, i) ∈ s.missed) ↔ _ :=
    hrun.occurs (I := SimInv scanDouble text) (Q := fun s => ∃ i, (k, i) ∈ s.missed)
      SimInv.step (fun s a t e hI h => hI.missed_step h k) hstart
      (fun hex => by obtain ⟨i, hi⟩ := hex; cases hi)
  have hfate : (∀ i, Eligible scanDouble text i → (fedLines tr).count (k, i) = 1) ↔
      ¬∃ i, (k, i) ∈ s.missed := by
    constructor
    · rintro hall ⟨i, hi⟩
      have hel := ((hs.mem (k, i)).mp (List.mem_append_right _ hi)).1
      have hmem : (k, i) ∈ fedLines tr := by
        rw [← List.count_pos_iff, hall i hel]
        exact Nat.one_pos
      exact hdisj hmem (List.mem_append_right _ hi)
    · intro hnone i hel
      have hmem := (hs.mem (k, i)).mpr ⟨hel, .inl hk⟩
      refine List.count_eq_one_of_mem hfed ?_
      rcases List.mem_append.mp hmem with hmem | hmem
      · rcases List.mem_append.mp hmem with hmem | hmem
        · exact hmem
        · -- what still waits is of the playback going on
          have := hinv.waiting_current _ hmem
          simp only at this
          omega
      · exact absurd ⟨i, hmem⟩ hnone
  rw [hfate, hmissed]
  constructor
  · intro hnone tr₁ a e tr₂ t htr ht hk'
    by_contra hc
    exact hnone ⟨tr₁, a, e, tr₂, t, htr, ht, hk', hc⟩
  · rintro hall ⟨tr₁, a, e, tr₂, t, htr, ht, hk', hc⟩
    exact hc (hall tr₁ a e tr₂ t htr ht hk')

def simList : TrackList ℚ :=
  (trackListCreate (some fun _ => ⟨0, .vehicle, ⟨0, 0, 0⟩, 0, 0, 0, ⟨0, 0⟩, 0⟩) 100).get rfl

/-- One line, of the radar, is read and the file restarted: nobody gets its
detection. -/
theorem radar_line_missed :
    ¬ ∀ (text : List Char) (tr : List (SimAct ℚ × SimReply ℚ)) (s : SimSys ℚ),
        Run (simStep scanDecimal ⟨1, 1⟩ text) (.start simList simList) tr s →
        ∀ k, k < s.playback → ∀ i, Eligible (K := ℚ) scanDecimal text i →
          (fedLines tr).count (k, i) = 1 := by
  intro hclaim
  have hrun : Run (simStep scanDecimal ⟨1, 1⟩ "0 2 7 0 39.9 116.4 10 90 0.8\n".toList)
      (.start simList simList)
      [(.openFile true ⟨1, 0⟩, .nothing), (.nextLine none ⟨1, 0⟩, .nothing),
        (.endOfFile, .nothing)] _ :=
    .cons rfl (.cons (simStep_due rfl rfl (by decide +kernel)) (.cons rfl (.nil _)))
  have hnone : 0 = 1 := hclaim _ _ _ hrun 0 Nat.one_pos 0 ⟨_, _, rfl, rfl, .inr rfl⟩
  cases hnone

def videoText : List Char := "0 1 7 0 39.9 116.4 10 90 0.8\n".toList

theorem fedLines_once_iff_video : ∃ (tr : List (SimAct ℚ × SimReply ℚ)) (s : SimSys ℚ),
    Run (simStep scanDecimal ⟨1, 1⟩ videoText) (.start simList simList) tr s ∧
      s.playback = 1 ∧ fedLines tr = [(0, 0)] ∧
      ∀ tr₁ a e tr₂ t, tr = tr₁ ++ (a, e) :: tr₂ →
        Run (simStep scanDecimal ⟨1, 1⟩ videoText) (.start simList simList) tr₁ t →
        t.playback = 0 → t.Catches scanDecimal ⟨1, 1⟩ a := by
  have hend : ∀ tr s, Run (simStep scanDecimal ⟨1, 1⟩ videoText) (.start simList simList) tr s →
      s.playback = 1 → fedLines tr = [(0, 0)] →
      ∀ tr₁ a e tr₂ t, tr = tr₁ ++ (a, e) :: tr₂ →
        Run (simStep scanDecimal ⟨1, 1⟩ videoText) (.start simList simList) tr₁ t →
        t.playback = 0 → t.Catches scanDecimal ⟨1, 1⟩ a := by
    intro tr s hrun hk hfed
    obtain ⟨-, -, hall⟩ := fedLines_once_iff (Option.some_get rfl).symm hrun
    refine (hall 0 (by omega)).mp fun i hel => ?_
    obtain ⟨line, r, hline, -⟩ := hel
    obtain rfl : i = 0 := Nat.lt_one_iff.mp (List.getElem?_eq_some_iff.mp hline).1
    rw [hfed]
    rfl
  have hrun : Run (simStep scanDecimal ⟨1, 1⟩ videoText) (.start simList simList)
      [(.openFile true ⟨1, 0⟩, .nothing), (.nextLine none ⟨1, 0⟩, .nothing),
        (.poll, .fed _ [(0, 0)]), (.clear, .nothing), (.endOfFile, .nothing)] _ :=
    .cons rfl (.cons (simStep_due rfl rfl (by decide +kernel))
      (.cons rfl (.cons rfl (.cons rfl (.nil _)))))
  exact ⟨_, _, hrun, rfl, rfl, hend _ _ hrun rfl rfl⟩

end Mec
