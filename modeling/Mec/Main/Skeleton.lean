import Mec.Main.Program

/-!
# The control skeleton of the program

Where `main` is, what its variables hold and which threads run. `Move` lists what a
step can do to that, with the label that one of the three allocations `main` cannot do
without was refused. `Control` is the invariant: up to the creation of the processor
most variables are unassigned, from there to `cleanup` every one holds `NULL` or an
object, and `cleanup` works through them in order; until then what a running thread works
on is there. The label decides whether `main` goes on to read a variable it has not
assigned (`Move.doomed_iff`).
-/

namespace Mec

namespace MainPhase

def early : MainPhase → Bool
  | loadConfig | createQueue | createFusion => true
  | _ => false

def cleans : MainPhase → Bool
  | cleanup _ => true
  | _ => false

def up (ph : MainPhase) : Bool := ph.active && !ph.cleans

def body (ph : MainPhase) : Bool := ph.up && !ph.early

theorem up_of_body {ph : MainPhase} (h : ph.body) : ph.up := by
  rw [body, Bool.and_eq_true] at h
  exact h.1

def inLoop : MainPhase → Bool
  | loopTop | popping | idle | feeding | clearing => true
  | _ => false

theorem body_of_inLoop {ph : MainPhase} (h : ph.inLoop) : ph.body := by
  cases ph <;> first | rfl | cases h

def sourced (ph : MainPhase) : Bool :=
  ph.inLoop || ph = startSimulator || ph = startFusion || ph = startMonitor

def creates : MainPhase → Bool
  | createQueue | createFusion | createSimulator | createVideo | createRadar => true
  | _ => false

def sensing : MainPhase → Bool
  | createVideo | createRadar | startVideo | startRadar => true
  | _ => false

end MainPhase

/-- What a thread works on. -/
def Worker.uses : Worker → List MainPart
  | monitor => [.monitor, .fusion]
  | simulator => [.simulator]
  | video => [.video, .queue]
  | radar => [.radar, .queue]
  | fusion => [.fusion]

/-- `ok` says that `ret` is `MEC_OK`. -/
structure Skeleton where
  phase : MainPhase
  simMode : Bool
  ok : Bool
  vars : MainPart → Var
  alive : Worker → Bool

namespace Skeleton

def goto (s : Skeleton) (phase : MainPhase) : Skeleton := { s with phase := phase }

def fail (s : Skeleton) : Skeleton := { s with ok := false, phase := .cleanup .monitor }

def set (s : Skeleton) (c : MainPart) (v : Var) : Skeleton :=
  { s with vars := Function.update s.vars c v }

def declare (s : Skeleton) : Skeleton :=
  { s with
    vars := fun c => match c with
      | .video | .radar | .simulator | .monitor => .null
      | c => s.vars c }

def spawn (s : Skeleton) (w : Worker) : Skeleton :=
  { s with alive := Function.update s.alive w true }

/-- `alive` says which threads are left. -/
def takeDown (s : Skeleton) (c : MainPart) (alive : Worker → Bool) : Skeleton :=
  { s.set c (if c = .monitor then .null else .gone) with alive }

/-- Where `cleanup` goes from `c`. -/
def after (s : Skeleton) (c : MainPart) : MainPhase :=
  match c.next with
  | some d => .cleanup d
  | none => .exited (if s.ok then 0 else 1)

@[simp] theorem set_vars_self (s : Skeleton) (c : MainPart) (v : Var) : (s.set c v).vars c = v :=
  Function.update_self _ _ _

theorem set_vars_ne (s : Skeleton) {c d : MainPart} (h : d ≠ c) (v : Var) :
    (s.set c v).vars d = s.vars d := Function.update_of_ne h _ _

theorem spawn_alive_ne (s : Skeleton) {v w : Worker} (h : v ≠ w) :
    (s.spawn w).alive v = s.alive v := Function.update_of_ne h _ _

theorem set_here_of (s : Skeleton) {d : MainPart} (h : s.vars d = .here) (c : MainPart) :
    (s.set c .here).vars d = .here := by
  by_cases hd : d = c
  · subst hd
    exact s.set_vars_self d .here
  · rw [s.set_vars_ne hd, h]

/-- The body's calls that create a component, and what comes next. -/
inductive Creates : MainPhase → MainPart → MainPhase → Prop where
  | simulator : Creates .createSimulator .simulator .startSimulator
  | video : Creates .createVideo .video .createRadar
  | radar : Creates .createRadar .radar .startVideo

/-- Those that start a thread and can succeed. -/
inductive Starts : MainPhase → Worker → MainPhase → Prop where
  | simulator : Starts .startSimulator .simulator .startFusion
  | video : Starts .startVideo .video .startRadar
  | fusion : Starts .startFusion .fusion .startMonitor

/-- The ways through the loop. -/
inductive Turns : MainPhase → MainPhase → Prop where
  | enter : Turns .startMonitor .loopTop
  | pop : Turns .loopTop .popping
  | popped : Turns .popping .loopTop
  | empty : Turns .popping .idle
  | nothing : Turns .idle .loopTop
  | poll : Turns .idle .feeding
  | feed : Turns .feeding .clearing
  | clear : Turns .clearing .loopTop

/-- What a step can do; the label is true where the configuration was not loaded, or
the queue or the processor not created. -/
inductive Move (s : Skeleton) : Bool → Skeleton → Prop where
  | stay : s.phase.active → Move s false s
  | loaded : s.phase = .loadConfig →
      Move s false (({ s with ok := true }.set .config .here).goto .createQueue)
  | unloaded (v : Var) : s.phase = .loadConfig → v = .null ∨ v = .gone → s.simMode →
      Move s true (({ s with ok := false }.set .config v).goto .createQueue)
  | refused (v : Var) : s.phase = .loadConfig → s.simMode = false →
      Move s true (s.set .config v).fail
  | queued : s.phase = .createQueue → Move s false ((s.set .queue .here).goto .createFusion)
  | unqueued : s.phase = .createQueue → Move s true (s.set .queue .null).fail
  | dangling (b : Bool) : s.phase = .createFusion → s.vars .config = .gone →
      Move s b (s.goto .undefined)
  | fused : s.phase = .createFusion → s.vars .config ≠ .gone →
      Move s false ((s.set .fusion .here).declare.goto
        (if s.simMode then .createSimulator else .createVideo))
  | unfused : s.phase = .createFusion → s.vars .config ≠ .gone →
      Move s true (s.set .fusion .null).fail
  | unread : s.phase = .createSimulator ∨ s.phase = .createVideo → s.vars .config ≠ .here →
      Move s false (s.goto .undefined)
  | created {p ph : MainPhase} {c : MainPart} : s.phase = p → Creates p c ph →
      (p = .createSimulator → s.vars .config = .here) → Move s false ((s.set c .here).goto ph)
  | started {p ph : MainPhase} {w : Worker} : s.phase = p → Starts p w ph →
      Move s false ((s.spawn w).goto ph)
  | failed : s.phase.body → s.phase.inLoop = false →
      (s.phase = .createSimulator → s.vars .config = .here) → Move s false s.fail
  | monitored : s.phase = .startMonitor →
      Move s false (((s.set .monitor .here).spawn .monitor).goto .loopTop)
  | turn {p ph : MainPhase} : s.phase = p → Turns p ph → Move s false (s.goto ph)
  | left : s.phase = .loopTop → Move s false ({ s with ok := true }.goto (.cleanup .monitor))
  | passed {c : MainPart} : s.phase = .cleanup c → s.vars c = .null →
      Move s false (s.goto (s.after c))
  | tookDown {c : MainPart} (alive : Worker → Bool) : s.phase = .cleanup c → s.vars c = .here →
      Move s false ((s.takeDown c alive).goto (s.after c))
  | misread {c : MainPart} : s.phase = .cleanup c → s.vars c = .unset ∨ s.vars c = .gone →
      Move s false (s.goto .undefined)
  | killed : s.phase.active → Move s false (s.goto .killed)

/-! ## The invariant -/

/-- `main` has assigned the configuration, and the queue before it creates the
processor. -/
structure Early (s : Skeleton) : Prop where
  phase : s.phase.early
  unset : ∀ c, c ≠ .config → c ≠ .queue → s.vars c = .unset
  config : s.vars .config ≠ .unset
  queue : s.vars .queue = .here ↔ s.phase = .createFusion
  idle : ∀ w, s.alive w = false

structure Body (s : Skeleton) : Prop where
  phase : s.phase.body
  settled : ∀ c, s.vars c = .null ∨ s.vars c = .here
  queue : s.vars .queue = .here
  fusion : s.vars .fusion = .here
  simulator : s.phase.sourced → s.vars .simulator = .here
  video : s.phase = .createRadar ∨ s.phase = .startVideo → s.vars .video = .here

/-- `cleanup` has come to `c`, and every variable is assigned. -/
structure Cleaning (s : Skeleton) (c : MainPart) : Prop where
  phase : s.phase = .cleanup c
  before : ∀ d : MainPart, d.rank < c.rank → s.vars d ≠ .here
  after : ∀ d : MainPart, c.rank ≤ d.rank → s.vars d = .null ∨ s.vars d = .here

/-- `cleanup` was reached by a jump over declarations. -/
structure Skipped (s : Skeleton) : Prop where
  phase : s.phase = .cleanup .monitor
  unset : s.vars .monitor = .unset
  idle : ∀ w, s.alive w = false

/-- The process has ended; at an exit everything is taken down. -/
structure Over (s : Skeleton) : Prop where
  phase : s.phase.active = false
  down : ∀ status, s.phase = .exited status → ∀ c, s.vars c ≠ .here

/-- **Invariant** of the control state. What threads are left when `cleanup` has begun it
does not say. In real mode `main` never starts the fusion
thread, in simulation it has no sensors. -/
structure Control (s : Skeleton) : Prop where
  staged : s.Early ∨ s.Body ∨ (∃ c, s.Cleaning c) ∨ s.Skipped ∨ s.Over
  workers : s.phase.up → ∀ w, s.alive w → ∀ c ∈ w.uses, s.vars c = .here
  sensors : s.simMode →
    s.phase.sensing = false ∧ s.vars .video ≠ .here ∧ s.vars .radar ≠ .here
  real : s.simMode = false → s.phase.sourced = false ∧ s.phase ≠ .createSimulator

variable {s t : Skeleton} {b : Bool}

theorem Control.early_of (h : s.Control) (hph : s.phase.early) : s.Early := by
  rcases h.staged with he | hb | ⟨c, hc⟩ | hk | ho
  · exact he
  · have := hb.phase
    simp [MainPhase.body, hph] at this
  · rw [hc.phase] at hph
    cases hph
  · rw [hk.phase] at hph
    cases hph
  · have := ho.phase
    cases hs : s.phase <;> simp_all [MainPhase.active, MainPhase.early]

theorem Control.body_of (h : s.Control) (hph : s.phase.body) : s.Body := by
  rcases h.staged with he | hb | ⟨c, hc⟩ | hk | ho
  · have := he.phase
    simp [MainPhase.body, this] at hph
  · exact hb
  · rw [hc.phase] at hph
    cases hph
  · rw [hk.phase] at hph
    cases hph
  · simp [MainPhase.body, MainPhase.up, ho.phase] at hph

theorem Control.cleaning_of (h : s.Control) {c : MainPart} (hph : s.phase = .cleanup c) :
    s.Cleaning c ∨ s.Skipped ∧ c = .monitor := by
  rcases h.staged with he | hb | ⟨d, hd⟩ | hk | ho
  · have := he.phase
    rw [hph] at this
    cases this
  · have := hb.phase
    rw [hph] at this
    cases this
  · obtain rfl := MainPhase.cleanup.inj (hph.symm.trans hd.phase)
    exact .inl hd
  · exact .inr ⟨hk, MainPhase.cleanup.inj (hph.symm.trans hk.phase)⟩
  · have := ho.phase
    rw [hph] at this
    cases this

theorem Control.down_of (h : s.Control) {status : Int} (hph : s.phase = .exited status)
    (c : MainPart) : s.vars c ≠ .here := by
  rcases h.staged with he | hb | ⟨d, hd⟩ | hk | ho
  · have := he.phase
    rw [hph] at this
    cases this
  · have := hb.phase
    rw [hph] at this
    cases this
  · cases hph.symm.trans hd.phase
  · cases hph.symm.trans hk.phase
  · exact ho.down status hph c

/-! ### Moves keep it -/

theorem Control.real_of (h : s.Control) (hph : s.phase.sensing) : s.simMode = false := by
  by_contra hs
  have hsens := (h.sensors (by simpa using hs)).1
  rw [hph] at hsens
  cases hsens

theorem Control.simulated_of (h : s.Control) (hph : s.phase.sourced) : s.simMode = true := by
  by_contra hs
  have hreal := (h.real (by simpa using hs)).1
  rw [hph] at hreal
  cases hreal

theorem Control.leave (h : s.Control) (hbody : s.Body) (ok : Bool) :
    (({ s with ok := ok } : Skeleton).goto (.cleanup .monitor)).Control where
  staged := .inr (.inr (.inl ⟨.monitor, rfl, fun _ hd => absurd hd (Nat.not_lt_zero _),
    fun d _ => hbody.settled d⟩))
  workers := nofun
  sensors hs := ⟨rfl, (h.sensors hs).2⟩
  real _ := ⟨rfl, nofun⟩

theorem Control.skip (h : s.Control) (hearly : s.Early) {c : MainPart}
    (hc : c = .config ∨ c = .queue ∨ c = .fusion) (v : Var) : (s.set c v).fail.Control where
  staged := by
    refine .inr (.inr (.inr (.inl ⟨rfl, ?_, hearly.idle⟩)))
    have hset : (s.set c v).vars .monitor = s.vars .monitor := by
      refine Function.update_of_ne ?_ _ _
      rcases hc with rfl | rfl | rfl <;> decide
    exact hset.trans (hearly.unset _ nofun nofun)
  workers := nofun
  sensors hs := by
    refine ⟨rfl, ?_, ?_⟩
    · rcases hc with rfl | rfl | rfl <;> exact (h.sensors hs).2.1
    · rcases hc with rfl | rfl | rfl <;> exact (h.sensors hs).2.2
  real _ := ⟨rfl, nofun⟩

theorem Control.over (h : s.Control) {ph : MainPhase} (hph : ph = .undefined ∨ ph = .killed) :
    (s.goto ph).Control where
  staged := by
    refine .inr (.inr (.inr (.inr ⟨?_, ?_⟩)))
    · rcases hph with rfl | rfl <;> rfl
    · rcases hph with rfl | rfl <;> exact nofun
  workers := by rcases hph with rfl | rfl <;> exact nofun
  sensors hs := by
    refine ⟨?_, (h.sensors hs).2⟩
    rcases hph with rfl | rfl <;> rfl
  real _ := by rcases hph with rfl | rfl <;> exact ⟨rfl, nofun⟩

theorem Body.set (h : s.Body) (c : MainPart) : (s.set c .here).Body where
  phase := h.phase
  settled d := by
    by_cases hd : d = c
    · subst hd
      exact .inr (s.set_vars_self d .here)
    · rw [s.set_vars_ne hd]
      exact h.settled d
  queue := s.set_here_of h.queue c
  fusion := s.set_here_of h.fusion c
  simulator hph := s.set_here_of (h.simulator hph) c
  video hph := s.set_here_of (h.video hph) c

theorem Control.set (h : s.Control) (hbody : s.Body) (c : MainPart)
    (hc : s.simMode → c ≠ .video ∧ c ≠ .radar) : (s.set c .here).Control where
  staged := .inr (.inl (hbody.set c))
  workers hup w hw d hd := s.set_here_of (h.workers hup w hw d hd) c
  sensors hs := by
    obtain ⟨hsens, hvideo, hradar⟩ := h.sensors hs
    refine ⟨hsens, ?_, ?_⟩
    · rwa [s.set_vars_ne (hc hs).1.symm]
    · rwa [s.set_vars_ne (hc hs).2.symm]
  real := h.real

theorem Control.spawn (h : s.Control) (hbody : s.Body) {w : Worker}
    (hw : ∀ c ∈ w.uses, s.vars c = .here) : (s.spawn w).Control where
  staged := .inr (.inl { hbody with })
  workers hup v hv := by
    by_cases heq : v = w
    · subst heq
      exact hw
    · exact h.workers hup v ((s.spawn_alive_ne heq).symm.trans hv)
  sensors := h.sensors
  real := h.real

theorem Control.advance (h : s.Control) (hbody : s.Body) {ph : MainPhase} (hph : ph.body)
    (hsim : s.simMode → ph.sensing = false)
    (hreal : s.simMode = false → ph.sourced = false ∧ ph ≠ .createSimulator)
    (hsourced : ph.sourced → s.vars .simulator = .here)
    (hvideo : ph = .createRadar ∨ ph = .startVideo → s.vars .video = .here) :
    (s.goto ph).Control where
  staged := .inr (.inl ⟨hph, hbody.settled, hbody.queue, hbody.fusion, hsourced, hvideo⟩)
  workers _ := h.workers (MainPhase.up_of_body hbody.phase)
  sensors hs := ⟨hsim hs, (h.sensors hs).2⟩
  real := hreal

theorem Control.setOk (h : s.Control) (ok : Bool) : ({ s with ok := ok } : Skeleton).Control where
  staged := by
    rcases h.staged with h | h | ⟨c, h⟩ | h | h
    · exact .inl { h with }
    · exact .inr (.inl { h with })
    · exact .inr (.inr (.inl ⟨c, { h with }⟩))
    · exact .inr (.inr (.inr (.inl { h with })))
    · exact .inr (.inr (.inr (.inr { h with })))
  workers := h.workers
  sensors := h.sensors
  real := h.real

theorem Control.assign (h : s.Control) (hearly : s.Early) {c : MainPart} {v : Var} {ph : MainPhase}
    (hcase : c = .config ∧ v ≠ .unset ∧ s.phase = .loadConfig ∧ ph = .createQueue ∨
      c = .queue ∧ v = .here ∧ ph = .createFusion) : ((s.set c v).goto ph).Control where
  staged := by
    refine .inl ⟨?_, fun d hd hd' => ?_, ?_, ?_, hearly.idle⟩
    · rcases hcase with ⟨-, -, -, rfl⟩ | ⟨-, -, rfl⟩ <;> rfl
    · refine (s.set_vars_ne ?_ v).trans (hearly.unset d hd hd')
      rcases hcase with ⟨rfl, -⟩ | ⟨rfl, -⟩ <;> assumption
    · rcases hcase with ⟨rfl, hv, -⟩ | ⟨rfl, -⟩
      · rwa [show ((s.set .config v).goto ph).vars .config = v from s.set_vars_self .config v]
      · exact hearly.config
    · rcases hcase with ⟨rfl, -, hph, rfl⟩ | ⟨rfl, rfl, rfl⟩
      · exact hearly.queue.trans (by simp [hph, goto])
      · exact iff_of_true (s.set_vars_self .queue .here) rfl
  workers _ w hw := by
    have hidle := hearly.idle w
    rw [show s.alive w = true from hw] at hidle
    cases hidle
  sensors hs := by
    rcases hcase with ⟨rfl, -, -, rfl⟩ | ⟨rfl, -, rfl⟩ <;> exact ⟨rfl, (h.sensors hs).2⟩
  real _ := by rcases hcase with ⟨-, -, -, rfl⟩ | ⟨-, -, rfl⟩ <;> exact ⟨rfl, nofun⟩

theorem Control.declare (hearly : s.Early) (hph : s.phase = .createFusion)
    (hconfig : s.vars .config ≠ .gone) : ((s.set .fusion .here).declare.goto
      (if s.simMode then .createSimulator else .createVideo)).Control where
  staged := by
    refine .inr (.inl ⟨?_, fun c => ?_, hearly.queue.mpr hph, rfl, ?_, ?_⟩)
    · cases s.simMode <;> rfl
    · cases c with
      | config =>
        show s.vars .config = .null ∨ s.vars .config = .here
        have hset := hearly.config
        cases hv : s.vars .config <;> simp_all
      | queue => exact .inr (hearly.queue.mpr hph)
      | fusion => exact .inr rfl
      | _ => exact .inl rfl
    · cases s.simMode <;> nofun
    · cases s.simMode <;> simp [Skeleton.goto]
  workers _ w hw := by
    have hidle := hearly.idle w
    rw [show s.alive w = true from hw] at hidle
    cases hidle
  sensors hs := by
    rw [show s.simMode = true from hs]
    exact ⟨rfl, nofun, nofun⟩
  real hs := by
    rw [show s.simMode = false from hs]
    exact ⟨rfl, nofun⟩

/-! ### Cleaning up -/

theorem rank_next {c d : MainPart} (h : c.next = some d) : d.rank = c.rank + 1 := by
  cases c <;> cases h <;> rfl

theorem rank_injective : Function.Injective MainPart.rank := by
  rintro (_ | _ | _ | _ | _ | _ | _) (_ | _ | _ | _ | _ | _ | _) <;> simp [MainPart.rank]

theorem rank_le_of_next {c d : MainPart} (h : c.next = none) : d.rank ≤ c.rank := by
  cases c <;> cases h
  cases d <;> decide

/-- `cleanup` goes on when `c` is no longer there. -/
theorem Cleaning.next {c : MainPart} (h : s.Cleaning c) (hvars : ∀ d, d ≠ c → t.vars d = s.vars d)
    (hc : t.vars c ≠ .here) (hph : t.phase = s.after c) : (∃ d, t.Cleaning d) ∨ t.Over := by
  have hbefore : ∀ d : MainPart, d.rank ≤ c.rank → t.vars d ≠ .here := fun d hd => by
    by_cases heq : d = c
    · rwa [heq]
    · rw [hvars d heq]
      exact h.before d (Nat.lt_of_le_of_ne hd fun hrank => heq (rank_injective hrank))
  unfold Skeleton.after at hph
  split at hph
  · next d hnext =>
    have hrank := rank_next hnext
    refine .inl ⟨d, hph, fun e he => hbefore e (by omega), fun e he => ?_⟩
    rw [hvars e (by rintro rfl; omega)]
    exact h.after e (by omega)
  · next hnext =>
    refine .inr ⟨by rw [hph]; rfl, fun _ _ d => hbefore d (rank_le_of_next hnext)⟩

theorem after_phase (s : Skeleton) (c : MainPart) :
    (s.after c).up = false ∧ (s.after c).sensing = false ∧ (s.after c).sourced = false ∧
      s.after c ≠ .createSimulator := by
  cases c <;> exact ⟨rfl, rfl, rfl, nofun⟩

theorem Move.up (hm : s.Move b t) (ht : t.phase.up) : s.phase.up := by
  have hafter := after_phase s
  cases hm with
  | stay _ => exact ht
  | passed _ _ | tookDown _ _ _ => exact absurd ((hafter _).1.symm.trans ht) nofun
  | created hp hc _ =>
    rw [hp]
    cases hc <;> rfl
  | started hp hst =>
    rw [hp]
    cases hst <;> rfl
  | turn hp hturn =>
    rw [hp]
    cases hturn <;> rfl
  | loaded hph | unloaded _ hph _ _ | queued hph | fused hph _ | monitored hph => rw [hph]; rfl
  | _ => cases ht

theorem Move.control (hm : s.Move b t) (h : s.Control) : t.Control := by
  cases hm with
  | stay _ => exact h
  | loaded hph =>
    have hok := h.setOk true
    exact hok.assign (hok.early_of (by rw [show _ = MainPhase.loadConfig from hph]; rfl))
      (.inl ⟨rfl, nofun, hph, rfl⟩)
  | unloaded v hph hv hsim =>
    have hok := h.setOk false
    exact hok.assign (hok.early_of (by rw [show _ = MainPhase.loadConfig from hph]; rfl))
      (.inl ⟨rfl, by rcases hv with rfl | rfl <;> nofun, hph, rfl⟩)
  | refused v hph hsim => exact h.skip (h.early_of (by rw [hph]; rfl)) (.inl rfl) v
  | queued hph =>
    exact h.assign (h.early_of (by rw [hph]; rfl)) (.inr ⟨rfl, rfl, rfl⟩)
  | unqueued hph => exact h.skip (h.early_of (by rw [hph]; rfl)) (.inr (.inl rfl)) .null
  | dangling b hph hv => exact h.over (.inl rfl)
  | fused hph hv => exact .declare (h.early_of (by rw [hph]; rfl)) hph hv
  | unfused hph hv => exact h.skip (h.early_of (by rw [hph]; rfl)) (.inr (.inr rfl)) .null
  | unread hph hv => exact h.over (.inl rfl)
  | @created p ph c hp hc _ =>
    cases hc with
    | simulator =>
      have hbody := h.body_of (by rw [hp]; rfl)
      have hset := h.set hbody .simulator fun _ => ⟨nofun, nofun⟩
      refine hset.advance (hbody.set .simulator) rfl (fun _ => rfl) (fun hs => ?_) (fun _ => ?_)
        (by simp)
      · exact absurd hp (h.real hs).2
      · exact s.set_vars_self .simulator .here
    | video =>
      have hbody := h.body_of (by rw [hp]; rfl)
      have hreal := h.real_of (by rw [hp]; rfl)
      have hset := h.set hbody .video fun hs => absurd (hreal.symm.trans hs) nofun
      exact hset.advance (hbody.set .video) rfl (fun hs => absurd (hreal.symm.trans hs) nofun)
        (fun _ => ⟨rfl, nofun⟩) nofun fun _ => s.set_vars_self .video .here
    | radar =>
      have hbody := h.body_of (by rw [hp]; rfl)
      have hreal := h.real_of (by rw [hp]; rfl)
      have hvideo := hbody.video (.inl hp)
      have hset := h.set hbody .radar fun hs => absurd (hreal.symm.trans hs) nofun
      exact hset.advance (hbody.set .radar) rfl (fun hs => absurd (hreal.symm.trans hs) nofun)
        (fun _ => ⟨rfl, nofun⟩) nofun fun _ => s.set_here_of hvideo .radar
  | @started p ph w hp hst =>
    cases hst with
    | simulator =>
      have hbody := h.body_of (by rw [hp]; rfl)
      have hsim := h.simulated_of (by rw [hp]; rfl)
      have hthere := hbody.simulator (by rw [hp]; rfl)
      have hspawn := h.spawn hbody (w := .simulator) (by simpa [Worker.uses] using hthere)
      exact hspawn.advance { hbody with } rfl (fun _ => rfl)
        (fun hs => absurd (hsim.symm.trans hs) nofun) (fun _ => hthere) (by simp)
    | video =>
      have hbody := h.body_of (by rw [hp]; rfl)
      have hreal := h.real_of (by rw [hp]; rfl)
      have hvideo := hbody.video (.inr hp)
      have hspawn := h.spawn hbody (w := .video) (by simp [Worker.uses, hvideo, hbody.queue])
      exact hspawn.advance { hbody with } rfl (fun hs => absurd (hreal.symm.trans hs) nofun)
        (fun _ => ⟨rfl, nofun⟩) nofun (by simp)
    | fusion =>
      have hbody := h.body_of (by rw [hp]; rfl)
      have hsim := h.simulated_of (by rw [hp]; rfl)
      have hthere := hbody.simulator (by rw [hp]; rfl)
      have hspawn := h.spawn hbody (w := .fusion) (by simpa [Worker.uses] using hbody.fusion)
      exact hspawn.advance { hbody with } rfl (fun _ => rfl)
        (fun hs => absurd (hsim.symm.trans hs) nofun) (fun _ => hthere) (by simp)
  | failed hph _ _ => exact h.leave (h.body_of hph) false
  | monitored hph =>
    have hbody := h.body_of (by rw [hph]; rfl)
    have hsim := h.simulated_of (by rw [hph]; rfl)
    have hthere := hbody.simulator (by rw [hph]; rfl)
    have hset := h.set hbody .monitor fun _ => ⟨nofun, nofun⟩
    have hbody' := hbody.set .monitor
    have hspawn := hset.spawn hbody' (w := .monitor) (by simp [Worker.uses, hbody'.fusion])
    exact hspawn.advance { hbody' with } rfl (fun _ => rfl)
      (fun hs => absurd (hsim.symm.trans hs) nofun) (fun _ => s.set_here_of hthere .monitor)
      (by simp)
  | @turn p ph hp hturn =>
    have hbody := h.body_of (by cases hturn <;> rw [hp] <;> rfl)
    have hsim := h.simulated_of (by cases hturn <;> rw [hp] <;> rfl)
    have hthere := hbody.simulator (by cases hturn <;> rw [hp] <;> rfl)
    refine h.advance hbody ?_ (fun _ => ?_) (fun hs => absurd (hsim.symm.trans hs) nofun)
      (fun _ => hthere) ?_
    · cases hturn <;> rfl
    · cases hturn <;> rfl
    · cases hturn <;> simp
  | left hph => exact h.leave (h.body_of (by rw [hph]; rfl)) true
  | @passed c hph hv =>
    have hclean : s.Cleaning c := by
      rcases h.cleaning_of hph with hc | ⟨hskip, rfl⟩
      · exact hc
      · rw [hskip.unset] at hv
        cases hv
    obtain ⟨hup, hsens, hsourced, hsim⟩ := after_phase s c
    have hnext := hclean.next (t := s.goto (s.after c)) (fun _ _ => rfl)
      (fun hc => nomatch hv.symm.trans hc) rfl
    exact ⟨.inr (.inr (hnext.imp_right .inr)), fun ht => absurd (hup.symm.trans ht) nofun,
      fun hs => ⟨hsens, (h.sensors hs).2⟩, fun _ => ⟨hsourced, hsim⟩⟩
  | @tookDown c alive hph hv =>
    have hclean : s.Cleaning c := by
      rcases h.cleaning_of hph with hc | ⟨hskip, rfl⟩
      · exact hc
      · rw [hskip.unset] at hv
        cases hv
    obtain ⟨hup, hsens, hsourced, hsim⟩ := after_phase s c
    have hdown : (if c = .monitor then Var.null else .gone) ≠ .here := by split <;> nofun
    have hvars : ∀ d, d ≠ c → (s.takeDown c alive).vars d = s.vars d := fun d hd =>
      s.set_vars_ne hd _
    have hself : (s.takeDown c alive).vars c ≠ .here := by
      rwa [show (s.takeDown c alive).vars c = _ from s.set_vars_self c _]
    have hnext := hclean.next (t := (s.takeDown c alive).goto (s.after c)) hvars hself rfl
    refine ⟨.inr (.inr (hnext.imp_right .inr)), fun ht => absurd (hup.symm.trans ht) nofun,
      fun hs => ⟨hsens, ?_⟩, fun _ => ⟨hsourced, hsim⟩⟩
    obtain ⟨-, hvideo, hradar⟩ := h.sensors hs
    constructor
    · by_cases hc : MainPart.video = c
      · subst hc
        exact hself
      · exact fun hv => hvideo ((hvars _ hc).symm.trans hv)
    · by_cases hc : MainPart.radar = c
      · subst hc
        exact hself
      · exact fun hv => hradar ((hvars _ hc).symm.trans hv)
  | misread hph hv => exact h.over (.inl rfl)
  | killed hph => exact h.over (.inr rfl)

/-- What a thread works for stays there until `cleanup` takes it down. -/
theorem Move.here_or (hm : s.Move b t) (h : s.Control) {c : MainPart} (hc : c ≠ .config)
    (hc' : c ≠ .queue) (hhere : s.vars c = .here) : t.vars c = .here ∨ s.phase = .cleanup c := by
  have hlate : s.phase.early = false := Bool.eq_false_iff.mpr fun hearly =>
    nomatch hhere.symm.trans ((h.early_of hearly).unset c hc hc')
  cases hm with
  | loaded hph | unloaded _ hph _ _ | refused _ hph _ | queued hph | unqueued hph
  | fused hph _ | unfused hph _ =>
    rw [hph] at hlate
    cases hlate
  | created _ _ _ => exact .inl (s.set_here_of hhere _)
  | monitored _ => exact .inl (s.set_here_of hhere _)
  | @tookDown d alive hph _ =>
    by_cases hd : c = d
    · subst hd
      exact .inr hph
    · exact .inl ((s.set_vars_ne hd _).trans hhere)
  | _ => exact .inl hhere

/-! ## Which runs go wrong -/

/-- What the calls of `main` find: in real mode a configuration, and no object where
one is to be created. -/
structure Entry (s : Skeleton) : Prop where
  config : s.simMode = false →
    s.phase = .createQueue ∨ s.phase = .createFusion ∨ s.phase = .createVideo →
      s.vars .config = .here
  simulator : s.phase = .createSimulator → s.vars .simulator ≠ .here
  video : s.phase = .createVideo → s.vars .video ≠ .here
  radar : s.phase = .createVideo ∨ s.phase = .createRadar → s.vars .radar ≠ .here

theorem Entry.past (h : s.phase.creates = false) : s.Entry := by
  have hne {ph : MainPhase} (hph : ph.creates = true) : s.phase ≠ ph := by
    rintro rfl
    rw [h] at hph
    cases hph
  exact ⟨fun _ hp => by rcases hp with hp | hp | hp <;> exact absurd hp (hne rfl),
    fun hp => absurd hp (hne rfl), fun hp => absurd hp (hne rfl),
    fun hp => by rcases hp with hp | hp <;> exact absurd hp (hne rfl)⟩

theorem Move.entry (hm : s.Move b t) (h : s.Entry) : t.Entry := by
  cases hm with
  | stay _ => exact h
  | loaded hph => exact ⟨fun _ _ => rfl, nofun, nofun, by simp [goto]⟩
  | unloaded v hph hv hsim =>
    exact ⟨fun hs => absurd (hsim.symm.trans hs) nofun, nofun, nofun, by simp [goto]⟩
  | queued hph => exact ⟨fun hs _ => h.config hs (.inl hph), nofun, nofun, by simp [goto]⟩
  | fused hph hv =>
    exact ⟨fun hs _ => h.config hs (.inr (.inl hph)), fun _ => nofun, fun _ => nofun,
      fun _ => nofun⟩
  | refused _ _ _ | unqueued _ | unfused _ _ | failed _ _ _ | dangling _ _ _ | unread _ _
  | left _ | misread _ _ | killed _ | monitored _ => exact .past rfl
  | created hp hc _ =>
    cases hc with
    | simulator | radar => exact .past rfl
    | video => exact ⟨fun _ => by simp [goto], nofun, nofun, fun _ => h.radar (.inl hp)⟩
  | started hp hst => cases hst <;> exact .past rfl
  | turn hp hturn => cases hturn <;> exact .past rfl
  | @passed c hph hv => cases c <;> exact .past rfl
  | @tookDown c alive hph hv => cases c <;> exact .past rfl

/-- `main` has read a variable without a value, or will. -/
def Doomed (s : Skeleton) : Prop :=
  s.phase = .undefined ∨ (s.phase = .cleanup .monitor ∧ s.vars .monitor = .unset) ∨
    (s.phase = .createQueue ∨ s.phase = .createFusion ∨ s.phase = .createSimulator) ∧
      s.vars .config ≠ .here

theorem Move.doomed_iff (hm : s.Move b t) (h : s.Control) (hentry : s.Entry)
    (hkilled : t.phase ≠ .killed) : t.Doomed ↔ s.Doomed ∨ b = true := by
  cases hm with
  | stay _ => simp
  | loaded hph => simp [Doomed, goto, set, hph]
  | unloaded v hph hv hsim =>
    simp only [or_true, iff_true]
    refine .inr (.inr ⟨.inl rfl, ?_⟩)
    rcases hv with rfl | rfl <;> exact nofun
  | refused v hph hsim =>
    simp only [or_true, iff_true]
    exact .inr (.inl ⟨rfl, (h.early_of (by rw [hph]; rfl)).unset .monitor nofun nofun⟩)
  | queued hph => simp [Doomed, goto, set, hph]
  | unqueued hph =>
    simp only [or_true, iff_true]
    exact .inr (.inl ⟨rfl, (h.early_of (by rw [hph]; rfl)).unset .monitor nofun nofun⟩)
  | dangling b hph hv => simp [Doomed, goto, hph, hv]
  | fused hph hv =>
    cases hs : s.simMode with
    | true => simp [Doomed, goto, set, declare, hph]
    | false =>
      have hhere := hentry.config hs (.inr (.inl hph))
      simp [Doomed, goto, set, declare, hph, hhere]
  | unfused hph hv =>
    simp only [or_true, iff_true]
    exact .inr (.inl ⟨rfl, (h.early_of (by rw [hph]; rfl)).unset .monitor nofun nofun⟩)
  | unread hph hv =>
    rcases hph with hph | hph
    · simp [Doomed, goto, hph, hv]
    · exact absurd (hentry.config (h.real_of (by rw [hph]; rfl)) (.inr (.inr hph))) hv
  | created hp hc hhere =>
    cases hc with
    | simulator => simp [Doomed, goto, hp, hhere rfl]
    | video | radar => simp [Doomed, goto, hp]
  | started hp hst => cases hst <;> simp [Doomed, goto, hp]
  | failed hph _ hhere =>
    have hmonitor := (h.body_of hph).settled .monitor
    have hnot : ¬s.Doomed := by
      rintro (hp | ⟨hp, -⟩ | ⟨hp | hp | hp, hne⟩)
      · rw [hp] at hph
        cases hph
      · rw [hp] at hph
        cases hph
      · rw [hp] at hph
        cases hph
      · rw [hp] at hph
        cases hph
      · exact hne (hhere hp)
    refine iff_of_false ?_ (by simp [hnot])
    rcases hmonitor with hm | hm <;> simp [Doomed, fail, hm]
  | monitored hph => simp [Doomed, goto, hph]
  | turn hp hturn => cases hturn <;> simp [Doomed, goto, hp]
  | left hph =>
    have hmonitor := (h.body_of (by rw [hph]; rfl)).settled .monitor
    rcases hmonitor with hm | hm <;> simp [Doomed, goto, hph, hm]
  | @passed c hph hv => cases c <;> simp_all [Doomed, goto, after, MainPart.next]
  | @tookDown c alive hph hv => cases c <;> simp_all [Doomed, goto, after, MainPart.next]
  | @misread c hph hv =>
    have hdoomed : s.Doomed := by
      rcases h.cleaning_of hph with hc | ⟨hskip, -⟩
      · rcases hc.after c le_rfl with hc | hc <;> rcases hv with hv | hv <;>
          cases hc.symm.trans hv
      · exact .inr (.inl ⟨hskip.phase, hskip.unset⟩)
    exact iff_of_true (.inl rfl) (.inl hdoomed)
  | killed hph => exact absurd rfl hkilled

/-! ## How runs end -/

theorem Move.simMode (hm : s.Move b t) : t.simMode = s.simMode := by cases hm <;> rfl

/-- The loop has been entered, as the phase and `ret` tell. -/
def Reached (s : Skeleton) : Prop :=
  s.phase.inLoop ∨ (s.phase.cleans ∨ ∃ status, s.phase = .exited status) ∧ s.ok = true

theorem after_reached (s : Skeleton) (c : MainPart) :
    (s.after c).inLoop = false ∧ ((s.after c).cleans ∨ ∃ status, s.after c = .exited status) := by
  cases c <;> simp [after, MainPart.next, MainPhase.inLoop, MainPhase.cleans]

theorem not_reached (hloop : s.phase.inLoop = false) (hclean : s.phase.cleans = false)
    (hexit : ∀ status, s.phase ≠ .exited status) : ¬s.Reached := by
  rintro (h | ⟨h | ⟨status, h⟩, -⟩)
  · rw [hloop] at h
    cases h
  · rw [hclean] at h
    cases h
  · exact hexit status h

theorem not_reached_of {ph : MainPhase} (hph : s.phase = ph) (hloop : ph.inLoop = false)
    (hclean : ph.cleans = false) (hexit : ∀ status, ph ≠ .exited status) : ¬s.Reached := by
  subst hph
  exact not_reached hloop hclean hexit

theorem not_reached_fail (s : Skeleton) : ¬s.fail.Reached := by
  rintro (h | ⟨-, h⟩) <;> cases h

theorem Move.reached_iff (hm : s.Move b t) (hover : t.phase ≠ .undefined ∧ t.phase ≠ .killed) :
    t.Reached ↔ s.Reached ∨ t.phase.inLoop := by
  cases hm with
  | stay _ => exact ⟨.inl, fun h => h.elim id .inl⟩
  | loaded hph | unloaded _ hph _ _ | queued hph =>
    have hs := not_reached_of hph rfl rfl nofun
    exact iff_of_false (not_reached rfl rfl nofun) (by simp [hs, goto, MainPhase.inLoop])
  | fused hph _ =>
    have hs := not_reached_of hph rfl rfl nofun
    have ht : ((s.set .fusion .here).declare.goto
        (if s.simMode then .createSimulator else .createVideo)).phase.inLoop = false := by
      cases s.simMode <;> rfl
    refine iff_of_false (not_reached ht ?_ ?_) (by simp [hs, ht])
    · cases s.simMode <;> rfl
    · cases s.simMode <;> exact nofun
  | refused _ hph _ | unqueued hph | unfused hph _ =>
    have hs := not_reached_of hph rfl rfl nofun
    exact iff_of_false (not_reached_fail _) (by simp [hs, fail, MainPhase.inLoop])
  | dangling _ _ _ | unread _ _ | misread _ _ => exact absurd rfl hover.1
  | killed _ => exact absurd rfl hover.2
  | created hp hc _ =>
    cases hc <;>
      exact iff_of_false (not_reached rfl rfl nofun)
        (by simp [not_reached_of hp rfl rfl nofun, goto, MainPhase.inLoop])
  | started hp hst =>
    cases hst <;>
      exact iff_of_false (not_reached rfl rfl nofun)
        (by simp [not_reached_of hp rfl rfl nofun, goto, MainPhase.inLoop])
  | failed hbody hloop _ =>
    have hclean : s.phase.cleans = false := by
      cases hc : s.phase.cleans <;> simp_all [MainPhase.body, MainPhase.up]
    have hs : ¬s.Reached := not_reached hloop hclean fun status hp => by
      rw [hp] at hbody
      cases hbody
    exact iff_of_false (not_reached_fail _) (by simp [hs, fail, MainPhase.inLoop])
  | monitored hph => exact iff_of_true (.inl rfl) (.inr rfl)
  | turn hp hturn => cases hturn <;> exact iff_of_true (.inl rfl) (.inr rfl)
  | left hph => exact iff_of_true (.inr ⟨.inl rfl, rfl⟩) (.inl (.inl (by rw [hph]; rfl)))
  | @passed c hph hv =>
    obtain ⟨hloop, hnext⟩ := after_reached s c
    refine ⟨fun h => .inl (.inr ⟨.inl (by rw [hph]; rfl), ?_⟩), fun h => .inr ⟨hnext, ?_⟩⟩
    · rcases h with h | h
      · exact absurd (hloop.symm.trans h) nofun
      · exact h.2
    · rcases h with (h | h) | h
      · rw [hph] at h
        cases h
      · exact h.2
      · exact absurd (hloop.symm.trans h) nofun
  | @tookDown c alive hph hv =>
    obtain ⟨hloop, hnext⟩ := after_reached s c
    refine ⟨fun h => .inl (.inr ⟨.inl (by rw [hph]; rfl), ?_⟩), fun h => .inr ⟨hnext, ?_⟩⟩
    · rcases h with h | h
      · exact absurd (hloop.symm.trans h) nofun
      · exact h.2
    · rcases h with (h | h) | h
      · rw [hph] at h
        cases h
      · exact h.2
      · exact absurd (hloop.symm.trans h) nofun

theorem after_status {c : MainPart} {status : Int} (h : s.after c = .exited status) :
    status = if s.ok then 0 else 1 := by
  cases c <;> simp only [after, MainPart.next] at h <;> cases h
  rfl

theorem Move.status (hm : s.Move b t) {status : Int} (hph : t.phase = .exited status) :
    status = if t.ok then 0 else 1 := by
  cases hm with
  | stay hactive =>
    rw [hph] at hactive
    cases hactive
  | fused _ _ =>
    cases hs : s.simMode <;> simp [goto, hs] at hph
  | created _ hc _ => cases hc <;> cases hph
  | started _ hst => cases hst <;> cases hph
  | turn _ hturn => cases hturn <;> cases hph
  | passed _ _ => exact after_status hph
  | tookDown _ _ _ => exact after_status hph
  | _ => cases hph

end Skeleton

end Mec
