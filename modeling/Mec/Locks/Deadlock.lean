import Mec.Lib.Lts
import Mec.Locks.Threads

/-!
# Deadlock

The threads run interleaved, each along a trace of its code, and a signal makes a
thread run `signal_handler` before anything else. The handler logs: delivered to a
thread inside a log call, that is while it holds `log_mutex`, it makes the thread
wait for itself. `log_mutex` ranks above all other locks, so at every other point
the handler is just one more critical section.
-/

namespace Mec.Locks

open Lib.LockOrder Lib.Lts

abbrev LockOp := Op Mutex Thread Call

/-- What each thread has still to do and the mutexes it holds, the last one first;
which threads run, and whether `signal_handler` is installed. -/
structure LockSys where
  todo : Thread → List LockOp
  held : Thread → List Mutex
  started : Thread → Bool
  handler : Bool

inductive LockAct where
  | run (t : Thread)
  | signal (t : Thread)

namespace LockSys

/-- `main` begins; `prog` is what every thread is going to do. -/
def start (prog : Thread → List LockOp) : LockSys :=
  { todo := prog, held := fun _ => [], started := fun t => t = .main, handler := false }

/-- Replace what `t` has to do and what it holds. -/
def advance (s : LockSys) (t : Thread) (todo : List LockOp) (held : List Mutex) : LockSys :=
  { s with todo := Function.update s.todo t todo, held := Function.update s.held t held }

def Free (s : LockSys) (m : Mutex) : Prop :=
  m ∉ s.held .main ∧ ∀ w ∈ [Worker.fusion, .video, .radar, .simulator, .monitor],
    m ∉ s.held (.worker w)

instance (s : LockSys) (m : Mutex) : Decidable (s.Free m) := by unfold Free; infer_instance

def SelfWaits (s : LockSys) (t : Thread) : Prop := Lib.LockOrder.SelfWaits s.held s.todo t

def Waits (s : LockSys) (t u : Thread) : Prop := Lib.LockOrder.Waits s.held s.todo t u

end LockSys

/-- The steps of `signal_handler` on `SIGINT` or `SIGTERM`. -/
def signalHandlerSteps : List LockOp := [.acquire .log, .release .log]

/-- One step of a thread, or a signal that a running thread gets once the handler is
installed. -/
def lockStep (s : LockSys) : LockAct → Option (LockSys × Unit)
  | .run t =>
    if s.started t then
      match s.todo t with
      | [] => none
      | .acquire m :: rest => if s.Free m then some (s.advance t rest (m :: s.held t), ()) else none
      | .release m :: rest => some (s.advance t rest ((s.held t).erase m), ())
      | .await u :: rest =>
        if s.started u ∧ (s.todo u).length ≠ 0 then none
        else some (s.advance t rest (s.held t), ())
      | .call (.create w) :: rest =>
        some ({ s.advance t rest (s.held t) with
          started := Function.update s.started (.worker w) true }, ())
      | .call .install :: rest =>
        some ({ s.advance t rest (s.held t) with handler := true }, ())
    else none
  | .signal t =>
    if s.handler ∧ s.started t ∧ (s.todo t).length ≠ 0 then
      some (s.advance t (signalHandlerSteps ++ s.todo t) (s.held t), ())
    else none

theorem signalHandlerSteps_trace : Trace signalHandler signalHandlerSteps := .lock .done

namespace LockSys

/-- Every thread has a legal rest before it. -/
def Ordered (s : LockSys) : Prop :=
  ∀ t, Legal Mutex.rank Thread.level t.level (s.held t) (s.todo t)

/-- A signal does not come to a thread that holds `log_mutex`. -/
def Harmless (s : LockSys) : LockAct → Prop
  | .run _ => True
  | .signal t => Mutex.log ∉ s.held t

variable {s t : LockSys}

theorem Ordered.advance (hs : s.Ordered) {u : Thread} {todo : List LockOp} {held : List Mutex}
    (h : Legal Mutex.rank Thread.level u.level held todo) : (s.advance u todo held).Ordered := by
  intro v
  by_cases hv : v = u
  · subst hv
    simpa [LockSys.advance] using h
  · simpa [LockSys.advance, hv] using hs v

theorem Ordered.run (hs : s.Ordered) {u : Thread} (h : lockStep s (.run u) = some (t, ())) :
    t.Ordered := by
  have hu := hs u
  simp only [lockStep] at h
  split at h
  · split at h
    · cases h
    · next m rest hnext =>
      rw [hnext] at hu
      split at h <;> cases h
      exact hs.advance hu.2
    · next m rest hnext =>
      rw [hnext] at hu
      cases h
      exact hs.advance hu.2
    · next v rest hnext =>
      rw [hnext] at hu
      split at h <;> cases h
      exact hs.advance hu.2
    · next w rest hnext =>
      rw [hnext] at hu
      cases h
      exact hs.advance hu
    · next rest hnext =>
      rw [hnext] at hu
      cases h
      exact hs.advance hu
  · cases h

theorem rank_lt_log {m : Mutex} (hm : m ≠ .log) : m.rank < Mutex.log.rank := by
  cases m <;> simp [Mutex.rank] at hm ⊢

theorem Ordered.signal (hs : s.Ordered) {u : Thread} (hlog : Mutex.log ∉ s.held u)
    (h : lockStep s (.signal u) = some (t, ())) : t.Ordered := by
  simp only [lockStep] at h
  split at h
  · cases h
    refine hs.advance ⟨fun m hm => rank_lt_log ?_, List.mem_cons_self, ?_⟩
    · rintro rfl
      exact hlog hm
    · rw [List.erase_cons_head]
      exact hs u
  · cases h

theorem Ordered.start {prog : Thread → List LockOp}
    (hprog : ∀ t, Trace (threadCode t) (prog t)) : (LockSys.start prog).Ordered := fun t =>
  (hprog t).legal_start (threadCode_fits t)

/-- A signal inside a log call is a self-deadlock. -/
theorem selfWaits_of_signal {u : Thread} (hlog : Mutex.log ∈ s.held u)
    (h : lockStep s (.signal u) = some (t, ())) : t.SelfWaits u := by
  simp only [lockStep] at h
  split at h
  · cases h
    refine ⟨.log, .release .log :: s.todo u, ?_, ?_⟩
    · simp [LockSys.advance, signalHandlerSteps]
    · simpa [LockSys.advance] using hlog
  · cases h

theorem Ordered.step_iff (hs : s.Ordered) {a : LockAct} (h : lockStep s a = some (t, ())) :
    t.Ordered ↔ s.Harmless a := by
  cases a with
  | run u => exact iff_of_true (hs.run h) trivial
  | signal u =>
    constructor
    · intro ht hlog
      exact not_selfWaits ht u (selfWaits_of_signal hlog h)
    · intro hlog
      exact hs.signal hlog h

end LockSys

/-- **When the threads do not deadlock.** In a run of the program's threads and
signals no state has a thread that waits for a mutex it holds or a cycle of waiting
threads, if and only if no signal is delivered to a thread that holds
`log_mutex`. -/
theorem deadlock_free_iff {prog : Thread → List LockOp}
    (hprog : ∀ t, Trace (threadCode t) (prog t)) {tr : List (LockAct × Unit)} {s : LockSys}
    (hrun : Run lockStep (.start prog) tr s) :
    (∀ tr₁ tr₂ s₁, tr = tr₁ ++ tr₂ → Run lockStep (.start prog) tr₁ s₁ →
      (∀ t, ¬s₁.SelfWaits t) ∧ ∀ t, ¬Relation.TransGen s₁.Waits t t) ↔
    ∀ tr₁ a e tr₂ s₁, tr = tr₁ ++ (a, e) :: tr₂ → Run lockStep (.start prog) tr₁ s₁ →
      s₁.Harmless a := by
  constructor
  · rintro hfree tr₁ a ⟨⟩ tr₂ s₁ rfl h₁
    cases a with
    | run t => trivial
    | signal t =>
      intro hlog
      obtain ⟨s₁', h₁', hrest⟩ := hrun.split
      obtain rfl := h₁.det h₁'
      cases hrest with
      | cons h _ =>
        have hafter := hfree (tr₁ ++ [(.signal t, ())]) tr₂ _ (by simp) (h₁.snoc h)
        exact hafter.1 t (LockSys.selfWaits_of_signal hlog h)
  · intro hharmless tr₁ tr₂ s₁ htr h₁
    have hordered : s₁.Ordered :=
      (hrun.stepwise (I := fun _ => True) (P := LockSys.Ordered) (K := LockSys.Harmless)
        (fun _ _ _ _ _ _ => trivial) (fun _ _ _ _ _ hs h => hs.step_iff h) trivial
        (LockSys.Ordered.start hprog)).mpr hharmless tr₁ tr₂ s₁ htr h₁
    exact ⟨not_selfWaits hordered, waits_acyclic hordered⟩

/-- What the threads do in the shortest run of the program: no configuration and no
simulation. -/
def shortRun (t : Thread) : List LockOp := (threadCode t).first

/-- `main` logs that there is no configuration, and gets a signal while it does. -/
theorem signal_in_log_deadlocks :
    ¬ ∀ (prog : Thread → List LockOp) (tr : List (LockAct × Unit)) (s : LockSys),
        (∀ t, Trace (threadCode t) (prog t)) → Run lockStep (.start prog) tr s →
        (∀ t, ¬s.SelfWaits t) ∧ ∀ t, ¬Relation.TransGen s.Waits t t := by
  intro hclaim
  have hrun : Run lockStep (.start shortRun)
      (List.replicate 12 (.run .main, ()) ++ [(.signal .main, ())]) _ :=
    .cons rfl (.cons rfl (.cons rfl (.cons rfl (.cons rfl (.cons rfl (.cons rfl (.cons rfl
      (.cons rfl (.cons rfl (.cons rfl (.cons rfl (.cons rfl (.nil _)))))))))))))
  refine (hclaim _ _ _ (fun t => (threadCode t).trace_first) hrun).1 .main ⟨.log, _, rfl, ?_⟩
  exact List.mem_cons_self

/-- A signal between two log calls does no harm. -/
theorem deadlock_free_iff_between : ∃ (tr : List (LockAct × Unit)) (s : LockSys),
    Run lockStep (.start shortRun) tr s ∧ (∀ t, ¬s.SelfWaits t) ∧
      ∀ t, ¬Relation.TransGen s.Waits t t := by
  have hmain : Run lockStep (.start shortRun) (List.replicate 11 (.run .main, ())) _ :=
    .cons rfl (.cons rfl (.cons rfl (.cons rfl (.cons rfl (.cons rfl (.cons rfl (.cons rfl
      (.cons rfl (.cons rfl (.cons rfl (.nil _)))))))))))
  have hrun := hmain.snoc (show lockStep _ (.signal .main) = some (_, ()) from rfl)
  refine ⟨_, _, hrun, (deadlock_free_iff (fun t => (threadCode t).trace_first) hrun).mpr ?_ _ []
    _ (List.append_nil _).symm hrun⟩
  intro tr₁ a e tr₂ s₁ htr h₁
  rcases List.eq_nil_or_concat tr₂ with rfl | ⟨tr₃, x, rfl⟩
  · obtain ⟨rfl, hlast⟩ := List.append_inj' htr rfl
    obtain rfl := h₁.det hmain
    cases hlast
    change Mutex.log ∉ []
    exact List.not_mem_nil
  · -- all the steps before the last are steps of `main`
    rw [List.concat_eq_append, ← List.cons_append, ← List.append_assoc] at htr
    have hmem : (a, e) ∈ List.replicate 11 (LockAct.run .main, ()) := by
      rw [(List.append_inj' htr rfl).1]
      exact List.mem_append_right _ List.mem_cons_self
    cases List.eq_of_mem_replicate hmem
    trivial

end Mec.Locks
