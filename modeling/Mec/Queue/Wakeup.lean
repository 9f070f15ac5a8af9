import Mec.Lib.CondVar
import Mec.Queue.Fifo

/-!
# No lost wake-up

`condStep` refines the sleepers of `queueStep` by what `not_empty` knows of
them: a sleeper is blocked in its wait, picked by a signal, or has left the
wait by itself, and the last two still have to take the mutex. The signal of a
successful push picks a blocked consumer if there is one. `not_full` has no
waiters, since `mec_queue_push` never waits, so its signals are no steps.
-/

namespace Mec

open Lib.Lts Lib.CondVar

variable {K : Type}

deriving instance DecidableEq for QueueReply

structure CondSys (K : Type) where
  sys : QueueSys K
  /-- The consumers inside their wait on `not_empty`. -/
  waiters : Waiters Nat

inductive CondCall where
  /-- The signal of the push, if it sends one, picks `woken`. -/
  | push (producer : Nat) (msg : MecMsg) (woken : Option Nat)
  | pop (consumer : Nat) (timeoutMs : Int)
  /-- A spurious wake-up or the timeout ends the wait. -/
  | leave (consumer : Nat)
  /-- The consumer has the mutex again; its wait returned `rc`. -/
  | resume (consumer : Nat) (rc : Int)

namespace CondSys

def start (h : ListHeap K) (q : MecQueue) : CondSys K := ⟨.start h q, .none⟩

/-- `pthread_cond_signal` picks one waiter if there is one. -/
def signal (s : CondSys K) : Option Nat → Option (CondSys K)
  | none => if s.waiters.blocked = ∅ then some s else none
  | some c =>
    if c ∈ s.waiters.blocked then some { s with waiters := s.waiters.signal c } else none

/-- After a section of `mec_queue_pop` consumer `c` is blocked or gone. -/
def settle (s : CondSys K) (c : Nat) (r : QueueSys K × QueueReply) :
    CondSys K × Option QueueReply :=
  (⟨r.1, if r.2 = .blocked then s.waiters.block c else s.waiters.resume c⟩, some r.2)

end CondSys

/-- A signalled consumer's wait returns 0; one that left by itself returns 0
(spurious) or an error (timeout). -/
def condStep (s : CondSys K) : CondCall → Option (CondSys K × Option QueueReply)
  | .push p msg woken =>
    match queueStep s.sys (.push p msg) with
    | none => none
    | some (sys, e) =>
      if e = .pushed 0 then
        (CondSys.signal { s with sys := sys } woken).map fun t => (t, some e)
      else if woken = none then some ({ s with sys := sys }, some e)
      else none
  | .pop c timeoutMs => (queueStep s.sys (.pop c timeoutMs)).map (s.settle c)
  | .leave c =>
    if c ∈ s.waiters.blocked then some ({ s with waiters := s.waiters.rouse c }, none) else none
  | .resume c rc =>
    if (c ∈ s.waiters.signalled ∧ rc = 0) ∨ c ∈ s.waiters.roused then
      (queueStep s.sys (.wake c rc)).map (s.settle c)
    else none

/-- The critical section a step is; leaving the wait is none. -/
def condSection : CondCall × Option QueueReply → Option (QueueCall × QueueReply)
  | (.push p msg _, some e) => some (.push p msg, e)
  | (.pop c timeoutMs, some e) => some (.pop c timeoutMs, e)
  | (.resume c rc, some e) => some (.wake c rc, e)
  | _ => none

theorem CondSys.signal_cases {s t : CondSys K} {woken : Option Nat} (h : s.signal woken = some t) :
    (s.waiters.blocked = ∅ ∧ t = s) ∨
    ∃ c ∈ s.waiters.blocked, t = { s with waiters := s.waiters.signal c } := by
  cases woken with
  | none =>
    by_cases hb : s.waiters.blocked = ∅
    · rw [CondSys.signal, if_pos hb] at h
      cases h
      exact .inl ⟨hb, rfl⟩
    · rw [CondSys.signal, if_neg hb] at h
      cases h
  | some c =>
    by_cases hc : c ∈ s.waiters.blocked
    · rw [CondSys.signal, if_pos hc] at h
      cases h
      exact .inr ⟨c, hc, rfl⟩
    · rw [CondSys.signal, if_neg hc] at h
      cases h

/-- All that a step can do. -/
theorem condStep_cases {s t : CondSys K} {a : CondCall} {e : Option QueueReply}
    (h : condStep s a = some (t, e)) :
    (∃ p msg sys, queueStep s.sys (.push p msg) = some (sys, .pushed 0) ∧ t.sys = sys ∧
      condSection (a, e) = some (.push p msg, .pushed 0) ∧
      ((s.waiters.blocked = ∅ ∧ t.waiters = s.waiters) ∨
        ∃ c ∈ s.waiters.blocked, t.waiters = s.waiters.signal c)) ∨
    (∃ p msg sys r, queueStep s.sys (.push p msg) = some (sys, r) ∧ r ≠ .pushed 0 ∧
      condSection (a, e) = some (.push p msg, r) ∧ t = { s with sys := sys }) ∨
    (∃ c timeoutMs sys r, queueStep s.sys (.pop c timeoutMs) = some (sys, r) ∧
      condSection (a, e) = some (.pop c timeoutMs, r) ∧ t = (s.settle c (sys, r)).1) ∨
    (∃ c ∈ s.waiters.blocked, condSection (a, e) = none ∧
      t = { s with waiters := s.waiters.rouse c }) ∨
    (∃ c rc sys r, queueStep s.sys (.wake c rc) = some (sys, r) ∧
      condSection (a, e) = some (.wake c rc, r) ∧ t = (s.settle c (sys, r)).1 ∧
      ((c ∈ s.waiters.signalled ∧ rc = 0) ∨ c ∈ s.waiters.roused)) := by
  cases a with
  | push p msg woken =>
    simp only [condStep] at h
    split at h
    · cases h
    next sys r hs =>
    split at h
    · next hr =>
      obtain ⟨t', ht, he⟩ := Option.map_eq_some_iff.mp h
      cases he
      subst hr
      refine .inl ⟨p, msg, sys, hs, ?_⟩
      rcases CondSys.signal_cases ht with ⟨hb, rfl⟩ | ⟨c, hc, rfl⟩
      · exact ⟨rfl, rfl, .inl ⟨hb, rfl⟩⟩
      · exact ⟨rfl, rfl, .inr ⟨c, hc, rfl⟩⟩
    · next hr =>
      split at h
      · cases h
        exact .inr (.inl ⟨p, msg, sys, r, hs, hr, rfl, rfl⟩)
      · cases h
  | pop c timeoutMs =>
    obtain ⟨⟨sys, r⟩, hs, he⟩ := Option.map_eq_some_iff.mp h
    cases he
    exact .inr (.inr (.inl ⟨c, timeoutMs, sys, r, hs, rfl, rfl⟩))
  | leave c =>
    simp only [condStep] at h
    split at h
    · next hc =>
      cases h
      exact .inr (.inr (.inr (.inl ⟨c, hc, rfl, rfl⟩)))
    · cases h
  | resume c rc =>
    simp only [condStep] at h
    split at h
    · next hc =>
      obtain ⟨⟨sys, r⟩, hs, he⟩ := Option.map_eq_some_iff.mp h
      cases he
      exact .inr (.inr (.inr (.inr ⟨c, rc, sys, r, hs, rfl, rfl, hc⟩)))
    · cases h

/-- The refined system makes the critical sections of `queueStep` and no others. -/
theorem condStep_queueStep {s t : CondSys K} {tr : List (CondCall × Option QueueReply)}
    (h : Run condStep s tr t) : Run queueStep s.sys (tr.filterMap condSection) t.sys := by
  induction h with
  | nil => exact .nil _
  | cons h1 _ ih =>
    rcases condStep_cases h1 with ⟨p, msg, sys, hs, rfl, he, -⟩ | ⟨p, msg, sys, r, hs, -, he, rfl⟩ |
      ⟨c, timeoutMs, sys, r, hs, he, rfl⟩ | ⟨c, -, he, rfl⟩ | ⟨c, rc, sys, r, hs, he, rfl, -⟩
    · rw [List.filterMap_cons_some he]; exact .cons hs ih
    · rw [List.filterMap_cons_some he]; exact .cons hs ih
    · rw [List.filterMap_cons_some he]; exact .cons hs ih
    · rw [List.filterMap_cons_none he]; exact ih
    · rw [List.filterMap_cons_some he]; exact .cons hs ih

/-! ## What a section does to the count -/

theorem queueStep_push_count {s t : QueueSys K} {p : Nat} {msg : MecMsg} {r : QueueReply}
    (h : queueStep s (.push p msg) = some (t, r)) :
    t.waiting = s.waiting ∧
      t.queue.count = s.queue.count + if r = .pushed 0 then 1 else 0 := by
  simp only [queueStep, Option.some.injEq, Prod.mk.injEq] at h
  obtain ⟨rfl, rfl⟩ := h
  refine ⟨rfl, ?_⟩
  unfold mecQueuePush
  split
  · simp
  · split
    · simp
    · simp [MecQueue.enqueue]

namespace QueueSys

variable {s t : QueueSys K} {c : Nat} {timeoutMs : Int} {r : QueueReply}

theorem finish_waiting {sec : PopSection} (h : s.finish c timeoutMs sec = (t, r)) (d : Nat) :
    (t.waiting d).isSome ↔ (d = c ∧ r = .blocked) ∨ (d ≠ c ∧ (s.waiting d).isSome) := by
  have hwait : ∀ w : Option Int, (Function.update s.waiting c w d).isSome ↔
      (d = c ∧ w.isSome) ∨ (d ≠ c ∧ (s.waiting d).isSome) := by
    intro w
    by_cases hd : d = c
    · subst hd; simp
    · simp [hd]
  cases sec with
  | took msg q => cases h; simpa [setWaiting] using hwait none
  | failed => cases h; simpa [setWaiting] using hwait none
  | waits => cases h; simpa [setWaiting] using hwait (some timeoutMs)

/-- A section that looks at the queue takes the first message, or the queue is
empty and stays. -/
theorem finish_count (h : s.finish c timeoutMs (mecQueuePop timeoutMs s.queue) = (t, r)) :
    (s.queue.count ≠ 0 ∧ t.queue = s.queue.dequeue ∧ r = .popped 0 (some s.queue.front)) ∨
    (s.queue.count = 0 ∧ t.queue = s.queue) := by
  unfold mecQueuePop at h
  by_cases hc : s.queue.count = 0
  · rw [if_pos hc] at h
    split at h
    · cases h; exact .inr ⟨hc, rfl⟩
    · split at h
      · cases h; exact .inr ⟨hc, rfl⟩
      · cases h; exact .inr ⟨hc, rfl⟩
  · rw [if_neg hc] at h
    cases h
    exact .inl ⟨hc, rfl, rfl⟩

end QueueSys

theorem queueStep_pop {s t : QueueSys K} {c : Nat} {timeoutMs : Int} {r : QueueReply}
    (h : queueStep s (.pop c timeoutMs) = some (t, r)) :
    s.waiting c = none ∧ s.finish c timeoutMs (mecQueuePop timeoutMs s.queue) = (t, r) := by
  cases hw : s.waiting c with
  | some w => simp [queueStep, hw] at h
  | none =>
    simp only [queueStep, hw, Option.some.injEq] at h
    exact ⟨rfl, h⟩

/-- A section that starts with a wake-up: the timed wait failed and the call
with it, or it looks at the queue again. -/
theorem queueStep_wake {s t : QueueSys K} {c : Nat} {rc : Int} {r : QueueReply}
    (h : queueStep s (.wake c rc) = some (t, r)) :
    ∃ timeoutMs, s.waiting c = some timeoutMs ∧
      ((rc ≠ 0 ∧ s.finish c timeoutMs .failed = (t, r)) ∨
        s.finish c timeoutMs (mecQueuePop timeoutMs s.queue) = (t, r)) := by
  cases hw : s.waiting c with
  | none => simp [queueStep, hw] at h
  | some timeoutMs =>
    simp only [queueStep, hw, Option.some.injEq, mecQueuePopWoken] at h
    refine ⟨timeoutMs, rfl, ?_⟩
    split at h
    · next hrc => exact .inl ⟨hrc.2, h⟩
    · exact .inr h

/-! ## The invariant -/

/-- The waiters are the sleepers, and while one is blocked the queued messages
are spoken for by signalled consumers. -/
structure CondSys.Attended (s : CondSys K) : Prop where
  inside_iff : ∀ c, c ∈ s.waiters.inside ↔ (s.sys.waiting c).isSome
  covers : s.waiters.Covers s.sys.queue.count

namespace CondSys

variable {s : CondSys K} {sys : QueueSys K} {c : Nat} {timeoutMs : Int} {r : QueueReply}

theorem Attended.start (h : ListHeap K) {q : MecQueue} (hq : q.count = 0) :
    (start h q).Attended where
  inside_iff c := by simp [CondSys.start, QueueSys.start, Waiters.notMem_inside_none]
  covers := by
    show Waiters.none.Covers q.count
    rw [hq]
    exact Waiters.covers_zero _

theorem settle_inside (hs : s.Attended) {sec : PopSection}
    (h : s.sys.finish c timeoutMs sec = (sys, r)) (d : Nat) :
    d ∈ (s.settle c (sys, r)).1.waiters.inside ↔ (sys.waiting d).isSome := by
  rw [QueueSys.finish_waiting h, ← hs.inside_iff]
  show d ∈ (if r = .blocked then s.waiters.block c else s.waiters.resume c).inside ↔ _
  by_cases hr : r = .blocked
  · rw [if_pos hr, Waiters.mem_inside_block]
    by_cases hd : d = c
    · simp [hd, hr]
    · simp [hd]
  · rw [if_neg hr, Waiters.mem_inside_resume]
    simp only [hr, and_false, false_or]

/-- Where a consumer takes a message or finds none, the rest stay spoken for. -/
theorem settle_covers (hs : s.Attended)
    (h : s.sys.finish c timeoutMs (mecQueuePop timeoutMs s.sys.queue) = (sys, r)) :
    (s.settle c (sys, r)).1.waiters.Covers sys.queue.count := by
  rcases QueueSys.finish_count h with ⟨hne, hq, rfl⟩ | ⟨hzero, hq⟩
  · obtain ⟨n, hn⟩ : ∃ n, s.sys.queue.count = n + 1 := ⟨s.sys.queue.count - 1, by omega⟩
    have hcount : sys.queue.count = n := by
      rw [hq]
      show s.sys.queue.count - 1 = n
      omega
    have hcov := hs.covers
    rw [hn] at hcov
    rw [hcount]
    exact hcov.resume_taking
  · rw [hq, hzero]
    exact Waiters.covers_zero _

end CondSys

/-- Every step keeps the messages spoken for. -/
theorem condStep_attended (s : CondSys K) (a : CondCall) (t : CondSys K) (e : Option QueueReply)
    (hs : s.Attended) (h : condStep s a = some (t, e)) : t.Attended := by
  rcases condStep_cases h with ⟨p, msg, sys, hq, rfl, -, hsig⟩ | ⟨p, msg, sys, r, hq, hr, -, rfl⟩ |
    ⟨c, timeoutMs, sys, r, hq, -, rfl⟩ | ⟨c, hc, -, rfl⟩ | ⟨c, rc, sys, r, hq, -, rfl, hc⟩
  · obtain ⟨hw, hcount⟩ := queueStep_push_count hq
    rw [if_pos rfl] at hcount
    rcases hsig with ⟨hb, ht⟩ | ⟨c, hc, ht⟩
    · refine ⟨fun d => ?_, ?_⟩
      · rw [ht, hw]; exact hs.inside_iff d
      · rw [ht]; exact Waiters.covers_of_unblocked hb _
    · refine ⟨fun d => ?_, ?_⟩
      · rw [ht, hw, Waiters.mem_inside_signal, ← hs.inside_iff]
        constructor
        · rintro (rfl | hd)
          · exact Waiters.mem_inside.mpr (.inl hc)
          · exact hd
        · exact .inr
      · rw [ht, hcount]; exact hs.covers.signal hc
  · obtain ⟨hw, hcount⟩ := queueStep_push_count hq
    rw [if_neg hr, Nat.add_zero] at hcount
    refine ⟨fun d => ?_, ?_⟩
    · show _ ↔ (sys.waiting d).isSome
      rw [hw]; exact hs.inside_iff d
    · show s.waiters.Covers sys.queue.count
      rw [hcount]; exact hs.covers
  · obtain ⟨-, hf⟩ := queueStep_pop hq
    exact ⟨CondSys.settle_inside hs hf, CondSys.settle_covers hs hf⟩
  · refine ⟨fun d => ?_, hs.covers.rouse hc⟩
    rw [Waiters.mem_inside_rouse, ← hs.inside_iff]
    constructor
    · rintro (rfl | hd)
      · exact Waiters.mem_inside.mpr (.inl hc)
      · exact hd
    · exact .inr
  · obtain ⟨timeoutMs, -, hf | hf⟩ := queueStep_wake hq
    · obtain ⟨hrc, hf⟩ := hf
      have hroused : c ∈ s.waiters.roused := by
        rcases hc with ⟨-, h0⟩ | hroused
        · exact absurd h0 hrc
        · exact hroused
      refine ⟨CondSys.settle_inside hs hf, ?_⟩
      cases hf
      exact hs.covers.resume (Waiters.notMem_signalled_of_roused hroused)
    · exact ⟨CondSys.settle_inside hs hf, CondSys.settle_covers hs hf⟩

/-- **No lost wake-up.** In every reachable state in which some consumer is
blocked and unsignalled, the queue holds at most as many messages as there are
signalled consumers that have not resumed, and each of these takes a message
when it does, as long as there is one. -/
theorem mecQueue_no_lost_wakeup {ok : Bool} {capacity : Int} {q : MecQueue}
    (hq : mecQueueCreate ok capacity = some q) (h : ListHeap K)
    {tr : List (CondCall × Option QueueReply)} {s : CondSys K}
    (hrun : Run condStep (.start h q) tr s) {c : Nat} (hc : c ∈ s.waiters.blocked) :
    s.sys.queue.count ≤ s.waiters.signalled.card ∧
    (∀ d, (s.sys.waiting d).isSome ↔ d ∈ s.waiters.inside) ∧
    ∀ d ∈ s.waiters.signalled, 0 < s.sys.queue.count →
      ∃ t, condStep s (.resume d 0) = some (t, some (.popped 0 (some s.sys.queue.front))) ∧
        t.waiters = s.waiters.resume d ∧ t.sys.queue = s.sys.queue.dequeue := by
  have hcount : q.count = 0 := by
    rw [← MecQueue.queued_length, (mecQueueCreate_eq hq).2.1]
    rfl
  have hs : s.Attended := hrun.invariant condStep_attended (.start h hcount)
  refine ⟨hs.covers ⟨c, hc⟩, fun d => (hs.inside_iff d).symm, fun d hd hpos => ?_⟩
  have hsleeps : (s.sys.waiting d).isSome :=
    (hs.inside_iff d).mp (Waiters.mem_inside.mpr (.inr (.inl hd)))
  obtain ⟨timeoutMs, hw⟩ := Option.isSome_iff_exists.mp hsleeps
  have hwoken : mecQueuePopWoken timeoutMs 0 s.sys.queue =
      .took s.sys.queue.front s.sys.queue.dequeue := by
    unfold mecQueuePopWoken mecQueuePop
    rw [if_neg (by simp), if_neg (by omega)]
  have hstep : condStep s (.resume d 0) = some (s.settle d (s.sys.finish d timeoutMs
      (.took s.sys.queue.front s.sys.queue.dequeue))) := by
    simp only [condStep, queueStep, hw, hwoken, Option.map_some]
    exact if_pos (.inl ⟨hd, trivial⟩)
  exact ⟨_, hstep, rfl, rfl⟩

theorem mecQueue_no_lost_wakeup_two_consumers :
    ∃ s : CondSys Nat, 1 ∈ s.waiters.blocked ∧ s.sys.queue.count = 1 ∧
      s.sys.queue.count ≤ s.waiters.signalled.card := by
  have hrun : Run (condStep (K := Nat)) (.start .empty ((mecQueueCreate true 4).get rfl))
      [(.pop 0 (-1), some .blocked), (.pop 1 500, some .blocked),
        (.push 2 ⟨1, some 0, ⟨0, 0⟩⟩ (some 0), some (.pushed 0))] _ :=
    .cons rfl (.cons rfl (.cons rfl (.nil _)))
  exact ⟨_, by decide, rfl, (mecQueue_no_lost_wakeup (Option.some_get rfl).symm _ hrun
    (c := 1) (by decide)).1⟩

end Mec
