import Mec.Lib.Fifo
import Mec.Queue.Basic

/-!
# The queue refines a bounded FIFO

`queueStep` runs producers and consumers on one queue, one critical section a
step. A consumer whose section ended in a wait sleeps until it is woken; what
woke it (a signal, a spurious wake-up, the timeout) shows only in the code `rc`
its wait returns. `QueueSys.Refines` is the abstraction relation to
`Lib.Fifo`, `queueStep_simulates` the one-step simulation, and
`mecQueue_refines_fifo` what follows for runs.
-/

namespace Mec

open Lib.Lts Lib.Fifo

variable {K : Type}

structure QueueSys (K : Type) where
  heap : ListHeap K
  queue : MecQueue
  /-- The timeout of each consumer that sleeps inside `mec_queue_pop`. -/
  waiting : Nat → Option Int

inductive QueueCall where
  | push (producer : Nat) (msg : MecMsg)
  | pop (consumer : Nat) (timeoutMs : Int)
  | wake (consumer : Nat) (rc : Int)

/-- What the caller sees of a critical section. -/
inductive QueueReply where
  | pushed (code : Int)
  | popped (code : Int) (msg : Option MecMsg)
  | blocked

namespace QueueSys

def setWaiting (s : QueueSys K) (c : Nat) (w : Option Int) : QueueSys K :=
  { s with waiting := Function.update s.waiting c w }

/-- The end of a section of `mec_queue_pop` by consumer `c`. -/
def finish (s : QueueSys K) (c : Nat) (timeoutMs : Int) : PopSection → QueueSys K × QueueReply
  | .took msg q => ({ s with queue := q }.setWaiting c none, .popped 0 (some msg))
  | .failed => (s.setWaiting c none, .popped (-1) none)
  | .waits => (s.setWaiting c (some timeoutMs), .blocked)

end QueueSys

/-- One critical section. A sleeping consumer makes no new call, and only a
sleeping consumer wakes. -/
def queueStep (s : QueueSys K) : QueueCall → Option (QueueSys K × QueueReply)
  | .push _ msg =>
    let r := mecQueuePush s.heap s.queue msg
    some ({ s with heap := r.2.1, queue := r.2.2 }, .pushed r.1)
  | .pop c timeoutMs =>
    match s.waiting c with
    | some _ => none
    | none => some (s.finish c timeoutMs (mecQueuePop timeoutMs s.queue))
  | .wake c rc =>
    match s.waiting c with
    | none => none
    | some timeoutMs => some (s.finish c timeoutMs (mecQueuePopWoken timeoutMs rc s.queue))

/-- The abstract event of a section; a push without a list is rejected before
the queue is looked at and is none. -/
def queueEvent : QueueCall × QueueReply → Option (Event MecMsg)
  | (.push p msg, .pushed code) =>
    if msg.tracks = none then none
    else if code = 0 then some (.accepted p msg) else some (.refused p msg)
  | (.pop c _, .popped _ (some msg)) => some (.taken c msg)
  | (.wake c _, .popped _ (some msg)) => some (.taken c msg)
  | (.pop c _, .popped _ none) => some (.empty c)
  | (.wake c _, .popped _ none) => some (.gaveUp c)
  | (.pop c _, .blocked) => some (.slept c)
  | (.wake c _, .blocked) => some (.slept c)
  | _ => none

namespace QueueSys

/-- The abstract queue a system state stands for. -/
def abstract (s : QueueSys K) : Queue MecMsg :=
  { items := s.queue.queued, asleep := fun c => (s.waiting c).isSome }

/-- The state represents the abstract queue `x` of capacity `cap`; nobody
sleeps with a zero timeout. -/
structure Refines (cap : Nat) (s : QueueSys K) (x : Queue MecMsg) : Prop where
  coherent : s.queue.Coherent
  capacity_eq : s.queue.capacity = cap
  abstract_eq : s.abstract = x
  timeout_ne : ∀ c t, s.waiting c = some t → t ≠ 0

theorem abstract_setWaiting (s : QueueSys K) (c : Nat) (w : Option Int) :
    (s.setWaiting c w).abstract =
      ⟨s.queue.queued, Function.update s.abstract.asleep c w.isSome⟩ := by
  unfold abstract setWaiting
  congr 1
  funext d
  by_cases hd : d = c
  · subst hd; simp
  · simp [hd]

variable {cap : Nat} {s : QueueSys K} {x : Queue MecMsg}

theorem Refines.setWaiting (hR : s.Refines cap x) (c : Nat) {w : Option Int}
    (hw : ∀ t, w = some t → t ≠ 0) :
    (s.setWaiting c w).Refines cap ⟨x.items, Function.update x.asleep c w.isSome⟩ := by
  obtain ⟨hcoh, hcap, rfl, hne⟩ := hR
  refine ⟨hcoh, hcap, s.abstract_setWaiting c w, fun d t hd => ?_⟩
  by_cases hdc : d = c
  · subst hdc; exact hw t (by simpa [QueueSys.setWaiting] using hd)
  · exact hne d t (by simpa [QueueSys.setWaiting, hdc] using hd)

theorem Refines.setQueue (hR : s.Refines cap x) {q : MecQueue} (hq : q.Coherent)
    (hcap : q.capacity = s.queue.capacity) (h : ListHeap K) :
    ({ s with heap := h, queue := q } : QueueSys K).Refines cap ⟨q.queued, x.asleep⟩ := by
  obtain ⟨_, hcap', rfl, hne⟩ := hR
  exact ⟨hq, hcap.trans hcap', rfl, hne⟩

theorem Refines.items_eq (hR : s.Refines cap x) : x.items = s.queue.queued := by
  rw [← hR.abstract_eq]; rfl

theorem Refines.push (hR : s.Refines cap x) (p : Nat) {msg : MecMsg} (hmsg : msg.tracks ≠ none) :
    (x.items.length < cap ∧ ∃ s', queueStep s (.push p msg) = some (s', .pushed 0) ∧
      s'.Refines cap ⟨x.items ++ [msg], x.asleep⟩) ∨
    (¬ x.items.length < cap ∧ queueStep s (.push p msg) = some (s, .pushed (-1))) := by
  obtain ⟨l, hl⟩ := Option.ne_none_iff_exists'.mp hmsg
  have hlen : x.items.length < cap ↔ s.queue.count < s.queue.capacity := by
    rw [hR.items_eq, MecQueue.queued_length, hR.capacity_eq]
  rcases mecQueuePush_cases s.heap s.queue hl with ⟨hroom, he⟩ | ⟨hfull, he⟩
  · have hR' := hR.setQueue (hR.coherent.enqueue hroom msg) rfl (trackListRetain s.heap (some l))
    rw [hR.coherent.queued_enqueue hroom, ← hR.items_eq] at hR'
    exact .inl ⟨hlen.mpr hroom, _, by simp only [queueStep, he], hR'⟩
  · exact .inr ⟨mt hlen.mp hfull, by simp only [queueStep, he]⟩

theorem Refines.look (hR : s.Refines cap x) (c : Nat) (timeoutMs : Int) :
    (∃ msg l s', x.items = msg :: l ∧
      s.finish c timeoutMs (mecQueuePop timeoutMs s.queue) = (s', .popped 0 (some msg)) ∧
      s'.Refines cap ⟨l, Function.update x.asleep c false⟩) ∨
    (x.items = [] ∧ timeoutMs = 0 ∧
      s.finish c timeoutMs (mecQueuePop timeoutMs s.queue) =
        (s.setWaiting c none, .popped (-1) none)) ∨
    (x.items = [] ∧ timeoutMs ≠ 0 ∧
      s.finish c timeoutMs (mecQueuePop timeoutMs s.queue) =
        (s.setWaiting c (some timeoutMs), .blocked)) := by
  rw [hR.items_eq]
  unfold mecQueuePop
  by_cases hc : s.queue.count = 0
  · have hnil : s.queue.queued = [] :=
      List.length_eq_zero_iff.mp (by rw [MecQueue.queued_length, hc])
    rw [if_pos hc]
    by_cases h0 : timeoutMs = 0
    · exact .inr (.inl ⟨hnil, h0, by simp [h0, finish]⟩)
    · exact .inr (.inr ⟨hnil, h0, by split <;> simp [finish]⟩)
  · rw [if_neg hc]
    refine .inl ⟨s.queue.front, s.queue.dequeue.queued, _, hR.coherent.queued_eq_cons hc, rfl, ?_⟩
    exact (hR.setQueue (hR.coherent.dequeue hc) rfl s.heap).setWaiting c (fun t ht => by cases ht)

end QueueSys

/-- **One section simulates.** Each critical section is the abstract step its
event names, and no step when it has none. -/
theorem queueStep_simulates {cap : Nat} (s : QueueSys K) (x : Queue MecMsg) (a : QueueCall)
    (t : QueueSys K) (e : QueueReply) (hR : s.Refines cap x) (hs : queueStep s a = some (t, e)) :
    ∃ y, t.Refines cap y ∧ Moves (Next cap) x (queueEvent (a, e)) y := by
  obtain ⟨items, asleep⟩ := x
  cases a with
  | push p msg =>
    by_cases hmsg : msg.tracks = none
    · simp only [queueStep, mecQueuePush, hmsg] at hs
      cases hs
      exact ⟨_, hR, by simp [queueEvent, hmsg, Moves]⟩
    · rcases hR.push p hmsg with ⟨hroom, s', he, hR'⟩ | ⟨hfull, he⟩
      · rw [he] at hs; cases hs
        exact ⟨_, hR', by simpa [queueEvent, hmsg, Moves] using Next.accept p msg hroom⟩
      · rw [he] at hs; cases hs
        exact ⟨_, hR, by simpa [queueEvent, hmsg, Moves] using Next.refuse p msg hfull⟩
  | pop c timeoutMs =>
    cases hw : s.waiting c with
    | some w => simp [queueStep, hw] at hs
    | none =>
      have hidle : asleep c = false := by
        have := congrArg (fun y => y.asleep c) hR.abstract_eq
        simpa [QueueSys.abstract, hw] using this.symm
      simp only [queueStep, hw, Option.some.injEq] at hs
      rcases hR.look c timeoutMs with ⟨msg, l, s', rfl, he, hR'⟩ | ⟨rfl, -, he⟩ | ⟨rfl, h0, he⟩
      · rw [he] at hs; cases hs
        exact ⟨_, hR', .take c msg⟩
      · rw [he] at hs; cases hs
        refine ⟨_, hR.setWaiting c (fun t ht => by cases ht), ?_⟩
        show Next cap _ (.empty c) ⟨[], Function.update asleep c false⟩
        rw [← hidle, Function.update_eq_self]
        exact .empty c
      · rw [he] at hs; cases hs
        exact ⟨_, hR.setWaiting c (fun t ht => by cases ht; exact h0), .sleep c⟩
  | wake c rc =>
    cases hw : s.waiting c with
    | none => simp [queueStep, hw] at hs
    | some timeoutMs =>
      have hasleep : asleep c = true := by
        have := congrArg (fun y => y.asleep c) hR.abstract_eq
        simpa [QueueSys.abstract, hw] using this.symm
      simp only [queueStep, hw, Option.some.injEq, mecQueuePopWoken] at hs
      split at hs
      · cases hs
        exact ⟨_, hR.setWaiting c (fun t ht => by cases ht), .giveUp c hasleep⟩
      · rcases hR.look c timeoutMs with ⟨msg, l, s', rfl, he, hR'⟩ | ⟨-, h0, -⟩ | ⟨rfl, h0, he⟩
        · rw [he] at hs; cases hs
          exact ⟨_, hR', .take c msg⟩
        · exact absurd h0 (hR.timeout_ne c _ hw)
        · rw [he] at hs; cases hs
          exact ⟨_, hR.setWaiting c (fun t ht => by cases ht; exact h0), .sleep c⟩

def QueueSys.start (h : ListHeap K) (q : MecQueue) : QueueSys K :=
  { heap := h, queue := q, waiting := fun _ => none }

/-- **The queue is a bounded FIFO.** After any run from a created queue the
buffer represents a list `l` of at most `capacity` messages, and the run was a
run of the abstract queue that ends in `l`: the accepted messages are the taken
ones followed by `l`, and each producer's are taken in the order it pushed
them. From there, the next push of a list appends if `l` is shorter than the
capacity and else returns -1 and changes nothing; the next pop takes the first
message of a non-empty `l`, and on the empty list it returns -1 and changes
nothing, or waits if it was told to. -/
theorem mecQueue_refines_fifo {ok : Bool} {capacity : Int} {q : MecQueue}
    (hq : mecQueueCreate ok capacity = some q) (h : ListHeap K)
    {tr : List (QueueCall × QueueReply)} {s : QueueSys K}
    (hrun : Run queueStep (.start h q) tr s) :
    ∃ l : List MecMsg,
      (s.queue.queued = l ∧ s.queue.count = l.length ∧ (l.length : Int) ≤ capacity ∧
        s.queue.head < s.queue.capacity ∧ (s.queue.capacity : Int) = capacity ∧
        s.queue.tail = (s.queue.head + s.queue.count) % s.queue.capacity) ∧
      Steps (Next capacity.toNat) ⟨[], fun _ => false⟩ (tr.filterMap queueEvent)
        ⟨l, fun c => (s.waiting c).isSome⟩ ∧
      ((accepted (tr.filterMap queueEvent)).map Prod.snd = taken (tr.filterMap queueEvent) ++ l ∧
        ∃ n, taken (tr.filterMap queueEvent) =
            ((accepted (tr.filterMap queueEvent)).take n).map Prod.snd ∧
          ∀ p, ((accepted (tr.filterMap queueEvent)).take n).filter (fun m => m.1 = p) <+:
            (accepted (tr.filterMap queueEvent)).filter (fun m => m.1 = p)) ∧
      (∀ p msg, msg.tracks ≠ none →
        if (l.length : Int) < capacity then
          ∃ s', queueStep s (.push p msg) = some (s', .pushed 0) ∧ s'.queue.queued = l ++ [msg]
        else queueStep s (.push p msg) = some (s, .pushed (-1))) ∧
      (∀ c timeoutMs, s.waiting c = none →
        match l with
        | msg :: l' => ∃ s', queueStep s (.pop c timeoutMs) = some (s', .popped 0 (some msg)) ∧
            s'.queue.queued = l'
        | [] => if timeoutMs = 0 then queueStep s (.pop c timeoutMs) = some (s, .popped (-1) none)
            else ∃ s', queueStep s (.pop c timeoutMs) = some (s', .blocked) ∧
              s'.queue = s.queue) := by
  obtain ⟨hcoh, hnil, hcap⟩ := mecQueueCreate_eq hq
  have h0 : (QueueSys.start h q).Refines capacity.toNat ⟨[], fun _ => false⟩ := by
    refine ⟨hcoh, by show q.capacity = _; omega, ?_, fun c t ht => by cases ht⟩
    simp only [QueueSys.abstract, QueueSys.start, hnil]
    rfl
  obtain ⟨⟨l, z⟩, hR, hsteps⟩ := hrun.simulates queueStep_simulates h0
  have hz : (⟨s.queue.queued, fun c => (s.waiting c).isSome⟩ : Queue MecMsg) = ⟨l, z⟩ :=
    hR.abstract_eq
  cases hz
  have hc := hR.capacity_eq
  have hle := hR.coherent.count_le
  have htake := taken_eq_take hsteps
  refine ⟨s.queue.queued, ⟨rfl, (MecQueue.queued_length _).symm, ?_, s.queue.head_lt, by omega,
    hR.coherent.tail_eq⟩, hsteps,
    ⟨conserved hsteps, _, htake, fun p => (List.take_prefix _ _).filter _⟩, ?_, ?_⟩
  · rw [MecQueue.queued_length]; omega
  · intro p msg hmsg
    rcases hR.push p hmsg with ⟨hroom, s', he, hR'⟩ | ⟨hfull, he⟩
    · rw [if_pos (by simp only at hroom; omega)]
      exact ⟨s', he, hR'.items_eq.symm⟩
    · rw [if_neg (by simp only at hfull; omega)]
      exact he
  · intro c timeoutMs hw
    rcases hR.look c timeoutMs with ⟨msg, l', s', hl, he, hR'⟩ | ⟨hl, ht, he⟩ | ⟨hl, ht, he⟩
    · simp only at hl
      rw [hl]
      exact ⟨s', by simp only [queueStep, hw, he], hR'.items_eq.symm⟩
    · simp only at hl
      have hs : s.setWaiting c none = s := by
        rw [QueueSys.setWaiting, ← hw, Function.update_eq_self]
      rw [hl]
      simp only [if_pos ht, queueStep, hw, he, hs]
    · simp only at hl
      rw [hl]
      simp only [if_neg ht]
      exact ⟨s.setWaiting c (some timeoutMs), by simp only [queueStep, hw, he], rfl⟩

theorem mecQueue_refines_fifo_one_slot :
    ∃ (s : QueueSys Nat) (l : List MecMsg), s.queue.queued = l ∧ (l.length : Int) ≤ 1 := by
  have hrun : Run (queueStep (K := Nat)) (.start .empty ((mecQueueCreate true 1).get rfl))
      [(.push 0 ⟨1, some 0, ⟨0, 0⟩⟩, .pushed 0), (.push 1 ⟨2, some 0, ⟨0, 0⟩⟩, .pushed (-1)),
        (.pop 0 500, .popped 0 (some ⟨1, some 0, ⟨0, 0⟩⟩))] _ :=
    .cons rfl (.cons rfl (.cons rfl (.nil _)))
  obtain ⟨l, ⟨hl, -, hle, -⟩, -⟩ := mecQueue_refines_fifo (Option.some_get rfl).symm _ hrun
  exact ⟨_, l, hl, hle⟩

end Mec
