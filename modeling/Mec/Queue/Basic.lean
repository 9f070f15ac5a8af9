import Mec.Lib.Ring
import Mec.Queue.Heap

/-!
# The message queue (`queue.c`)

A `MecQueue` is the circular buffer of `mec_queue_t`. The fields carry that
both indices lie inside the buffer; that they and `count` describe one window
of queued messages is a property of runs, `MecQueue.Coherent`, and is proved,
not assumed. Each function here is one critical section under the queue's
mutex. `mec_queue_pop` may have several: a section that finds the queue empty
either fails or ends inside `pthread_cond_wait`, and waking starts the next.
-/

namespace Mec

open Lib.Ring

variable {K : Type}

structure MecMsg where
  sensorId : Int
  tracks : Option ListPtr
  timestamp : Timeval
  deriving DecidableEq, Repr

def MecMsg.zero : MecMsg := { sensorId := 0, tracks := none, timestamp := ⟨0, 0⟩ }

/-- `struct mec_queue_t`, its mutex and conditions aside. -/
@[ext] structure MecQueue where
  buffer : List MecMsg
  capacity : Nat
  head : Nat
  tail : Nat
  count : Nat
  buffer_length : buffer.length = capacity
  head_lt : head < capacity
  tail_lt : tail < capacity
  deriving DecidableEq

namespace MecQueue

/-- The queued messages, oldest first. -/
def queued (q : MecQueue) : List MecMsg := window q.buffer q.head q.count

/-- The lists the window's slots point to. -/
def pointers (q : MecQueue) : List ListPtr := q.queued.filterMap MecMsg.tracks

theorem capacity_pos (q : MecQueue) : 0 < q.capacity := Nat.zero_lt_of_lt q.head_lt

theorem buffer_pos (q : MecQueue) : 0 < q.buffer.length := by
  rw [q.buffer_length]; exact q.capacity_pos

@[simp] theorem queued_length (q : MecQueue) : q.queued.length = q.count :=
  window_length q.buffer_pos _ _

/-- Store at `tail`, advance `tail`, count one more. -/
def enqueue (q : MecQueue) (msg : MecMsg) : MecQueue :=
  { q with
    buffer := q.buffer.set q.tail msg
    tail := (q.tail + 1) % q.capacity
    count := q.count + 1
    buffer_length := by rw [List.length_set, q.buffer_length]
    tail_lt := Nat.mod_lt _ q.capacity_pos }

def front (q : MecQueue) : MecMsg :=
  q.buffer.get ⟨q.head, by rw [q.buffer_length]; exact q.head_lt⟩

/-- Clear the slot's reference at `head`, advance `head`, count one less. -/
def dequeue (q : MecQueue) : MecQueue :=
  { q with
    buffer := q.buffer.set q.head { q.front with tracks := none }
    head := (q.head + 1) % q.capacity
    count := q.count - 1
    buffer_length := by rw [List.length_set, q.buffer_length]
    head_lt := Nat.mod_lt _ q.capacity_pos }

/-- The two indices and the count describe one window of the buffer. -/
structure Coherent (q : MecQueue) : Prop where
  tail_eq : q.tail = (q.head + q.count) % q.capacity
  count_le : q.count ≤ q.capacity

theorem Coherent.enqueue {q : MecQueue} (hq : q.Coherent) (hroom : q.count < q.capacity)
    (msg : MecMsg) : (q.enqueue msg).Coherent where
  tail_eq := by
    show (q.tail + 1) % q.capacity = (q.head + (q.count + 1)) % q.capacity
    rw [hq.tail_eq, Nat.mod_add_mod, Nat.add_assoc]
  count_le := hroom

theorem Coherent.dequeue {q : MecQueue} (hq : q.Coherent) (hne : q.count ≠ 0) :
    q.dequeue.Coherent where
  tail_eq := by
    show q.tail = ((q.head + 1) % q.capacity + (q.count - 1)) % q.capacity
    rw [hq.tail_eq, Nat.mod_add_mod, show q.head + 1 + (q.count - 1) = q.head + q.count by omega]
  count_le := by
    have := hq.count_le
    show q.count - 1 ≤ q.capacity
    omega

theorem Coherent.queued_enqueue {q : MecQueue} (hq : q.Coherent) (hroom : q.count < q.capacity)
    (msg : MecMsg) : (q.enqueue msg).queued = q.queued ++ [msg] := by
  have hlt : q.count < q.buffer.length := by rw [q.buffer_length]; exact hroom
  have := window_push hlt q.head msg
  rw [q.buffer_length, ← hq.tail_eq] at this
  exact this

theorem Coherent.queued_eq_cons {q : MecQueue} (hq : q.Coherent) (hne : q.count ≠ 0) :
    q.queued = q.front :: q.dequeue.queued := by
  obtain ⟨n, hn⟩ : ∃ n, q.count = n + 1 := ⟨q.count - 1, by omega⟩
  have hh : q.head < q.buffer.length := by rw [q.buffer_length]; exact q.head_lt
  have hlt : n < q.buffer.length := by have := hq.count_le; rw [q.buffer_length]; omega
  have hpop := window_pop hlt hh { q.front with tracks := none }
  rw [q.buffer_length] at hpop
  have hd : q.dequeue.queued = window q.buffer (q.head + 1) n := by
    rw [← hpop]
    show window _ _ (q.count - 1) = _
    rw [hn]; rfl
  rw [hd, queued, hn]
  exact window_head hh (List.getElem?_eq_getElem hh)

theorem Coherent.pointers_enqueue {q : MecQueue} (hq : q.Coherent) (hroom : q.count < q.capacity)
    {msg : MecMsg} {p : ListPtr} (hp : msg.tracks = some p) :
    (q.enqueue msg).pointers = q.pointers ++ [p] := by
  rw [pointers, hq.queued_enqueue hroom, List.filterMap_append]
  simp [hp, pointers]

theorem pointers_eq_append {q q' : MecQueue} {msg : MecMsg} (h : q.queued = msg :: q'.queued) :
    q.pointers = msg.tracks.toList ++ q'.pointers := by
  rw [pointers, h]
  cases ht : msg.tracks <;> simp [ht, pointers]

end MecQueue

/-- `mec_queue_create`; `ok` says whether the allocations succeed. -/
def mecQueueCreate (ok : Bool) (capacity : Int) : Option MecQueue :=
  if h : capacity ≤ 0 then none
  else if ok then
    some
      { buffer := List.replicate capacity.toNat MecMsg.zero
        capacity := capacity.toNat
        head := 0
        tail := 0
        count := 0
        buffer_length := List.length_replicate
        head_lt := by omega
        tail_lt := by omega }
  else none

theorem mecQueueCreate_eq {ok : Bool} {capacity : Int} {q : MecQueue}
    (h : mecQueueCreate ok capacity = some q) :
    q.Coherent ∧ q.queued = [] ∧ (q.capacity : Int) = capacity := by
  unfold mecQueueCreate at h
  split at h
  · cases h
  · split at h
    · cases h
      exact ⟨⟨by simp, Nat.zero_le _⟩, rfl, by simp; omega⟩
    · cases h

def mecQueuePush (h : ListHeap K) (q : MecQueue) (msg : MecMsg) : Int × ListHeap K × MecQueue :=
  match msg.tracks with
  | none => (-1, h, q)
  | some _ =>
    if q.count ≥ q.capacity then (-1, h, q)
    else (0, trackListRetain h msg.tracks, q.enqueue msg)

/-- What a critical section of `mec_queue_pop` ends in: return 0 with a
message, return -1, or a wait on `not_empty`. -/
inductive PopSection where
  | took (msg : MecMsg) (q : MecQueue)
  | failed
  | waits

/-- `mec_queue_pop` from the test of `count` on. -/
def mecQueuePop (timeoutMs : Int) (q : MecQueue) : PopSection :=
  if q.count = 0 then
    if timeoutMs < 0 then .waits
    else if timeoutMs = 0 then .failed
    else .waits
  else .took q.front q.dequeue

/-- `mec_queue_pop` from a wake-up on; a timed wait returned `rc`. -/
def mecQueuePopWoken (timeoutMs rc : Int) (q : MecQueue) : PopSection :=
  if 0 < timeoutMs ∧ rc ≠ 0 then .failed else mecQueuePop timeoutMs q

/-- `mec_queue_destroy`; the queue itself is gone afterwards. -/
def mecQueueDestroy (h : ListHeap K) (q : MecQueue) : ListHeap K :=
  (List.range q.count).foldl (fun h i =>
    match q.buffer[(q.head + i) % q.capacity]? with
    | none => h
    | some msg => trackListRelease h msg.tracks) h

theorem mecQueueDestroy_eq (h : ListHeap K) (q : MecQueue) :
    mecQueueDestroy h q = q.queued.foldl (fun h msg => trackListRelease h msg.tracks) h := by
  unfold mecQueueDestroy MecQueue.queued window
  rw [List.foldl_filterMap, q.buffer_length]
  congr 1
  funext h i
  cases q.buffer[(q.head + i) % q.capacity]? <;> rfl

/-- A push of a list either appends it with one more reference and returns 0,
or finds the buffer full, returns -1 and changes nothing. -/
theorem mecQueuePush_cases (h : ListHeap K) (q : MecQueue) {msg : MecMsg} {p : ListPtr}
    (hp : msg.tracks = some p) :
    (q.count < q.capacity ∧
      mecQueuePush h q msg = (0, trackListRetain h (some p), q.enqueue msg)) ∨
    (¬ q.count < q.capacity ∧ mecQueuePush h q msg = (-1, h, q)) := by
  unfold mecQueuePush
  rw [hp]
  by_cases hc : q.count ≥ q.capacity
  · exact .inr ⟨Nat.not_lt.mpr hc, by simp [hc]⟩
  · exact .inl ⟨Nat.lt_of_not_ge hc, by simp [hc]⟩

/-- A pop takes the front message, or the queue is empty and nothing changes. -/
theorem mecQueuePop_cases {q : MecQueue} (hcoh : q.Coherent) (timeoutMs : Int) :
    (∃ msg q', mecQueuePop timeoutMs q = .took msg q' ∧ q.queued = msg :: q'.queued ∧
      q'.Coherent) ∨
    mecQueuePop timeoutMs q = .failed ∨ mecQueuePop timeoutMs q = .waits := by
  unfold mecQueuePop
  by_cases hc : q.count = 0
  · rw [if_pos hc]
    right
    split
    · exact .inr rfl
    · split
      · exact .inl rfl
      · exact .inr rfl
  · rw [if_neg hc]
    exact .inl ⟨_, _, rfl, hcoh.queued_eq_cons hc, hcoh.dequeue hc⟩

end Mec
