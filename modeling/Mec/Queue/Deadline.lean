import Mec.Queue.Basic

/-!
# The deadline of a timed pop

`mec_queue_pop` with a positive `timeout_ms` waits until a deadline that it computes
from the clock before each wait. `popDeadline` is that computation, with the
overflow of `long` and `time_t`; `popDeadlines` are the deadlines of one call,
whose turns the other threads decide. Each is its own reading plus the timeout,
so the deadline moves with every wake-up that finds the queue empty.
-/

namespace Mec

structure Timespec where
  tvSec : Int
  tvNsec : Int
  deriving DecidableEq, Repr

namespace Timespec

def Normal (ts : Timespec) : Prop := 0 ≤ ts.tvNsec ∧ ts.tvNsec < 1000000000

def nanos (ts : Timespec) : Int := ts.tvSec * 1000000000 + ts.tvNsec

end Timespec

/-- A value of `long`, or of `time_t`. -/
def IsLong (x : Int) : Prop := -2 ^ 63 ≤ x ∧ x < 2 ^ 63

instance (x : Int) : Decidable (IsLong x) := inferInstanceAs (Decidable (_ ∧ _))

/-- What `gettimeofday` stores. -/
def Timeval.Normal (t : Timeval) : Prop := IsLong t.tvSec ∧ 0 ≤ t.tvUsec ∧ t.tvUsec < 1000000

instance (t : Timeval) : Decidable t.Normal := inferInstanceAs (Decidable (_ ∧ _))

/-- The deadline computed from the reading `now`, unless the arithmetic overflows. -/
def popDeadline (now : Timeval) (timeoutMs : Int) : Option Timespec :=
  let nsec := (now.tvUsec + timeoutMs.tmod 1000 * 1000) * 1000
  let sec := now.tvSec + timeoutMs.tdiv 1000
  if IsLong nsec ∧ IsLong sec ∧ IsLong (sec + nsec.tdiv 1000000000) then
    some { tvSec := sec + nsec.tdiv 1000000000, tvNsec := nsec.tmod 1000000000 }
  else none

/-- A turn of the loop: the queue it finds, the clock, and what the wait returns. -/
structure PopTurn where
  queue : MecQueue
  now : Timeval
  rc : Int

/-- The deadlines a call passes to `pthread_cond_timedwait`. It goes on while the
queue is empty and the wait returns 0. -/
def popDeadlines (timeoutMs : Int) : List PopTurn → List (Option Timespec)
  | [] => []
  | turn :: rest =>
    match mecQueuePop timeoutMs turn.queue with
    | .waits =>
      popDeadline turn.now timeoutMs :: if turn.rc = 0 then popDeadlines timeoutMs rest else []
    | _ => []

/-- The clock readings of a call: one for each wait. -/
def popReadings (timeoutMs : Int) : List PopTurn → List Timeval
  | [] => []
  | turn :: rest =>
    match mecQueuePop timeoutMs turn.queue with
    | .waits => turn.now :: if turn.rc = 0 then popReadings timeoutMs rest else []
    | _ => []

/-- The deadline is there, normalised, and `timeoutMs` after `entry`. -/
def IsDeadline (entry : Timeval) (timeoutMs : Int) (d : Option Timespec) : Prop :=
  ∃ ts, d = some ts ∧ ts.Normal ∧ ts.nanos = entry.micros * 1000 + timeoutMs * 1000000

/-- The seconds of `timeoutMs` after `now` are a `time_t`. -/
def DeadlineFits (now : Timeval) (timeoutMs : Int) : Prop :=
  now.micros + timeoutMs * 1000 < 2 ^ 63 * 1000000

instance (now : Timeval) (timeoutMs : Int) : Decidable (DeadlineFits now timeoutMs) :=
  inferInstanceAs (Decidable (_ < _))

section Deadline

variable {now entry : Timeval} {timeoutMs : Int} {turns : List PopTurn}

theorem popDeadlines_eq :
    popDeadlines timeoutMs turns =
      (popReadings timeoutMs turns).map fun now => popDeadline now timeoutMs := by
  induction turns with
  | nil => rfl
  | cons turn rest ih =>
    rw [popDeadlines, popReadings]
    cases mecQueuePop timeoutMs turn.queue with
    | took | failed => rfl
    | waits =>
      simp only [List.map_cons, ih]
      split <;> rfl

theorem popReadings_subset : popReadings timeoutMs turns ⊆ turns.map PopTurn.now := by
  induction turns with
  | nil => exact List.nil_subset _
  | cons turn rest ih =>
    rw [popReadings, List.map_cons]
    cases mecQueuePop timeoutMs turn.queue with
    | took | failed => exact List.nil_subset _
    | waits =>
      refine List.cons_subset_cons _ ?_
      split
      · exact ih
      · exact List.nil_subset _

theorem popDeadline_eq (hnow : now.Normal) (hpos : 0 < timeoutMs) (hint : timeoutMs < 2 ^ 31) :
    popDeadline now timeoutMs =
      if DeadlineFits now timeoutMs then
        some { tvSec := (now.micros + timeoutMs * 1000) / 1000000
               tvNsec := (now.micros + timeoutMs * 1000) % 1000000 * 1000 }
      else none := by
  obtain ⟨⟨hlow, hhigh⟩, husec, husec'⟩ := hnow
  have hnsec : 0 ≤ (now.tvUsec + timeoutMs % 1000 * 1000) * 1000 := by omega
  unfold popDeadline
  simp only [Int.tmod_eq_emod_of_nonneg hpos.le, Int.tdiv_eq_ediv_of_nonneg hpos.le,
    Int.tmod_eq_emod_of_nonneg hnsec, Int.tdiv_eq_ediv_of_nonneg hnsec]
  by_cases hfits : DeadlineFits now timeoutMs
  · rw [if_pos hfits, if_pos]
    · unfold Timeval.micros
      congr 2 <;> omega
    · unfold DeadlineFits Timeval.micros at hfits
      unfold IsLong
      omega
  · rw [if_neg hfits, if_neg]
    unfold DeadlineFits Timeval.micros at hfits
    unfold IsLong
    omega

/-- A deadline is the entry time plus the timeout exactly if it is computed from the
entry time and fits. -/
theorem isDeadline_iff (hentry : entry.Normal) (hnow : now.Normal) (hpos : 0 < timeoutMs)
    (hint : timeoutMs < 2 ^ 31) :
    IsDeadline entry timeoutMs (popDeadline now timeoutMs) ↔
      now = entry ∧ DeadlineFits entry timeoutMs := by
  rw [popDeadline_eq hnow hpos hint]
  constructor
  · rintro ⟨ts, hts, -, hnanos⟩
    split at hts
    · next hfits =>
      cases hts
      obtain ⟨-, hlow, hhigh⟩ := hentry
      obtain ⟨-, hlow', hhigh'⟩ := hnow
      unfold Timespec.nanos Timeval.micros at hnanos
      simp only at hnanos
      have hsec : now.tvSec = entry.tvSec := by omega
      have husec : now.tvUsec = entry.tvUsec := by omega
      obtain ⟨sec, usec⟩ := now
      obtain ⟨sec', usec'⟩ := entry
      cases hsec
      cases husec
      exact ⟨rfl, hfits⟩
    · cases hts
  · rintro ⟨rfl, hfits⟩
    rw [if_pos hfits]
    refine ⟨_, rfl, ?_, ?_⟩
    · unfold Timespec.Normal
      simp only
      omega
    · unfold Timespec.nanos
      simp only
      omega

/-- **The timeout is an absolute deadline** exactly if every clock reading of the
call is the entry time, and the deadline fits a `time_t`. -/
theorem pop_deadline_absolute (hentry : entry.Normal) (hturns : ∀ turn ∈ turns, turn.now.Normal)
    (hpos : 0 < timeoutMs) (hint : timeoutMs < 2 ^ 31) :
    (∀ d ∈ popDeadlines timeoutMs turns, IsDeadline entry timeoutMs d) ↔
      ∀ now ∈ popReadings timeoutMs turns, now = entry ∧ DeadlineFits entry timeoutMs := by
  rw [popDeadlines_eq, List.forall_mem_map]
  have hiff : ∀ now ∈ popReadings timeoutMs turns,
      IsDeadline entry timeoutMs (popDeadline now timeoutMs) ↔
        now = entry ∧ DeadlineFits entry timeoutMs := fun now hmem => by
    obtain ⟨turn, hturn, rfl⟩ := List.mem_map.mp (popReadings_subset hmem)
    exact isDeadline_iff hentry (hturns turn hturn) hpos hint
  exact ⟨fun h now hmem => (hiff now hmem).mp (h now hmem),
    fun h now hmem => (hiff now hmem).mpr (h now hmem)⟩

end Deadline

def emptyQueue : MecQueue :=
  { buffer := [.zero], capacity := 1, head := 0, tail := 0, count := 0, buffer_length := rfl,
    head_lt := by decide, tail_lt := by decide }

theorem pop_deadline_absolute_once :
    popDeadlines 1500 [⟨emptyQueue, ⟨7, 600000⟩, 110⟩] = [some ⟨9, 100000000⟩] ∧
      IsDeadline ⟨7, 600000⟩ 1500 (some ⟨9, 100000000⟩) := by
  have hdeadlines : popDeadlines 1500 [⟨emptyQueue, ⟨7, 600000⟩, 110⟩] =
      [some ⟨9, 100000000⟩] := by decide
  have hall : ∀ d ∈ popDeadlines 1500 [⟨emptyQueue, ⟨7, 600000⟩, 110⟩],
      IsDeadline ⟨7, 600000⟩ 1500 d :=
    (pop_deadline_absolute (by decide) (by decide) (by decide) (by decide)).mpr (by decide)
  refine ⟨hdeadlines, hall _ ?_⟩
  rw [hdeadlines]
  exact List.mem_singleton_self _

/-- A pop of one second that is woken for nothing after half a second waits for
another one. -/
theorem woken_pop_waits_longer :
    popDeadlines 1000 [⟨emptyQueue, ⟨0, 0⟩, 0⟩, ⟨emptyQueue, ⟨0, 500000⟩, 0⟩] =
      [some ⟨1, 0⟩, some ⟨1, 500000000⟩] ∧ ¬ IsDeadline ⟨0, 0⟩ 1000 (some ⟨1, 500000000⟩) := by
  refine ⟨by decide, ?_⟩
  rintro ⟨ts, hts, -, hnanos⟩
  cases hts
  exact absurd hnanos (by decide)

end Mec
