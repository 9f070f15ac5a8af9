import Mathlib.Data.List.Induction
import Mec.Lib.Lts
import Mec.Queue.Basic

/-!
# What a popped message carries

The sensor threads push their own `output_tracks`: an iteration clears the list
and adds to it, and then `mec_queue_push` stores the pointer and counts a
reference. A queued message therefore shows whatever the list holds when it is
popped. `snapStep` interleaves producer iterations and pops; its trace records
what the list held at each push and at each pop.

The queue's promise, that a popped message carries what its list held at the
push, is kept in a state exactly if the queue is `Synced`, and a run keeps it
exactly if every iteration is `Quiet`: it does not change a list that a queued
message points to.
-/

namespace Mec

open Lib.Lts

variable {K : Type}

/-- An edit of the producer's list before the push. -/
inductive ListOp (K : Type) where
  | clear
  | add (fresh : Fresh K) (track : TargetTrack K)

/-- The list after the edits; the threads ignore what `track_list_add` returns. -/
def runOps (l : TrackList K) (ops : List (ListOp K)) : TrackList K :=
  ops.foldl (fun l op => match op with
    | .clear => trackListClear l
    | .add fresh track => (trackListAdd fresh l track).2) l

structure SnapSys (K : Type) where
  heap : ListHeap K
  queue : MecQueue

inductive SnapAct (K : Type) where
  | iterate (list : ListPtr) (ops : List (ListOp K)) (sensorId : Int) (timestamp : Timeval)
  | pop (timeoutMs : Int)

/-- A push's code and what its list held then; what the list of a popped
message holds at the pop; nothing from a pop that returns no message. -/
inductive SnapReply (K : Type) where
  | pushed (code : Int) (held : List (TargetTrack K))
  | popped (carried : List (TargetTrack K))
  | nothing

/-- The tracks a message shows in the heap `h`. -/
def carried (h : ListHeap K) (msg : MecMsg) : List (TargetTrack K) :=
  (msg.tracks.map h.contents).getD []

def snapStep (s : SnapSys K) : SnapAct K → Option (SnapSys K × SnapReply K)
  | .iterate list ops sensorId timestamp =>
    match s.heap.cell list with
    | none => none
    | some l =>
      let h := s.heap.write list (runOps l ops)
      let r := mecQueuePush h s.queue { sensorId, tracks := some list, timestamp }
      some ({ heap := r.2.1, queue := r.2.2 }, .pushed r.1 (h.contents list))
  | .pop timeoutMs =>
    match mecQueuePop timeoutMs s.queue with
    | .took msg q => some ({ s with queue := q }, .popped (carried s.heap msg))
    | .failed => some (s, .nothing)
    | .waits => some (s, .nothing)

/-- What the lists of the accepted pushes held when they were pushed. -/
def sent : List (SnapAct K × SnapReply K) → List (List (TargetTrack K)) :=
  List.filterMap fun
    | (_, .pushed code held) => if code = 0 then some held else none
    | _ => none

/-- What the popped messages carried. -/
def got : List (SnapAct K × SnapReply K) → List (List (TargetTrack K)) :=
  List.filterMap fun
    | (_, .popped tracks) => some tracks
    | _ => none

theorem sent_append (tr tr' : List (SnapAct K × SnapReply K)) :
    sent (tr ++ tr') = sent tr ++ sent tr' := List.filterMap_append ..

theorem got_append (tr tr' : List (SnapAct K × SnapReply K)) :
    got (tr ++ tr') = got tr ++ got tr' := List.filterMap_append ..

namespace SnapSys

/-- Every queued message still shows what its list held at the push. -/
def Synced (tr : List (SnapAct K × SnapReply K)) (s : SnapSys K) : Prop :=
  sent tr = got tr ++ s.queue.queued.map (carried s.heap)

/-- The step changes no list that a queued message points to. -/
def Quiet (s : SnapSys K) : SnapAct K → Prop
  | .iterate list ops _ _ => list ∈ s.queue.pointers →
      ∀ l, s.heap.cell list = some l → (runOps l ops).contents = l.contents
  | .pop _ => True

/-- From here on, pops alone bring only what was pushed. -/
def Keeps (tr : List (SnapAct K × SnapReply K)) (s : SnapSys K) : Prop :=
  ∀ pops u, (∀ x ∈ pops, ∃ timeoutMs, x.1 = .pop timeoutMs) → Run snapStep s pops u →
    got (tr ++ pops) <+: sent tr

end SnapSys

/-! ## The two kinds of step -/

theorem carried_congr {h h' : ListHeap K} {msg : MecMsg}
    (hc : ∀ p ∈ msg.tracks, h.contents p = h'.contents p) : carried h msg = carried h' msg := by
  unfold carried
  cases ht : msg.tracks with
  | none => rfl
  | some p => simp [hc p ht]

theorem mem_pointers {q : MecQueue} {p : ListPtr} :
    p ∈ q.pointers ↔ ∃ msg ∈ q.queued, msg.tracks = some p := by
  simp [MecQueue.pointers]

theorem contents_write_ne {h : ListHeap K} {p r : ListPtr} (hr : r ≠ p) (l : TrackList K) :
    (h.write p l).contents r = h.contents r := by
  simp [ListHeap.contents, hr]

theorem contents_retain (h : ListHeap K) (list : Option ListPtr) (p : ListPtr) :
    (trackListRetain h list).contents p = h.contents p := by
  unfold ListHeap.contents
  rw [trackListRetain_frame]

/-- A pop takes the front message with what its list holds now, or changes
nothing. -/
theorem snapStep_pop {s t : SnapSys K} {timeoutMs : Int} {e : SnapReply K}
    (hcoh : s.queue.Coherent) (h : snapStep s (.pop timeoutMs) = some (t, e)) :
    (∃ msg, s.queue.queued = msg :: t.queue.queued ∧ t.queue.Coherent ∧ t.heap = s.heap ∧
      e = .popped (carried s.heap msg)) ∨ (t = s ∧ e = .nothing) := by
  simp only [snapStep] at h
  rcases mecQueuePop_cases hcoh timeoutMs with ⟨msg, q, hpop, hq, hcoh'⟩ | hpop | hpop
  · rw [hpop] at h
    cases h
    exact .inl ⟨msg, hq, hcoh', rfl, rfl⟩
  · rw [hpop] at h
    cases h
    exact .inr ⟨rfl, rfl⟩
  · rw [hpop] at h
    cases h
    exact .inr ⟨rfl, rfl⟩

/-- An iteration rewrites its list, and appends a message that shows it or is
refused. -/
theorem snapStep_iterate {s t : SnapSys K} {list : ListPtr} {ops : List (ListOp K)}
    {sensorId : Int} {timestamp : Timeval} {e : SnapReply K} (hcoh : s.queue.Coherent)
    (h : snapStep s (.iterate list ops sensorId timestamp) = some (t, e)) :
    ∃ l, s.heap.cell list = some l ∧
      (∀ r, r ≠ list → t.heap.contents r = s.heap.contents r) ∧
      t.heap.contents list = (runOps l ops).contents ∧ t.queue.Coherent ∧
      ((t.queue.queued = s.queue.queued ++ [⟨sensorId, some list, timestamp⟩] ∧
        e = .pushed 0 (t.heap.contents list)) ∨
       (t.queue = s.queue ∧ e = .pushed (-1) (t.heap.contents list))) := by
  simp only [snapStep] at h
  cases hl : s.heap.cell list with
  | none => rw [hl] at h; cases h
  | some l =>
    simp only [hl] at h
    have hmsg : (⟨sensorId, some list, timestamp⟩ : MecMsg).tracks = some list := rfl
    have hself : (s.heap.write list (runOps l ops)).contents list = (runOps l ops).contents :=
      ListHeap.contents_of_cell (ListHeap.write_cell_self ..)
    refine ⟨l, rfl, ?_⟩
    rcases mecQueuePush_cases (s.heap.write list (runOps l ops)) s.queue hmsg with
      ⟨hroom, he⟩ | ⟨-, he⟩
    · rw [he] at h
      cases h
      refine ⟨fun r hr => by rw [contents_retain, contents_write_ne hr], ?_,
        hcoh.enqueue hroom _, .inl ⟨hcoh.queued_enqueue hroom _, ?_⟩⟩
      · rw [contents_retain, hself]
      · rw [contents_retain]
    · rw [he] at h
      cases h
      exact ⟨fun r hr => contents_write_ne hr _, hself, hcoh, .inr ⟨rfl, rfl⟩⟩

theorem snapStep_coherent (s : SnapSys K) (a : SnapAct K) (t : SnapSys K) (e : SnapReply K)
    (hcoh : s.queue.Coherent) (h : snapStep s a = some (t, e)) : t.queue.Coherent := by
  cases a with
  | iterate list ops sensorId timestamp =>
    obtain ⟨l, -, -, -, hcoh', -⟩ := snapStep_iterate hcoh h
    exact hcoh'
  | pop timeoutMs =>
    rcases snapStep_pop hcoh h with ⟨msg, -, hcoh', -⟩ | ⟨rfl, -⟩
    · exact hcoh'
    · exact hcoh

/-! ## Runs -/

theorem sent_length {s t : SnapSys K} {tr : List (SnapAct K × SnapReply K)}
    (h : Run snapStep s tr t) (hcoh : s.queue.Coherent) :
    (sent tr).length + s.queue.count = (got tr).length + t.queue.count := by
  induction h with
  | nil => simp [sent, got]
  | @cons s t u a e tr hs _ ih =>
    have ih := ih (snapStep_coherent s a t e hcoh hs)
    rw [← List.singleton_append, sent_append, got_append, List.length_append, List.length_append]
    rw [← s.queue.queued_length]
    rw [← t.queue.queued_length] at ih
    cases a with
    | iterate list ops sensorId timestamp =>
      obtain ⟨l, -, -, -, -, ⟨hq, rfl⟩ | ⟨hq, rfl⟩⟩ := snapStep_iterate hcoh hs
      · rw [hq, List.length_append] at ih
        simp only [sent, got, List.filterMap_cons, List.filterMap_nil, List.length_cons,
          List.length_nil, if_pos] at ih ⊢
        omega
      · rw [hq] at ih
        simp only [sent, got, List.filterMap_cons, List.filterMap_nil, List.length_nil] at ih ⊢
        simpa using ih
    | pop timeoutMs =>
      rcases snapStep_pop hcoh hs with ⟨msg, hq, -, -, rfl⟩ | ⟨rfl, rfl⟩
      · rw [hq, List.length_cons]
        simp only [sent, got, List.filterMap_cons, List.filterMap_nil, List.length_cons,
          List.length_nil] at ih ⊢
        omega
      · simpa [sent, got] using ih

/-- Popping everything brings what the queued messages show now. -/
theorem exists_drain : ∀ {n : Nat} {s : SnapSys K}, s.queue.Coherent → s.queue.count = n →
    ∃ pops u, (∀ x ∈ pops, ∃ timeoutMs, x.1 = SnapAct.pop timeoutMs) ∧ Run snapStep s pops u ∧
      got pops = s.queue.queued.map (carried s.heap)
  | 0, s, _, hn => by
    refine ⟨[], s, (fun x hx => by cases hx), .nil s, ?_⟩
    rw [List.length_eq_zero_iff.mp (s.queue.queued_length.trans hn)]
    rfl
  | n + 1, s, hcoh, hn => by
    have hne : s.queue.count ≠ 0 := by omega
    obtain ⟨pops, u, hp, hrun, hgot⟩ :=
      exists_drain (n := n) (s := { s with queue := s.queue.dequeue }) (hcoh.dequeue hne)
        (by show s.queue.count - 1 = n; omega)
    have hstep : snapStep s (.pop 0) = some ({ s with queue := s.queue.dequeue },
        .popped (carried s.heap s.queue.front)) := by
      simp only [snapStep, mecQueuePop, if_neg hne]
    refine ⟨(.pop 0, .popped (carried s.heap s.queue.front)) :: pops, u, ?_, .cons hstep hrun, ?_⟩
    · intro x hx
      rcases List.mem_cons.mp hx with rfl | hx
      · exact ⟨0, rfl⟩
      · exact hp x hx
    · rw [← List.singleton_append, got_append, hgot, hcoh.queued_eq_cons hne]
      rfl

namespace SnapSys

/-- The system with its producers' lists in `h` and a new queue. -/
def start (h : ListHeap K) (q : MecQueue) : SnapSys K := { heap := h, queue := q }

variable {s t : SnapSys K} {tr : List (SnapAct K × SnapReply K)} {a : SnapAct K} {e : SnapReply K}

theorem Synced.step (hs : Synced tr s) (hcoh : s.queue.Coherent) (hquiet : s.Quiet a)
    (h : snapStep s a = some (t, e)) : Synced (tr ++ [(a, e)]) t := by
  unfold Synced at hs ⊢
  rw [sent_append, got_append, hs, List.append_assoc, List.append_assoc]
  congr 1
  cases a with
  | iterate list ops sensorId timestamp =>
    obtain ⟨l, hl, hne, hself, -, hcases⟩ := snapStep_iterate hcoh h
    have hsame : s.queue.queued.map (carried s.heap) = s.queue.queued.map (carried t.heap) := by
      refine List.map_congr_left fun msg hmsg => carried_congr fun p hp => ?_
      by_cases hpl : p = list
      · subst hpl
        rw [hself, hquiet (mem_pointers.mpr ⟨msg, hmsg, hp⟩) l hl, ListHeap.contents_of_cell hl]
      · exact (hne p hpl).symm
    rcases hcases with ⟨hq, rfl⟩ | ⟨hq, rfl⟩
    · rw [hq, List.map_append, ← hsame]
      rfl
    · rw [hq, ← hsame]
      simp [sent, got]
  | pop timeoutMs =>
    rcases snapStep_pop hcoh h with ⟨msg, hq, -, hh, rfl⟩ | ⟨rfl, rfl⟩
    · rw [hq, hh]
      simp [sent, got]
    · simp [sent, got]

/-- In a synced state a step after which the queue is synced was quiet. -/
theorem Synced.quiet (hs : Synced tr s) (hcoh : s.queue.Coherent)
    (h : snapStep s a = some (t, e)) (ht : Synced (tr ++ [(a, e)]) t) : s.Quiet a := by
  cases a with
  | pop timeoutMs => trivial
  | iterate list ops sensorId timestamp =>
    intro hmem l' hl'
    obtain ⟨l, hl, hne, hself, -, hcases⟩ := snapStep_iterate hcoh h
    rw [hl] at hl'
    cases hl'
    obtain ⟨msg, hmsg, hp⟩ := mem_pointers.mp hmem
    unfold Synced at hs ht
    rw [sent_append, got_append, hs, List.append_assoc, List.append_assoc,
      List.append_cancel_left_eq] at ht
    have hsame : s.queue.queued.map (carried s.heap) = s.queue.queued.map (carried t.heap) := by
      rcases hcases with ⟨hq, rfl⟩ | ⟨hq, rfl⟩
      · rw [hq, List.map_append] at ht
        have ht' : s.queue.queued.map (carried s.heap) ++ [t.heap.contents list] =
          s.queue.queued.map (carried t.heap) ++ [t.heap.contents list] := ht
        exact (List.append_left_inj _).mp ht'
      · rw [hq] at ht
        simpa [sent, got] using ht
    have heq := List.map_inj_left.mp hsame msg hmsg
    simp only [carried, hp, Option.map_some, Option.getD_some] at heq
    rw [← hself, ← heq, ListHeap.contents_of_cell hl]

theorem Synced.pops {pops : List (SnapAct K × SnapReply K)} {u : SnapSys K}
    (hpops : ∀ x ∈ pops, ∃ timeoutMs, x.1 = .pop timeoutMs) (h : Run snapStep s pops u) :
    ∀ {tr}, Synced tr s → s.queue.Coherent → Synced (tr ++ pops) u ∧ sent pops = [] := by
  induction h with
  | nil => intro tr hs _; exact ⟨by rwa [List.append_nil], rfl⟩
  | @cons s t u a e pops h1 _ ih =>
    intro tr hs hcoh
    obtain ⟨timeoutMs, rfl⟩ : ∃ timeoutMs, a = .pop timeoutMs := hpops _ List.mem_cons_self
    have hquiet : s.Quiet (.pop timeoutMs) := trivial
    obtain ⟨hsync, hnil⟩ := ih (fun x hx => hpops x (List.mem_cons_of_mem _ hx))
      (hs.step hcoh hquiet h1) (snapStep_coherent _ _ _ _ hcoh h1)
    refine ⟨by rwa [List.append_cons], ?_⟩
    rw [← List.singleton_append, sent_append, hnil]
    rcases snapStep_pop hcoh h1 with ⟨msg, -, -, -, rfl⟩ | ⟨-, rfl⟩ <;> rfl

/-- **What synced means.** The queue is synced exactly if pops alone would
bring only what was pushed. -/
theorem synced_iff_keeps {q : MecQueue} {h : ListHeap K} (hq : q.Coherent) (hnil : q.queued = [])
    (hrun : Run snapStep (start h q) tr s) : Synced tr s ↔ s.Keeps tr := by
  have hcoh : s.queue.Coherent :=
    hrun.invariant (I := fun s => s.queue.Coherent) snapStep_coherent hq
  constructor
  · intro hs pops u hpops hrun'
    obtain ⟨hu, hsent⟩ := hs.pops hpops hrun' hcoh
    unfold Synced at hu
    rw [sent_append, hsent, List.append_nil] at hu
    rw [hu]
    exact List.prefix_append _ _
  · intro hk
    obtain ⟨pops, u, hpops, hrun', hgot⟩ := exists_drain hcoh rfl
    have hpre := hk pops u hpops hrun'
    have hlen := sent_length hrun hq
    have h0 : (start h q).queue.count = 0 := by
      rw [← MecQueue.queued_length]
      exact List.length_eq_zero_iff.mpr hnil
    rw [got_append, hgot] at hpre
    refine (hpre.eq_of_length ?_).symm
    rw [List.length_append, List.length_map, MecQueue.queued_length]
    omega

/-- A run of quiet steps ends synced. -/
theorem synced_of_quiet {q : MecQueue} {h : ListHeap K} (hq : q.Coherent) (hnil : q.queued = [])
    (hquiet : ∀ tr₁ a e tr₂ s₁, tr = tr₁ ++ (a, e) :: tr₂ → Run snapStep (start h q) tr₁ s₁ →
      s₁.Quiet a) :
    ∀ {tr₁ tr₂ s₁}, tr = tr₁ ++ tr₂ → Run snapStep (start h q) tr₁ s₁ → Synced tr₁ s₁ := by
  intro tr₁
  induction tr₁ using List.reverseRecOn with
  | nil =>
    intro tr₂ s₁ _ hrun
    cases hrun
    show [] = [] ++ q.queued.map _
    rw [hnil]; rfl
  | append_singleton tr₁ x ih =>
    intro tr₂ s₁ htr hrun
    obtain ⟨a, e⟩ := x
    obtain ⟨s₀, hrun₀, hlast⟩ := hrun.split
    rw [List.append_assoc, List.singleton_append] at htr
    cases hlast with
    | cons hstep hnil =>
      cases hnil
      exact (ih htr hrun₀).step (hrun₀.invariant (I := fun s => s.queue.Coherent)
        snapStep_coherent hq) (hquiet _ _ _ _ _ htr hrun₀) hstep

end SnapSys

open SnapSys in
/-- **When popped messages are snapshots.** Along a run from a created queue
the promise is kept, in every state reached and by every pop that may follow
there, if and only if every step is quiet: no iteration changes a list that a
queued message points to. -/
theorem got_sent_iff_quiet {ok : Bool} {capacity : Int} {q : MecQueue}
    (hq : mecQueueCreate ok capacity = some q) {h : ListHeap K}
    {tr : List (SnapAct K × SnapReply K)} {s : SnapSys K}
    (hrun : Run snapStep (start h q) tr s) :
    (∀ tr₁ tr₂ s₁, tr = tr₁ ++ tr₂ → Run snapStep (start h q) tr₁ s₁ →
      got tr₁ <+: sent tr₁ ∧ s₁.Keeps tr₁) ↔
    (∀ tr₁ a e tr₂ s₁, tr = tr₁ ++ (a, e) :: tr₂ → Run snapStep (start h q) tr₁ s₁ →
      s₁.Quiet a) := by
  obtain ⟨hcoh, hnil, -⟩ := mecQueueCreate_eq hq
  constructor
  · intro hkeep tr₁ a e tr₂ s₁ htr hrun₁
    obtain ⟨s₁', hrun₁', hrest⟩ := (htr ▸ hrun).split
    obtain rfl := hrun₁.det hrun₁'
    have hsync : Synced tr₁ s₁ :=
      (synced_iff_keeps hcoh hnil hrun₁).mpr (hkeep tr₁ ((a, e) :: tr₂) s₁ htr hrun₁).2
    cases hrest with
    | @cons _ s₂ _ _ _ _ hstep _ =>
      have hrun₂ := hrun₁.snoc hstep
      have hsync₂ : Synced (tr₁ ++ [(a, e)]) s₂ :=
        (synced_iff_keeps hcoh hnil hrun₂).mpr
          (hkeep _ tr₂ s₂ (by rw [htr, List.append_assoc]; rfl) hrun₂).2
      exact hsync.quiet (hrun₁.invariant (I := fun s => s.queue.Coherent) snapStep_coherent hcoh)
        hstep hsync₂
  · intro hquiet tr₁ tr₂ s₁ htr hrun₁
    have hsync := synced_of_quiet hcoh hnil hquiet htr hrun₁
    exact ⟨by rw [hsync]; exact List.prefix_append _ _,
      (synced_iff_keeps hcoh hnil hrun₁).mp hsync⟩

/-- What one iteration of the mock video thread adds at second `sec`. -/
def videoTarget (sec : Int) : TargetTrack Nat :=
  ⟨1000, .vehicle, ⟨39, 116, 0⟩, 15, 90, 1, ⟨sec, 0⟩, 0⟩

/-- The heap with the video thread's list, and an iteration of the thread. -/
def videoHeap : ListHeap Nat := (trackListNew (some fun _ => videoTarget 0) 10 .empty).2

def videoIteration (sec : Int) : SnapAct Nat :=
  .iterate 0 [.clear, .add none (videoTarget sec)] 1 ⟨sec, 0⟩

/-- Two iterations of the video thread and a pop: the first message pushed is
popped with the second iteration's track. -/
theorem popped_not_as_pushed :
    ¬ ∀ (q : MecQueue) (h : ListHeap Nat) (tr : List (SnapAct Nat × SnapReply Nat))
        (s : SnapSys Nat), mecQueueCreate true 50 = some q →
        Run snapStep (SnapSys.start h q) tr s → got tr <+: sent tr := by
  intro hclaim
  have hrun : Run snapStep (SnapSys.start videoHeap ((mecQueueCreate true 50).get rfl))
      [(videoIteration 1, .pushed 0 [videoTarget 1]), (videoIteration 2, .pushed 0 [videoTarget 2]),
        (.pop 500, .popped [videoTarget 2])] _ :=
    .cons rfl (.cons rfl (.cons rfl (.nil _)))
  have hpre : [[videoTarget 2]] <+: [[videoTarget 1], [videoTarget 2]] :=
    hclaim _ _ _ _ (Option.some_get rfl).symm hrun
  revert hpre
  decide

open SnapSys in
theorem got_sent_iff_quiet_video : ∃ (tr : List (SnapAct Nat × SnapReply Nat)) (s : SnapSys Nat),
    got tr = [[videoTarget 1]] ∧ got tr <+: sent tr ∧ s.Keeps tr := by
  have hrun : Run snapStep (start videoHeap ((mecQueueCreate true 50).get rfl))
      [(videoIteration 1, .pushed 0 [videoTarget 1]), (.pop 500, .popped [videoTarget 1])] _ :=
    .cons rfl (.cons rfl (.nil _))
  refine ⟨_, _, rfl, (got_sent_iff_quiet (Option.some_get rfl).symm hrun).mpr ?_ _ [] _
    (List.append_nil _).symm hrun⟩
  rintro (_ | ⟨x, _ | ⟨y, tr₁⟩⟩) a e tr₂ s₁ htr hrun₁
  · cases hrun₁
    cases htr
    intro hmem
    exact absurd hmem (by decide)
  · cases htr
    trivial
  · simp at htr

end Mec
