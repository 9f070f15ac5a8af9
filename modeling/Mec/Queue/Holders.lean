import Mathlib.Data.List.Nodup
import Mec.Lib.Lts
import Mec.Lib.RefCount
import Mec.Queue.Basic

/-!
# Reference counts equal holders

The references to a track list are held by its producer (from
`track_list_create`), by the slots of the queue's window (from
`mec_queue_push`) and by whoever popped a message and has not released it.
`holderStep` moves them about in any order. The heap accounts for them
(`Accounted`): every stored count is the number of holders, a list is freed
once and only with its last reference, and nothing touches a freed list.
-/

namespace Mec

open Lib.Lts Lib.RefCount

variable {K : Type}

namespace ListHeap

/-- The counts stored in the live lists. -/
def counts (h : ListHeap K) : ListPtr → Option Int := fun p => (h.cell p).map TrackList.refCount

/-- The heap accounts for the references `refs`. -/
structure Accounted (h : ListHeap K) (refs : List ListPtr) : Prop where
  counted : Counted h.counts refs
  fresh : ∀ p : Nat, h.next ≤ p → h.cell p = none
  freed : ∀ p : Nat, h.freed.count p = if p < h.next ∧ h.cell p = none then 1 else 0
  faultless : h.fault = false

variable {h : ListHeap K} {refs : List ListPtr} {p : Nat} {l : TrackList K}

theorem counts_of_cell (hl : h.cell p = some l) : h.counts p = some l.refCount := by
  simp [counts, hl]

theorem counts_write (h : ListHeap K) (p : ListPtr) (l : TrackList K) :
    (h.write p l).counts = Function.update h.counts p (some l.refCount) := by
  funext q
  by_cases hq : q = p
  · subst hq; simp [counts]
  · simp [counts, hq]

theorem counts_free (h : ListHeap K) (p : ListPtr) :
    (h.free p).counts = Function.update h.counts p none := by
  funext q
  by_cases hq : q = p
  · subst hq; simp [counts, free]
  · simp [counts, free, hq]

theorem Accounted.perm {refs' : List ListPtr} (ha : h.Accounted refs) (hp : refs.Perm refs') :
    h.Accounted refs' :=
  { ha with counted := ha.counted.perm hp }

theorem Accounted.cell_of_mem (ha : h.Accounted refs) (hp : p ∈ refs) :
    ∃ l, h.cell p = some l := by
  obtain ⟨n, hn⟩ := ha.counted.exists_of_mem hp
  obtain ⟨l, hl, -⟩ := Option.map_eq_some_iff.mp hn
  exact ⟨l, hl⟩

theorem Accounted.lt_next (ha : h.Accounted refs) (hp : h.cell p = some l) : p < h.next := by
  by_contra hge
  rw [ha.fresh p (Nat.le_of_not_lt hge)] at hp
  cases hp

theorem Accounted.write {refs' : List ListPtr} {l' : TrackList K} (ha : h.Accounted refs)
    (hl : h.cell p = some l)
    (hc : Counted (Function.update h.counts p (some l'.refCount)) refs') :
    (h.write p l').Accounted refs' where
  counted := by rw [counts_write]; exact hc
  fresh q hq := by
    have hne : q ≠ p := fun e => by
      subst e
      rw [ha.fresh q hq] at hl
      cases hl
    rw [write_cell_ne h hne]
    exact ha.fresh q hq
  freed q := by
    show h.freed.count q = if q < h.next ∧ (h.write p l').cell q = none then 1 else 0
    rw [ha.freed q]
    by_cases hqp : q = p
    · subst hqp; simp [hl]
    · simp [hqp]
  faultless := ha.faultless

theorem Accounted.retain (ha : h.Accounted refs) (hp : p ∈ refs) :
    (trackListRetain h (some p)).Accounted (p :: refs) := by
  obtain ⟨l, hl⟩ := ha.cell_of_mem hp
  rw [trackListRetain_live hl]
  exact ha.write hl (ha.counted.retain (counts_of_cell hl))

theorem Accounted.release (ha : h.Accounted (p :: refs)) :
    (trackListRelease h (some p)).Accounted refs := by
  obtain ⟨l, hl⟩ := ha.cell_of_mem List.mem_cons_self
  by_cases hn : 1 < l.refCount
  · rw [trackListRelease_keep hl hn]
    exact ha.write hl (ha.counted.release (counts_of_cell hl) hn)
  · -- the last reference: the list is freed, for the first and only time
    rw [trackListRelease_free hl (by omega)]
    refine ⟨by rw [counts_free]; exact ha.counted.free (counts_of_cell hl) (by omega), ?_, ?_,
      ha.faultless⟩
    · intro q hq
      by_cases hqp : q = p
      · subst hqp; simp [free]
      · simpa [free, hqp] using ha.fresh q hq
    · intro q
      show (p :: h.freed).count q = if q < h.next ∧ (h.free p).cell q = none then 1 else 0
      by_cases hqp : q = p
      · subst hqp
        rw [List.count_cons_self, ha.freed q]
        simp [free, hl, ha.lt_next hl]
      · rw [List.count_cons_of_ne (Ne.symm hqp), ha.freed q]
        simp [free, hqp]

theorem Accounted.releaseAll {msgs : List MecMsg} :
    ∀ {h : ListHeap K}, h.Accounted (msgs.filterMap MecMsg.tracks ++ refs) →
      (msgs.foldl (fun h msg => trackListRelease h msg.tracks) h).Accounted refs := by
  induction msgs with
  | nil => intro h ha; exact ha
  | cons msg msgs ih =>
    intro h ha
    rw [List.foldl_cons]
    cases ht : msg.tracks with
    | none =>
      rw [List.filterMap_cons_none ht] at ha
      exact ih ha
    | some p =>
      rw [List.filterMap_cons_some ht] at ha
      exact ih ha.release

theorem Accounted.create (ha : h.Accounted refs) (fresh : Fresh K) (cap : Int) :
    (∃ l, trackListCreate fresh cap = some l ∧
      trackListNew fresh cap h = (some h.next, { h.write h.next l with next := h.next + 1 }) ∧
      (trackListNew fresh cap h).2.Accounted (h.next :: refs)) ∨
    trackListNew fresh cap h = (none, h) := by
  cases hc : trackListCreate fresh cap with
  | none => exact .inr (by simp only [trackListNew, hc])
  | some l =>
    have hdead : h.cell h.next = none := ha.fresh _ (Nat.le_refl _)
    have href : l.refCount = 1 := (trackListCreate_eq hc).2.2
    have he : trackListNew fresh cap h =
        (some h.next, { h.write h.next l with next := h.next + 1 }) := by
      simp only [trackListNew, hc]
    refine .inl ⟨l, rfl, he, ?_⟩
    rw [he]
    refine ⟨?_, fun q hq => ?_, fun q => ?_, ha.faultless⟩
    · show Counted (h.write h.next l).counts (h.next :: refs)
      rw [counts_write, href]
      exact ha.counted.alloc (by simp [counts, hdead])
    · have hq' : h.next + 1 ≤ q := hq
      show (h.write h.next l).cell q = none
      rw [write_cell_ne h (show q ≠ h.next by omega)]
      exact ha.fresh q (by omega)
    · show h.freed.count q = if q < h.next + 1 ∧ (h.write h.next l).cell q = none then 1 else 0
      rw [ha.freed q]
      by_cases hq : q = h.next
      · subst hq; simp
      · rw [write_cell_ne h hq]
        congr 1
        simp only [eq_iff_iff, and_congr_left_iff]
        intro _
        omega

end ListHeap

/-- Who holds what: the producers' references in `owners`, the popped and not
yet released ones in `held`; the queue is `none` once destroyed. -/
structure Holders (K : Type) where
  heap : ListHeap K
  queue : Option MecQueue
  owners : List ListPtr
  held : List ListPtr

inductive HolderAct (K : Type) where
  | create (fresh : Fresh K) (capacity : Int)
  | push (msg : MecMsg)
  | pop (timeoutMs : Int)
  | releaseOwned (p : ListPtr)
  | releaseHeld (p : ListPtr)
  | destroy

namespace Holders

/-- The references held by the slots of the window. -/
def slots (s : Holders K) : List ListPtr := (s.queue.map MecQueue.pointers).getD []

/-- Every reference held. -/
def refs (s : Holders K) : List ListPtr := s.owners ++ (s.slots ++ s.held)

def start (q : MecQueue) : Holders K :=
  { heap := .empty, queue := some q, owners := [], held := [] }

end Holders

/-- One call. A push names a list its caller holds a reference to, a release
gives up a reference its caller holds, and nobody uses a destroyed queue. -/
def holderStep (s : Holders K) : HolderAct K → Option (Holders K × Unit)
  | .create fresh capacity =>
    match trackListNew fresh capacity s.heap with
    | (none, _) => some (s, ())
    | (some p, h) => some ({ s with heap := h, owners := p :: s.owners }, ())
  | .push msg =>
    match s.queue with
    | none => none
    | some q =>
      if ∀ p ∈ msg.tracks, p ∈ s.owners ∨ p ∈ s.held then
        let r := mecQueuePush s.heap q msg
        some ({ s with heap := r.2.1, queue := some r.2.2 }, ())
      else none
  | .pop timeoutMs =>
    match s.queue with
    | none => none
    | some q =>
      match mecQueuePop timeoutMs q with
      | .took msg q' => some ({ s with queue := some q', held := msg.tracks.toList ++ s.held }, ())
      | .failed => some (s, ())
      | .waits => some (s, ())
  | .releaseOwned p =>
    if p ∈ s.owners then
      some ({ s with heap := trackListRelease s.heap (some p), owners := s.owners.erase p }, ())
    else none
  | .releaseHeld p =>
    if p ∈ s.held then
      some ({ s with heap := trackListRelease s.heap (some p), held := s.held.erase p }, ())
    else none
  | .destroy =>
    match s.queue with
    | none => none
    | some q => some ({ s with heap := mecQueueDestroy s.heap q, queue := none }, ())

namespace Holders

/-- The invariant: the heap accounts for every reference, the queue is
coherent, and no producer owns a list twice. -/
structure Sound (s : Holders K) : Prop where
  accounted : s.heap.Accounted s.refs
  coherent : ∀ q, s.queue = some q → q.Coherent
  owners_nodup : s.owners.Nodup

variable {s : Holders K}

theorem refs_of_queue {q : MecQueue} (hq : s.queue = some q) :
    s.refs = s.owners ++ (q.pointers ++ s.held) := by simp [refs, slots, hq]

theorem Sound.create (hs : s.Sound) (fresh : Fresh K) (cap : Int) {t : Holders K}
    (ht : holderStep s (.create fresh cap) = some (t, ())) : t.Sound := by
  simp only [holderStep] at ht
  rcases hs.accounted.create fresh cap with ⟨l, -, he, ha⟩ | he
  · rw [he] at ha ht
    cases ht
    refine ⟨ha, hs.coherent, List.nodup_cons.mpr ⟨fun hmem => ?_, hs.owners_nodup⟩⟩
    obtain ⟨l', hl'⟩ := hs.accounted.cell_of_mem (List.mem_append_left _ hmem)
    have := hs.accounted.lt_next hl'
    omega
  · rw [he] at ht
    cases ht
    exact hs

theorem Sound.push (hs : s.Sound) (msg : MecMsg) {t : Holders K}
    (ht : holderStep s (.push msg) = some (t, ())) : t.Sound := by
  simp only [holderStep] at ht
  cases hq : s.queue with
  | none => rw [hq] at ht; cases ht
  | some q =>
    simp only [hq] at ht
    split at ht
    · next hheld =>
      cases hp : msg.tracks with
      | none =>
        simp only [mecQueuePush, hp] at ht
        cases ht
        exact ⟨by simpa [refs, slots, hq] using hs.accounted, fun q' hq' => by
          cases hq'; exact hs.coherent q hq, hs.owners_nodup⟩
      | some p =>
        rcases mecQueuePush_cases s.heap q hp with ⟨hroom, he⟩ | ⟨-, he⟩
        · rw [he] at ht
          cases ht
          refine ⟨?_, fun q' hq' => by
            cases hq'; exact (hs.coherent q hq).enqueue hroom msg, hs.owners_nodup⟩
          have hmem : p ∈ s.refs := by
            rw [refs_of_queue hq]
            rcases hheld p hp with h | h
            · exact List.mem_append_left _ h
            · exact List.mem_append_right _ (List.mem_append_right _ h)
          refine (hs.accounted.retain hmem).perm ?_
          have hptr := (hs.coherent q hq).pointers_enqueue hroom hp
          rw [refs_of_queue hq, refs_of_queue rfl, hptr, List.append_assoc]
          have hslot : (p :: (q.pointers ++ s.held)).Perm (q.pointers ++ p :: s.held) :=
            List.perm_middle.symm
          exact List.perm_middle.symm.trans (hslot.append_left s.owners)
        · rw [he] at ht
          cases ht
          exact ⟨by simpa [refs, slots, hq] using hs.accounted, fun q' hq' => by
            cases hq'; exact hs.coherent q hq, hs.owners_nodup⟩
    · cases ht

theorem Sound.pop (hs : s.Sound) (timeoutMs : Int) {t : Holders K}
    (ht : holderStep s (.pop timeoutMs) = some (t, ())) : t.Sound := by
  simp only [holderStep] at ht
  cases hq : s.queue with
  | none => rw [hq] at ht; cases ht
  | some q =>
    simp only [hq] at ht
    rcases mecQueuePop_cases (hs.coherent q hq) timeoutMs with
      ⟨msg, q', hpop, hq', hcoh⟩ | hpop | hpop
    · rw [hpop] at ht
      cases ht
      refine ⟨hs.accounted.perm ?_, (fun r hr => by cases hr; exact hcoh), hs.owners_nodup⟩
      -- the front slot's reference passes to the caller
      have hptr := MecQueue.pointers_eq_append hq'
      rw [refs_of_queue hq, refs_of_queue rfl, hptr, List.append_assoc]
      exact (List.perm_append_comm_assoc _ _ _).append_left s.owners
    · rw [hpop] at ht
      cases ht
      exact hs
    · rw [hpop] at ht
      cases ht
      exact hs

theorem Sound.releaseOwned (hs : s.Sound) (p : ListPtr) {t : Holders K}
    (ht : holderStep s (.releaseOwned p) = some (t, ())) : t.Sound := by
  simp only [holderStep] at ht
  split at ht
  · next hp =>
    cases ht
    refine ⟨(hs.accounted.perm ?_).release, hs.coherent, hs.owners_nodup.erase p⟩
    exact (List.perm_cons_erase hp).append_right _
  · cases ht

theorem Sound.releaseHeld (hs : s.Sound) (p : ListPtr) {t : Holders K}
    (ht : holderStep s (.releaseHeld p) = some (t, ())) : t.Sound := by
  simp only [holderStep] at ht
  split at ht
  · next hp =>
    cases ht
    refine ⟨(hs.accounted.perm ?_).release, hs.coherent, hs.owners_nodup⟩
    have h1 : (s.slots ++ s.held).Perm (p :: (s.slots ++ s.held.erase p)) :=
      ((List.perm_cons_erase hp).append_left _).trans List.perm_middle
    exact (h1.append_left _).trans List.perm_middle
  · cases ht

theorem Sound.destroy (hs : s.Sound) {t : Holders K}
    (ht : holderStep s .destroy = some (t, ())) : t.Sound := by
  simp only [holderStep] at ht
  cases hq : s.queue with
  | none => rw [hq] at ht; cases ht
  | some q =>
    simp only [hq] at ht
    cases ht
    refine ⟨?_, (fun q' hq' => by cases hq'), hs.owners_nodup⟩
    have ha := hs.accounted
    rw [refs_of_queue hq] at ha
    rw [mecQueueDestroy_eq]
    exact ListHeap.Accounted.releaseAll (ha.perm (List.perm_append_comm_assoc _ _ _))

theorem Sound.step (s : Holders K) (a : HolderAct K) (t : Holders K) (e : Unit) (hs : s.Sound)
    (ht : holderStep s a = some (t, e)) : t.Sound := by
  cases a with
  | create fresh cap => exact hs.create fresh cap ht
  | push msg => exact hs.push msg ht
  | pop timeoutMs => exact hs.pop timeoutMs ht
  | releaseOwned p => exact hs.releaseOwned p ht
  | releaseHeld p => exact hs.releaseHeld p ht
  | destroy => exact hs.destroy ht

theorem sound_start {q : MecQueue} (hq : q.Coherent) (hnil : q.queued = []) :
    (start q : Holders K).Sound where
  accounted := by
    have hrefs : (start q : Holders K).refs = [] := by
      rw [refs_of_queue rfl, MecQueue.pointers, hnil]; rfl
    rw [hrefs]
    exact ⟨⟨(fun p n h => by cases h), fun p _ => rfl⟩, fun p _ => rfl, fun p => by
      simp [start, ListHeap.empty], rfl⟩
  coherent q' hq' := by cases hq'; exact hq
  owners_nodup := List.nodup_nil

/-- How many slots of the window point to `p`. -/
def slotCount (s : Holders K) (p : ListPtr) : Nat :=
  match s.queue with
  | none => 0
  | some q => q.queued.countP fun msg => msg.tracks = some p

def holders (s : Holders K) (p : ListPtr) : Nat :=
  s.owners.count p + s.slotCount p + s.held.count p

theorem count_refs (s : Holders K) (p : ListPtr) : s.refs.count p = s.holders p := by
  have hslots : s.slots.count p = s.slotCount p := by
    unfold slots slotCount
    cases s.queue with
    | none => rfl
    | some q =>
      simp only [Option.map_some, Option.getD_some, MecQueue.pointers]
      rw [List.count_eq_countP, List.countP_filterMap]
      congr 1
      funext msg
      cases h : msg.tracks with
      | none => simp
      | some r => simp; rfl
  rw [refs, List.count_append, List.count_append, hslots, holders, Nat.add_assoc]

end Holders

/-- **Reference counts equal holders.** After every run a live list's count is
the number of its owners, slots and popped references, and a created list is
live exactly while that number is positive and has been freed exactly once
when it is not. No holder and no slot refers to a list that is not live and
nothing touched a freed list; once every holder has released and the queue is
destroyed, every list is freed. -/
theorem refCount_eq_holders {ok : Bool} {capacity : Int} {q : MecQueue}
    (hq : mecQueueCreate ok capacity = some q) {tr : List (HolderAct K × Unit)} {s : Holders K}
    (hrun : Run holderStep (.start q) tr s) :
    (∀ p l, s.heap.cell p = some l → l.refCount = s.holders p) ∧
    (∀ p, s.owners.count p ≤ 1) ∧
    (∀ p, p < s.heap.next →
      ((s.heap.cell p).isSome ↔ 0 < s.holders p) ∧
      s.heap.freed.count p = if s.holders p = 0 then 1 else 0) ∧
    (∀ p, 0 < s.holders p → p < s.heap.next ∧ (s.heap.cell p).isSome) ∧
    s.heap.fault = false ∧
    (s.owners = [] → s.held = [] → s.queue = none →
      ∀ p, s.heap.cell p = none ∧ (p < s.heap.next → s.heap.freed.count p = 1)) := by
  obtain ⟨hcoh, hnil, -⟩ := mecQueueCreate_eq hq
  have hs : s.Sound := hrun.invariant Holders.Sound.step (Holders.sound_start hcoh hnil)
  have ha := hs.accounted
  have hlive : ∀ p, (s.heap.cell p).isSome ↔ 0 < s.holders p := by
    intro p
    rw [← s.count_refs]
    constructor
    · intro h
      obtain ⟨l, hl⟩ := Option.isSome_iff_exists.mp h
      obtain ⟨he, hpos⟩ := ha.counted.live p _ (ListHeap.counts_of_cell hl)
      omega
    · intro h
      obtain ⟨l, hl⟩ := ha.cell_of_mem (List.count_pos_iff.mp h)
      rw [hl]; rfl
  have hfreed : ∀ p, p < s.heap.next →
      s.heap.freed.count p = if s.holders p = 0 then 1 else 0 := by
    intro p hp
    rw [ha.freed p]
    have := hlive p
    cases hc : s.heap.cell p with
    | none => rw [hc] at this; simp at this; simp [hp, this]
    | some l => rw [hc] at this; simp at this; simp [Nat.pos_iff_ne_zero.mp this]
  refine ⟨?_, fun p => List.nodup_iff_count_le_one.mp hs.owners_nodup p,
    fun p hp => ⟨hlive p, hfreed p hp⟩, ?_, ha.faultless, ?_⟩
  · intro p l hl
    rw [← s.count_refs]
    exact (ha.counted.live p _ (ListHeap.counts_of_cell hl)).1
  · intro p hp
    have hc := (hlive p).mpr hp
    obtain ⟨l, hl⟩ := Option.isSome_iff_exists.mp hc
    exact ⟨ha.lt_next hl, hc⟩
  · intro ho hh hq p
    have h0 : s.holders p = 0 := by simp [Holders.holders, Holders.slotCount, ho, hh, hq]
    have hd : s.heap.cell p = none := by
      have := hlive p
      rw [h0] at this
      simpa using this
    exact ⟨hd, fun hp => by rw [hfreed p hp, h0]; rfl⟩

theorem refCount_eq_holders_shutdown : ∃ s : Holders Nat,
    s.heap.cell 0 = none ∧ (0 < s.heap.next → s.heap.freed.count 0 = 1) := by
  have hrun : Run (holderStep (K := Nat)) (.start ((mecQueueCreate true 1).get rfl))
      [(.create (some fun _ => ⟨0, .vehicle, ⟨0, 0, 0⟩, 0, 0, 0, ⟨0, 0⟩, 0⟩) 2, ()),
        (.push ⟨1, some 0, ⟨0, 0⟩⟩, ()), (.push ⟨1, some 0, ⟨0, 0⟩⟩, ()), (.pop 0, ()),
        (.push ⟨1, some 0, ⟨0, 0⟩⟩, ()), (.releaseOwned 0, ()), (.destroy, ()),
        (.releaseHeld 0, ())] _ :=
    .cons rfl (.cons rfl (.cons rfl (.cons rfl (.cons rfl (.cons rfl (.cons rfl
      (.cons rfl (.nil _))))))))
  obtain ⟨-, -, -, -, -, hend⟩ := refCount_eq_holders (Option.some_get rfl).symm hrun
  exact ⟨_, hend rfl rfl rfl 0⟩

end Mec
