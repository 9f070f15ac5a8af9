import Mec.Queue.Holders
import Mec.Queue.Snapshot
import Mec.Radar.Convert

/-!
# What the radar thread delivers

`radar_processing_thread` adds every decoded detection to `output_tracks` and
pushes that list; it never clears it. Every message it queues is the same
pointer, so a message that reaches `fusion_processor_add_tracks` brings all
detections of the list, those of earlier messages included. The first detection
of all is in every one of them (`RadarInv.started`), hence each radar message
after the first delivers something twice.
-/

namespace Mec

open Lib.Lts

variable {K : Type}

/-- The lists, the queue, and the message the main loop has in hand. `log` and
`added` are history variables that no step reads: the detections decoded so
far, and the numbers of those in the radar's list, in its order. -/
structure RadarSys (K : Type) where
  heap : ListHeap K
  queue : MecQueue
  inHand : Option MecMsg
  log : List (TargetTrack K)
  added : List Nat

/-- An iteration of the radar thread that decoded a detection (`old` is what the
local `track` held), an iteration of another producer, and the two halves of an
iteration of the main loop. -/
inductive RadarAct (K : Type) where
  | decoded (detection : RadarDetection K) (old : TargetTrack K) (fresh : Fresh K)
  | produced (list : ListPtr) (ops : List (ListOp K)) (sensorId : Int) (timestamp : Timeval)
  | pop (timeoutMs : Int)
  | feed

/-- The push's code; of a feed, the tracks handed to
`fusion_processor_add_tracks` and which decoded detections they are. -/
inductive RadarReply (K : Type) where
  | pushed (code : Int)
  | nothing
  | fed (list : Option ListPtr) (tracks : List (TargetTrack K)) (which : List Nat)

namespace RadarSys

def start (h : ListHeap K) (q : MecQueue) : RadarSys K :=
  { heap := h, queue := q, inHand := none, log := [], added := [] }

/-- The references held by the queue's slots and by the main loop. -/
def inFlight (s : RadarSys K) : List ListPtr :=
  s.queue.pointers ++ (s.inHand.bind MecMsg.tracks).toList

/-- Nothing is on its way any more. -/
def Drained (s : RadarSys K) : Prop := s.queue.queued = [] ∧ s.inHand = none

end RadarSys

section Step

variable [Field K] [LinearOrder K]

/-- One step beside the list `out` of the radar processor; the other producers'
lists are in `owners`. -/
def radarStep (libm : Libm K) (config : RadarConfig) (out : ListPtr) (owners : List ListPtr)
    (s : RadarSys K) : RadarAct K → Option (RadarSys K × RadarReply K)
  | .decoded detection old fresh =>
    match s.heap.cell out with
    | none => none
    | some l =>
      let (code, track) := radarConvertToTrack libm detection config old
      if code ≠ 0 then some (s, .nothing)
      else
        let (ret, l) := trackListAdd fresh l track
        let r := mecQueuePush (s.heap.write out l) s.queue
          { sensorId := config.radarId, tracks := some out, timestamp := detection.timestamp }
        some ({ s with
          heap := r.2.1
          queue := r.2.2
          log := s.log ++ [track]
          added := if ret = 0 then s.added ++ [s.log.length] else s.added }, .pushed r.1)
  | .produced list ops sensorId timestamp =>
    if list ∈ owners ∧ list ≠ out then
      match s.heap.cell list with
      | none => none
      | some l =>
        let r := mecQueuePush (s.heap.write list (runOps l ops)) s.queue
          { sensorId, tracks := some list, timestamp }
        some ({ s with heap := r.2.1, queue := r.2.2 }, .nothing)
    else none
  | .pop timeoutMs =>
    match s.inHand with
    | some _ => none
    | none =>
      match mecQueuePop timeoutMs s.queue with
      | .took msg q => some ({ s with queue := q, inHand := some msg }, .nothing)
      | .failed => some (s, .nothing)
      | .waits => some (s, .nothing)
  | .feed =>
    match s.inHand with
    | none => none
    | some msg =>
      some ({ s with heap := trackListRelease s.heap msg.tracks, inHand := none },
        .fed msg.tracks (carried s.heap msg) (if msg.tracks = some out then s.added else []))

end Step

/-! ## The two threads' steps -/

namespace ListHeap

theorem Accounted.edit {h : ListHeap K} {refs : List ListPtr} {p : ListPtr} {l l' : TrackList K}
    (ha : h.Accounted refs) (hl : h.cell p = some l) (href : l'.refCount = l.refCount) :
    (h.write p l').Accounted refs := by
  refine ha.write hl ?_
  rw [href, Function.update_eq_self_iff.mpr (counts_of_cell hl).symm]
  exact ha.counted

end ListHeap

theorem runOps_refCount (l : TrackList K) (ops : List (ListOp K)) :
    (runOps l ops).refCount = l.refCount := by
  unfold runOps
  induction ops generalizing l with
  | nil => rfl
  | cons op ops ih =>
    rw [List.foldl_cons, ih]
    cases op with
    | clear => rfl
    | add fresh track => exact trackListAdd_refCount fresh l track

section Inversion

variable [Field K] [LinearOrder K] {libm : Libm K} {config : RadarConfig} {out : ListPtr}
  {owners : List ListPtr} {s t : RadarSys K} {e : RadarReply K}

/-- A push of the list `p`, just edited to `l'`, on the heap and the queue. -/
def Pushed (s t : RadarSys K) (p : ListPtr) (l' : TrackList K) : Prop :=
  ∃ msg : MecMsg, msg.tracks = some p ∧ s.queue.count < s.queue.capacity ∧
    t.heap = trackListRetain (s.heap.write p l') (some p) ∧ t.queue = s.queue.enqueue msg

def Refused (s t : RadarSys K) (p : ListPtr) (l' : TrackList K) : Prop :=
  t.heap = s.heap.write p l' ∧ t.queue = s.queue

theorem radarStep_decoded {detection : RadarDetection K} {old : TargetTrack K} {fresh : Fresh K}
    (h : radarStep libm config out owners s (.decoded detection old fresh) = some (t, e)) :
    ∃ l l' track, s.heap.cell out = some l ∧ t.log = s.log ++ [track] ∧ t.inHand = s.inHand ∧
      l'.refCount = l.refCount ∧ l.capacity ≤ l'.capacity ∧
      ((l'.contents = l.contents ++ [track] ∧ t.added = s.added ++ [s.log.length]) ∨
        (l'.contents = l.contents ∧ ¬l.count < l.capacity ∧ t.added = s.added)) ∧
      ((e = .pushed 0 ∧ Pushed s t out l') ∨ (e = .pushed (-1) ∧ Refused s t out l')) := by
  simp only [radarStep] at h
  cases hl : s.heap.cell out with
  | none => rw [hl] at h; cases h
  | some l =>
    simp only [hl] at h
    obtain ⟨track, hconv⟩ : ∃ track, radarConvertToTrack libm detection config old = (0, track) :=
      ⟨_, rfl⟩
    rw [hconv] at h
    simp only [ne_eq, not_true_eq_false, if_false] at h
    have hcap := trackListAdd_capacity fresh l track
    have hadd : ((trackListAdd fresh l track).2.contents = l.contents ++ [track] ∧
          t.added = s.added ++ [s.log.length]) ∨
        ((trackListAdd fresh l track).2.contents = l.contents ∧ ¬l.count < l.capacity ∧
          t.added = s.added) := by
      have hadded : t.added =
          if (trackListAdd fresh l track).1 = 0 then s.added ++ [s.log.length] else s.added := by
        rw [← (Prod.mk.inj (Option.some.inj h)).1]
      rcases trackListAdd_cases fresh l track with ⟨hret, hcont⟩ | heq
      · exact .inl ⟨hcont, by rw [hadded, if_pos hret]⟩
      · refine .inr ⟨by rw [heq], fun hroom => ?_, by rw [hadded, heq]; rfl⟩
        rw [trackListAdd_of_lt hroom] at heq
        have hret : (0 : Int) = -1 := congrArg Prod.fst heq
        omega
    refine ⟨l, (trackListAdd fresh l track).2, track, rfl, ?_, ?_,
      trackListAdd_refCount fresh l track, hcap, hadd, ?_⟩
    · rw [← (Prod.mk.inj (Option.some.inj h)).1]
    · rw [← (Prod.mk.inj (Option.some.inj h)).1]
    · have hmsg : (⟨config.radarId, some out, detection.timestamp⟩ : MecMsg).tracks = some out := rfl
      rcases mecQueuePush_cases (s.heap.write out (trackListAdd fresh l track).2) s.queue hmsg with
        ⟨hroom, he⟩ | ⟨-, he⟩
      · rw [he] at h
        cases h
        exact .inl ⟨rfl, _, hmsg, hroom, rfl, rfl⟩
      · rw [he] at h
        cases h
        exact .inr ⟨rfl, rfl, rfl⟩

theorem radarStep_produced {list : ListPtr} {ops : List (ListOp K)} {sensorId : Int}
    {timestamp : Timeval}
    (h : radarStep libm config out owners s (.produced list ops sensorId timestamp) =
      some (t, e)) :
    ∃ l, list ∈ owners ∧ list ≠ out ∧ s.heap.cell list = some l ∧ t.log = s.log ∧
      t.added = s.added ∧ t.inHand = s.inHand ∧ e = .nothing ∧
      (Pushed s t list (runOps l ops) ∨ Refused s t list (runOps l ops)) := by
  simp only [radarStep] at h
  split at h
  · next hown =>
    cases hl : s.heap.cell list with
    | none => rw [hl] at h; cases h
    | some l =>
      simp only [hl] at h
      have hmsg : (⟨sensorId, some list, timestamp⟩ : MecMsg).tracks = some list := rfl
      rcases mecQueuePush_cases (s.heap.write list (runOps l ops)) s.queue hmsg with
        ⟨hroom, he⟩ | ⟨-, he⟩
      · rw [he] at h
        cases h
        exact ⟨l, hown.1, hown.2, rfl, rfl, rfl, rfl, rfl, .inl ⟨_, hmsg, hroom, rfl, rfl⟩⟩
      · rw [he] at h
        cases h
        exact ⟨l, hown.1, hown.2, rfl, rfl, rfl, rfl, rfl, .inr ⟨rfl, rfl⟩⟩
  · cases h

theorem radarStep_pop {timeoutMs : Int} (hcoh : s.queue.Coherent)
    (h : radarStep libm config out owners s (.pop timeoutMs) = some (t, e)) :
    e = .nothing ∧ ((∃ msg q, s.inHand = none ∧ s.queue.queued = msg :: q.queued ∧ q.Coherent ∧
      t = { s with queue := q, inHand := some msg }) ∨ t = s) := by
  simp only [radarStep] at h
  cases hhand : s.inHand with
  | some msg => rw [hhand] at h; cases h
  | none =>
    simp only [hhand] at h
    rcases mecQueuePop_cases hcoh timeoutMs with ⟨msg, q, hpop, hq, hcoh'⟩ | hpop | hpop
    · rw [hpop] at h
      cases h
      exact ⟨rfl, .inl ⟨msg, q, rfl, hq, hcoh', rfl⟩⟩
    · rw [hpop] at h
      cases h
      exact ⟨rfl, .inr rfl⟩
    · rw [hpop] at h
      cases h
      exact ⟨rfl, .inr rfl⟩

theorem radarStep_feed (h : radarStep libm config out owners s .feed = some (t, e)) :
    ∃ msg, s.inHand = some msg ∧
      t = { s with heap := trackListRelease s.heap msg.tracks, inHand := none } ∧
      e = .fed msg.tracks (carried s.heap msg)
        (if msg.tracks = some out then s.added else []) := by
  simp only [radarStep] at h
  cases hhand : s.inHand with
  | none => rw [hhand] at h; cases h
  | some msg =>
    simp only [hhand] at h
    cases h
    exact ⟨msg, rfl, rfl, rfl⟩

end Inversion

/-! ## The invariant -/

/-- The heap accounts for the references in flight, and the radar's list holds
the detections numbered in `added`, the very first one among them. -/
structure RadarInv (out : ListPtr) (owners : List ListPtr) (s : RadarSys K) : Prop where
  accounted : s.heap.Accounted (owners ++ s.inFlight)
  coherent : s.queue.Coherent
  listed : ∃ l, s.heap.cell out = some l ∧ 0 < l.capacity ∧
    l.contents.map some = s.added.map (s.log[·]?)
  nodup : s.added.Nodup
  bound : ∀ n ∈ s.added, n < s.log.length
  started : s.log ≠ [] → 0 ∈ s.added

section Handing

variable {out : ListPtr} {owners : List ListPtr} {s t : RadarSys K} {p : ListPtr}
  {l l' : TrackList K}

theorem Pushed.inFlight (hp : Pushed s t p l') (hcoh : s.queue.Coherent)
    (hhand : t.inHand = s.inHand) : t.inFlight.Perm (p :: s.inFlight) := by
  obtain ⟨msg, hmsg, hroom, -, hq⟩ := hp
  unfold RadarSys.inFlight
  rw [hq, hhand, hcoh.pointers_enqueue hroom hmsg, List.append_assoc]
  exact List.perm_middle

theorem Refused.inFlight (hp : Refused s t p l') (hhand : t.inHand = s.inHand) :
    t.inFlight = s.inFlight := by
  unfold RadarSys.inFlight
  rw [hp.2, hhand]

/-- An edit and a push, taken or refused, keep the accounts and touch no other
list. -/
theorem RadarInv.handed (hs : RadarInv out owners s) (hown : p ∈ owners)
    (hl : s.heap.cell p = some l) (href : l'.refCount = l.refCount)
    (hhand : t.inHand = s.inHand) (hp : Pushed s t p l' ∨ Refused s t p l') :
    t.heap.Accounted (owners ++ t.inFlight) ∧ t.queue.Coherent ∧
      (∃ n, t.heap.cell p = some (l'.setRef n)) ∧
      ∀ q, q ≠ p → t.heap.cell q = s.heap.cell q := by
  have hedit := hs.accounted.edit hl href
  rcases hp with hp | hp
  · have hperm := hp.inFlight hs.coherent hhand
    obtain ⟨msg, -, hroom, hheap, hq⟩ := hp
    have hcell : (s.heap.write p l').cell p = some l' := s.heap.write_cell_self p l'
    refine ⟨?_, by rw [hq]; exact hs.coherent.enqueue hroom msg, ?_, fun q hne => ?_⟩
    · rw [hheap]
      refine (hedit.retain (List.mem_append_left _ hown)).perm ?_
      exact List.perm_middle.symm.trans (hperm.symm.append_left owners)
    · exact ⟨l'.refCount + 1, by rw [hheap, trackListRetain_live hcell]; simp⟩
    · rw [hheap, trackListRetain_live hcell]
      simp [hne]
  · rw [hp.inFlight hhand, hp.1, hp.2]
    exact ⟨hedit, hs.coherent, ⟨l'.refCount, by simp [TrackList.setRef]⟩, fun q hne => by
      simp [hne]⟩

theorem RadarInv.numbers (hs : RadarInv out owners s) (track : TargetTrack K) :
    s.added.map ((s.log ++ [track])[·]?) = s.added.map (s.log[·]?) :=
  List.map_congr_left fun n hn => List.getElem?_append_left (hs.bound n hn)

theorem inFlight_popped {msg : MecMsg} {q : MecQueue} (hhand : s.inHand = none)
    (hq : s.queue.queued = msg :: q.queued) :
    ({ s with queue := q, inHand := some msg } : RadarSys K).inFlight.Perm s.inFlight := by
  unfold RadarSys.inFlight
  rw [MecQueue.pointers_eq_append hq, hhand]
  simpa using List.perm_append_comm

end Handing

section Steps

variable [Field K] [LinearOrder K] {libm : Libm K} {config : RadarConfig} {out : ListPtr}
  {owners : List ListPtr} {s t : RadarSys K} {e : RadarReply K}

theorem RadarInv.decoded (hs : RadarInv out owners s) (hown : out ∈ owners)
    {detection : RadarDetection K} {old : TargetTrack K} {fresh : Fresh K}
    (h : radarStep libm config out owners s (.decoded detection old fresh) = some (t, e)) :
    RadarInv out owners t := by
  obtain ⟨l, l', track, hl, hlog, hhand, href, hcap, hadd, hpush⟩ := radarStep_decoded h
  obtain ⟨l₀, hl₀, hpos, hlisted⟩ := hs.listed
  obtain rfl : l = l₀ := Option.some.inj (hl.symm.trans hl₀)
  have hcount : l.count = s.added.length := by
    rw [← l.contents_length, ← List.length_map (f := some), hlisted, List.length_map]
  obtain ⟨hacc, hcoh, ⟨n, hcell⟩, -⟩ :=
    hs.handed hown hl href hhand (hpush.imp And.right And.right)
  refine ⟨hacc, hcoh, ⟨l'.setRef n, hcell, by exact Nat.lt_of_lt_of_le hpos hcap, ?_⟩, ?_, ?_, ?_⟩
  · rw [TrackList.setRef_contents, hlog]
    rcases hadd with ⟨hcont, hadded⟩ | ⟨hcont, -, hadded⟩
    · rw [hcont, hadded, List.map_append, List.map_append, hs.numbers, hlisted]
      simp
    · rw [hcont, hadded, hs.numbers, hlisted]
  · rcases hadd with ⟨-, hadded⟩ | ⟨-, -, hadded⟩
    · rw [hadded]
      refine hs.nodup.append (List.nodup_singleton _) fun n hn hlast => ?_
      have := hs.bound n hn
      simp at hlast
      omega
    · rw [hadded]
      exact hs.nodup
  · intro n hn
    rw [hlog, List.length_append, List.length_singleton]
    rcases hadd with ⟨-, hadded⟩ | ⟨-, -, hadded⟩
    · rw [hadded, List.mem_append, List.mem_singleton] at hn
      rcases hn with hn | rfl
      · exact Nat.lt_succ_of_lt (hs.bound n hn)
      · omega
    · rw [hadded] at hn
      exact Nat.lt_succ_of_lt (hs.bound n hn)
  · intro _
    by_cases hnil : s.log = []
    · -- the first detection: an empty list has room for it
      have hnone : s.added = [] := by
        refine List.eq_nil_iff_forall_not_mem.mpr fun n hn => ?_
        have := hs.bound n hn
        simp [hnil] at this
      rcases hadd with ⟨-, hadded⟩ | ⟨-, hfull, -⟩
      · simp [hadded, hnone, hnil]
      · rw [hcount, hnone] at hfull
        exact absurd hpos hfull
    · have hmem := hs.started hnil
      rcases hadd with ⟨-, hadded⟩ | ⟨-, -, hadded⟩
      · rw [hadded]
        exact List.mem_append_left _ hmem
      · rw [hadded]
        exact hmem

theorem RadarInv.produced (hs : RadarInv out owners s) {list : ListPtr} {ops : List (ListOp K)}
    {sensorId : Int} {timestamp : Timeval}
    (h : radarStep libm config out owners s (.produced list ops sensorId timestamp) =
      some (t, e)) : RadarInv out owners t := by
  obtain ⟨l, hown, hne, hl, hlog, hadded, hhand, -, hpush⟩ := radarStep_produced h
  obtain ⟨hacc, hcoh, -, hframe⟩ := hs.handed hown hl (runOps_refCount l ops) hhand hpush
  refine ⟨hacc, hcoh, ?_, ?_, ?_, ?_⟩
  · rw [hframe out hne.symm, hlog, hadded]
    exact hs.listed
  · rw [hadded]
    exact hs.nodup
  · rw [hadded, hlog]
    exact hs.bound
  · rw [hadded, hlog]
    exact hs.started

theorem RadarInv.pop (hs : RadarInv out owners s) {timeoutMs : Int}
    (h : radarStep libm config out owners s (.pop timeoutMs) = some (t, e)) :
    RadarInv out owners t := by
  obtain ⟨-, ⟨msg, q, hhand, hq, hcoh, rfl⟩ | rfl⟩ := radarStep_pop hs.coherent h
  · exact { hs with
      accounted := hs.accounted.perm ((inFlight_popped hhand hq).symm.append_left owners)
      coherent := hcoh }
  · exact hs

theorem RadarInv.feed (hs : RadarInv out owners s) (hown : out ∈ owners)
    (h : radarStep libm config out owners s .feed = some (t, e)) : RadarInv out owners t := by
  obtain ⟨msg, hhand, rfl, -⟩ := radarStep_feed h
  have hfly : s.inFlight = s.queue.pointers ++ msg.tracks.toList := by
    simp [RadarSys.inFlight, hhand]
  have hacc := hs.accounted
  cases hp : msg.tracks with
  | none =>
    rw [hfly, hp] at hacc
    exact { hs with accounted := by simpa [RadarSys.inFlight, trackListRelease] using hacc }
  | some p =>
    rw [hfly, hp, Option.toList_some, ← List.append_assoc] at hacc
    have hrel : (trackListRelease s.heap (some p)).Accounted (owners ++ s.queue.pointers) :=
      (hacc.perm (List.perm_append_singleton p _)).release
    refine { hs with accounted := by simpa [RadarSys.inFlight] using hrel, listed := ?_ }
    obtain ⟨l, hl, hpos, hlisted⟩ := hs.listed
    -- the producer keeps its own reference, so its list stays
    obtain ⟨l', hl'⟩ := hrel.cell_of_mem (List.mem_append_left _ hown)
    by_cases hpo : p = out
    · subst hpo
      by_cases hn : 1 < l.refCount
      · exact ⟨l.setRef (l.refCount - 1), by simp [trackListRelease_keep hl hn], hpos, hlisted⟩
      · rw [trackListRelease_free hl (by omega)] at hl'
        simp [ListHeap.free] at hl'
    · refine ⟨l, ?_, hpos, hlisted⟩
      obtain ⟨r, hr⟩ := hs.accounted.cell_of_mem (p := p) (by rw [hfly, hp]; simp)
      by_cases hn : 1 < r.refCount
      · simp [trackListRelease_keep hr hn, Ne.symm hpo, hl]
      · simp [trackListRelease_free hr (by omega), ListHeap.free, Ne.symm hpo, hl]

end Steps

/-! ## What a run delivered -/

def fedIds : List (RadarAct K × RadarReply K) → List Nat :=
  List.flatMap fun
    | (_, .fed _ _ which) => which
    | _ => []

def radarFeeds (out : ListPtr) : List (RadarAct K × RadarReply K) → Nat :=
  List.countP fun
    | (_, .fed list _ _) => list == some out
    | _ => false

def refusals : List (RadarAct K × RadarReply K) → Nat :=
  List.countP fun
    | (_, .pushed code) => code != 0
    | _ => false

theorem fedIds_append (tr tr' : List (RadarAct K × RadarReply K)) :
    fedIds (tr ++ tr') = fedIds tr ++ fedIds tr' := List.flatMap_append

theorem radarFeeds_append (out : ListPtr) (tr tr' : List (RadarAct K × RadarReply K)) :
    radarFeeds out (tr ++ tr') = radarFeeds out tr + radarFeeds out tr' := List.countP_append

theorem refusals_append (tr tr' : List (RadarAct K × RadarReply K)) :
    refusals (tr ++ tr') = refusals tr + refusals tr' := List.countP_append

@[simp] theorem fedIds_feed (list : Option ListPtr) (tracks : List (TargetTrack K))
    (which : List Nat) : fedIds [(.feed, .fed list tracks which)] = which := List.append_nil _

theorem radarFeeds_feed (out : ListPtr) (list : Option ListPtr) (tracks : List (TargetTrack K))
    (which : List Nat) :
    radarFeeds out [(.feed, .fed list tracks which)] = if list = some out then 1 else 0 := by
  by_cases h : list = some out <;> simp [radarFeeds, h]

theorem refusals_pushed (a : RadarAct K) (code : Int) :
    refusals [(a, .pushed code)] = if code = 0 then 0 else 1 := by
  by_cases h : code = 0 <;> simp [refusals, h]

@[simp] theorem refusals_feed (list : Option ListPtr) (tracks : List (TargetTrack K))
    (which : List Nat) : refusals [(.feed, .fed list tracks which)] = 0 := rfl

/-- Detections keep their numbers, and `which` names those of `tracks`. -/
def Names (log tracks : List (TargetTrack K)) (which : List Nat) : Prop :=
  tracks.map some = which.map (log[·]?) ∧ ∀ n ∈ which, n < log.length

theorem Names.mono {log log' tracks : List (TargetTrack K)} {which : List Nat}
    (h : Names log tracks which) (hlog : log <+: log') : Names log' tracks which := by
  obtain ⟨more, rfl⟩ := hlog
  refine ⟨h.1.trans (List.map_congr_left fun n hn => ?_), fun n hn => ?_⟩
  · exact (List.getElem?_append_left (h.2 n hn)).symm
  · have := h.2 n hn
    simp
    omega

/-- The state's invariant and what it says of the trace: every detection's push
is fed, in flight or refused; the radar's first message fed brings its list once
and each one brings the first detection. -/
structure Delivered (out : ListPtr) (owners : List ListPtr) (tr : List (RadarAct K × RadarReply K))
    (s : RadarSys K) : Prop where
  inv : RadarInv out owners s
  pushes : radarFeeds out tr + s.inFlight.count out + refusals tr = s.log.length
  none_fed : radarFeeds out tr = 0 → fedIds tr = []
  once : radarFeeds out tr ≤ 1 → (fedIds tr).Nodup
  repeated : radarFeeds out tr ≤ (fedIds tr).count 0
  told : ∀ a tracks which, (a, .fed (some out) tracks which) ∈ tr → Names s.log tracks which

section Trace

variable {out : ListPtr} {owners : List ListPtr} {s t : RadarSys K}
  {tr : List (RadarAct K × RadarReply K)}

theorem Delivered.unfed (hs : Delivered out owners tr s) {a : RadarAct K} {e : RadarReply K}
    (hinv : RadarInv out owners t) (hlog : s.log <+: t.log) (hfed : fedIds [(a, e)] = [])
    (hfeeds : radarFeeds out [(a, e)] = 0)
    (hpushes : s.log.length + t.inFlight.count out + refusals [(a, e)] =
      t.log.length + s.inFlight.count out) : Delivered out owners (tr ++ [(a, e)]) t := by
  have hp := hs.pushes
  refine ⟨hinv, ?_, ?_, ?_, ?_, ?_⟩
  · rw [radarFeeds_append, refusals_append, hfeeds]
    omega
  · rw [radarFeeds_append, fedIds_append, hfeeds, hfed, List.append_nil]
    exact hs.none_fed
  · rw [radarFeeds_append, fedIds_append, hfeeds, hfed, List.append_nil]
    exact hs.once
  · rw [radarFeeds_append, fedIds_append, hfeeds, hfed, List.append_nil]
    exact hs.repeated
  · intro b tracks which hmem
    rcases List.mem_append.mp hmem with hmem | hmem
    · exact (hs.told b tracks which hmem).mono hlog
    · obtain ⟨rfl, rfl⟩ := Prod.mk.inj (List.mem_singleton.mp hmem)
      simp [radarFeeds] at hfeeds

variable [Field K] [LinearOrder K] {libm : Libm K} {config : RadarConfig}

theorem Delivered.feed (hs : Delivered out owners tr s) (hown : out ∈ owners) {e : RadarReply K}
    (h : radarStep libm config out owners s .feed = some (t, e)) :
    Delivered out owners (tr ++ [(.feed, e)]) t := by
  have hinv := hs.inv.feed hown h
  have hp := hs.pushes
  obtain ⟨msg, hhand, rfl, rfl⟩ := radarStep_feed h
  have hfly : s.inFlight = s.queue.pointers ++ msg.tracks.toList := by
    simp [RadarSys.inFlight, hhand]
  have hnext : ({ s with heap := trackListRelease s.heap msg.tracks, inHand := none } :
      RadarSys K).inFlight = s.queue.pointers := by simp [RadarSys.inFlight]
  by_cases hout : msg.tracks = some out
  · -- the radar's message: the whole list goes in again
    have hflight : s.inFlight.count out = s.queue.pointers.count out + 1 := by
      rw [hfly, hout]
      simp
    have hlog : s.log ≠ [] := by
      rintro hnil
      rw [hnil, List.length_nil] at hp
      omega
    have hzero : 1 ≤ s.added.count 0 := List.count_pos_iff.mpr (hs.inv.started hlog)
    refine ⟨hinv, ?_, ?_, ?_, ?_, ?_⟩
    · rw [radarFeeds_append, radarFeeds_feed, if_pos hout, refusals_append, refusals_feed, hnext]
      show _ = s.log.length
      omega
    · rw [radarFeeds_append, radarFeeds_feed, if_pos hout]
      omega
    · rw [radarFeeds_append, radarFeeds_feed, if_pos hout, fedIds_append, fedIds_feed,
        if_pos hout]
      intro hle
      rw [hs.none_fed (by omega), List.nil_append]
      exact hs.inv.nodup
    · rw [radarFeeds_append, radarFeeds_feed, if_pos hout, fedIds_append, fedIds_feed,
        if_pos hout, List.count_append]
      have := hs.repeated
      omega
    · intro b tracks which hmem
      rcases List.mem_append.mp hmem with hmem | hmem
      · exact hs.told b tracks which hmem
      · obtain ⟨-, heq⟩ := Prod.mk.inj (List.mem_singleton.mp hmem)
        rw [if_pos hout] at heq
        obtain ⟨-, rfl, rfl⟩ := RadarReply.fed.inj heq
        obtain ⟨l, hl, -, hlisted⟩ := hs.inv.listed
        refine ⟨?_, hs.inv.bound⟩
        simpa [carried, hout, ListHeap.contents_of_cell hl] using hlisted
  · refine hs.unfed hinv (List.prefix_refl _) ?_ ?_ ?_
    · rw [fedIds_feed, if_neg hout]
    · rw [radarFeeds_feed, if_neg hout]
    · rw [hnext, hfly, List.count_append, refusals_feed]
      have hnone : msg.tracks.toList.count out = 0 :=
        List.count_eq_zero.mpr (by simpa using hout)
      show s.log.length + _ + 0 = s.log.length + _
      omega

theorem Delivered.step (hown : out ∈ owners) (tr : List (RadarAct K × RadarReply K))
    (s : RadarSys K) (a : RadarAct K) (t : RadarSys K) (e : RadarReply K)
    (hs : Delivered out owners tr s) (h : radarStep libm config out owners s a = some (t, e)) :
    Delivered out owners (tr ++ [(a, e)]) t := by
  cases a with
  | decoded detection old fresh =>
    have hinv := hs.inv.decoded hown h
    obtain ⟨l, l', track, -, hlog, hhand, -, -, -, hpush⟩ := radarStep_decoded h
    have hlen : t.log.length = s.log.length + 1 := by simp [hlog]
    rcases hpush with ⟨rfl, hpush⟩ | ⟨rfl, hpush⟩
    · refine hs.unfed hinv ⟨_, hlog.symm⟩ rfl rfl ?_
      have hcount := (hpush.inFlight hs.inv.coherent hhand).count_eq out
      rw [List.count_cons_self] at hcount
      rw [refusals_pushed, if_pos rfl]
      omega
    · refine hs.unfed hinv ⟨_, hlog.symm⟩ rfl rfl ?_
      rw [hpush.inFlight hhand, refusals_pushed, if_neg (by decide)]
      omega
  | produced list ops sensorId timestamp =>
    have hinv := hs.inv.produced h
    obtain ⟨l, -, hne, -, hlog, -, hhand, rfl, hpush⟩ := radarStep_produced h
    refine hs.unfed hinv (by rw [hlog]) rfl rfl ?_
    rcases hpush with hpush | hpush
    · have hcount := (hpush.inFlight hs.inv.coherent hhand).count_eq out
      rw [List.count_cons_of_ne hne] at hcount
      rw [hcount, hlog]
      rfl
    · rw [hpush.inFlight hhand, hlog]
      rfl
  | pop timeoutMs =>
    have hinv := hs.inv.pop h
    obtain ⟨rfl, ⟨msg, q, hhand, hq, -, rfl⟩ | rfl⟩ := radarStep_pop hs.inv.coherent h
    · refine hs.unfed hinv (List.prefix_refl _) rfl rfl ?_
      rw [(inFlight_popped hhand hq).count_eq]
      rfl
    · exact hs.unfed hinv (List.prefix_refl _) rfl rfl rfl
  | feed => exact hs.feed hown h

omit [Field K] [LinearOrder K] in
theorem Delivered.start {h₀ h : ListHeap K} {g : Nat → TargetTrack K} {cap : Int} {ok : Bool}
    {size : Int} {q : MecQueue} (hacc : h₀.Accounted owners) (hcap : 0 < cap)
    (hnew : trackListNew (some g) cap h₀ = (some out, h)) (hq : mecQueueCreate ok size = some q) :
    Delivered out (out :: owners) [] (.start h q) := by
  obtain ⟨hcoh, hnil, -⟩ := mecQueueCreate_eq hq
  have hfly : (RadarSys.start h q).inFlight = [] := by
    simp [RadarSys.inFlight, RadarSys.start, MecQueue.pointers, hnil]
  obtain ⟨hacc', l, hl, hpos, hcont⟩ : h.Accounted (out :: owners) ∧
      ∃ l, h.cell out = some l ∧ 0 < l.capacity ∧ l.contents = [] := by
    rcases hacc.create (some g) cap with ⟨l, hc, he, ha⟩ | he
    · rw [hnew] at he ha
      cases he
      obtain ⟨hcont, hsize, -⟩ := trackListCreate_eq hc
      exact ⟨ha, l, ListHeap.write_cell_self _ _ _, by omega, hcont⟩
    · rw [hnew] at he
      cases he
  refine ⟨⟨?_, hcoh, ⟨l, hl, hpos, by rw [hcont]; rfl⟩, List.nodup_nil, ?_, ?_⟩, ?_, ?_, ?_, ?_, ?_⟩
  · rw [hfly, List.append_nil]
    exact hacc'
  · intro n hn
    cases hn
  · intro hne
    exact absurd rfl hne
  · rw [hfly]
    rfl
  · intro _
    rfl
  · intro _
    exact List.nodup_nil
  · exact Nat.le_refl _
  · intro a tracks which hmem
    cases hmem

end Trace

/-- **When radar detections are delivered once.** In a run of the radar thread,
the other producers and the main loop, every feed of the radar's list hands over
the detections `fedIds` counts; no detection is handed over twice, and, with no
push refused and nothing on its way any more, each one is handed over, if and
only if the main loop feeds at most one of the radar's messages. -/
theorem fedIds_once_iff [Field K] [LinearOrder K] {libm : Libm K} {config : RadarConfig}
    {owners : List ListPtr} {h₀ h : ListHeap K} {g : Nat → TargetTrack K} {out : ListPtr}
    {ok : Bool} {capacity : Int} {q : MecQueue} {tr : List (RadarAct K × RadarReply K)}
    {s : RadarSys K} (hacc : h₀.Accounted owners)
    (hnew : trackListNew (some g) 50 h₀ = (some out, h)) (hq : mecQueueCreate ok capacity = some q)
    (hrun : Run (radarStep libm config out (out :: owners)) (.start h q) tr s) :
    (∀ a tracks which, (a, .fed (some out) tracks which) ∈ tr → Names s.log tracks which) ∧
    (((∀ n, (fedIds tr).count n ≤ 1) ∧
        (refusals tr = 0 → s.Drained → ∀ n, n < s.log.length → (fedIds tr).count n = 1)) ↔
      radarFeeds out tr ≤ 1) := by
  have hd : Delivered out (out :: owners) tr s := by
    have := hrun.history (Delivered.step List.mem_cons_self)
      (Delivered.start hacc (by decide) hnew hq)
    rwa [List.nil_append] at this
  refine ⟨hd.told, fun honce => hd.repeated.trans (honce.1 0), fun hle => ⟨?_, ?_⟩⟩
  · exact List.nodup_iff_count_le_one.mp (hd.once hle)
  · rintro hrefused ⟨hqueued, hhand⟩ n hn
    have hfly : s.inFlight = [] := by simp [RadarSys.inFlight, MecQueue.pointers, hqueued, hhand]
    have hp := hd.pushes
    rw [hfly, hrefused, List.count_nil] at hp
    -- one push, of the one detection
    obtain rfl : n = 0 := by omega
    have hge := hd.repeated
    have hone := List.nodup_iff_count_le_one.mp (hd.once hle) 0
    omega

def radarHeap : ListHeap ℚ :=
  (trackListNew (some fun _ => ⟨0, .vehicle, ⟨0, 0, 0⟩, 0, 0, 0, ⟨0, 0⟩, 0⟩) 50 .empty).2

def radarIteration (id : Int) : RadarAct ℚ :=
  .decoded ⟨id, 1, 0, 0, 0, ⟨1, 0⟩⟩ ⟨0, .vehicle, ⟨0, 0, 0⟩, 0, 0, 0, ⟨0, 0⟩, 0⟩ none

/-- Two detections, each pushed and then fed: the second message hands the first
detection over again. -/
theorem first_detection_fed_twice :
    ¬ ∀ (q : MecQueue) (tr : List (RadarAct ℚ × RadarReply ℚ)) (s : RadarSys ℚ),
        mecQueueCreate true 50 = some q →
        Run (radarStep .rat ⟨2⟩ 0 [0]) (.start radarHeap q) tr s →
        (∀ n, (fedIds tr).count n ≤ 1) ∧
          (refusals tr = 0 → s.Drained → ∀ n, n < s.log.length → (fedIds tr).count n = 1) := by
  intro hclaim
  have hrun : Run (radarStep .rat ⟨2⟩ 0 [0])
      (.start radarHeap ((mecQueueCreate true 50).get rfl))
      [(radarIteration 1, .pushed 0), (.pop 500, .nothing), (.feed, .fed (some 0) _ [0]),
        (radarIteration 2, .pushed 0), (.pop 500, .nothing), (.feed, .fed (some 0) _ [0, 1])] _ :=
    .cons rfl (.cons rfl (.cons rfl (.cons rfl (.cons rfl (.cons rfl (.nil _))))))
  have htwice : 2 ≤ 1 := (hclaim _ _ _ (Option.some_get rfl).symm hrun).1 0
  omega

theorem fedIds_once_iff_one : ∃ (tr : List (RadarAct ℚ × RadarReply ℚ)) (s : RadarSys ℚ),
    s.log.length = 1 ∧ refusals tr = 0 ∧ s.Drained ∧ (fedIds tr).count 0 = 1 := by
  have hacc : (ListHeap.empty : ListHeap ℚ).Accounted [] :=
    ⟨⟨(fun p n h => by cases h), fun p _ => rfl⟩, fun p _ => rfl, fun p => by
      simp [ListHeap.empty], rfl⟩
  have hnew : trackListNew (some fun _ => ⟨0, .vehicle, ⟨0, 0, 0⟩, 0, 0, 0, ⟨0, 0⟩, 0⟩) 50
      .empty = (some 0, radarHeap) := rfl
  have hend : ∀ tr s, Run (radarStep .rat ⟨2⟩ 0 [0])
      (.start radarHeap ((mecQueueCreate true 50).get rfl)) tr s →
      s.log.length = 1 → refusals tr = 0 → s.Drained → radarFeeds 0 tr ≤ 1 →
      ∃ (tr : List (RadarAct ℚ × RadarReply ℚ)) (s : RadarSys ℚ),
        s.log.length = 1 ∧ refusals tr = 0 ∧ s.Drained ∧ (fedIds tr).count 0 = 1 := by
    intro tr s hrun hlog hrefused hdrained hfeeds
    obtain ⟨-, hiff⟩ := fedIds_once_iff hacc hnew (Option.some_get rfl).symm hrun
    exact ⟨tr, s, hlog, hrefused, hdrained, (hiff.mpr hfeeds).2 hrefused hdrained 0 (by omega)⟩
  have hrun : Run (radarStep .rat ⟨2⟩ 0 [0])
      (.start radarHeap ((mecQueueCreate true 50).get rfl))
      [(radarIteration 1, .pushed 0), (.pop 500, .nothing), (.feed, .fed (some 0) _ [0])] _ :=
    .cons rfl (.cons rfl (.cons rfl (.nil _)))
  exact hend _ _ hrun rfl rfl ⟨rfl, rfl⟩ (by decide)

end Mec
