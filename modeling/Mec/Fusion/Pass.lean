import Mec.Fusion.Basic
import Mec.Lib.SwapRemove

/-!
# One pass of the fusion loop

The body of `fusion_processing_thread` between lock and unlock: every track is
predicted to the current time and aged, an expired one is deleted by moving
the last track into its slot, the others are written to the output list. On
the live tracks the loop is the sweep of `Mec.Lib.SwapRemove`; index, bound and
output list follow from that.
-/

namespace Mec

open Lib.RowMajor Lib.SwapRemove

variable {K : Type}

/-- What a pass reads from outside: the clock, what the local `out` holds before
its fields are assigned (at each output index), and the allocator's answers. -/
structure PassEnv (K : Type) where
  now : Timeval
  out : Nat → TargetTrack K
  fresh : Nat → Fresh K

namespace FusionProcessor

def clearOutput (p : FusionProcessor K) : FusionProcessor K :=
  { p with
    outputTracks := p.outputTracks.map trackListClear
    output_capacity := by
      intro o ho
      obtain ⟨l, hl, rfl⟩ := Option.mem_map.mp ho
      exact p.output_capacity l hl }

/-- `track_list_add(proc->output_tracks, &out)`; a `NULL` list stays `NULL`. -/
def addOutput (p : FusionProcessor K) (fresh : Fresh K) (out : TargetTrack K) :
    FusionProcessor K :=
  { p with
    outputTracks := p.outputTracks.map fun l => (trackListAdd fresh l out).2
    output_capacity := by
      intro o ho
      obtain ⟨l, hl, rfl⟩ := Option.mem_map.mp ho
      exact Nat.le_trans (p.output_capacity l hl) (trackListAdd_capacity fresh l out) }

end FusionProcessor

variable [Field K] [LinearOrder K]

/-- `dt`: the seconds and microseconds from `last` to `now`. -/
def elapsed (now last : Timeval) : K :=
  ((now.tvSec - last.tvSec : Int) : K) + ((now.tvUsec - last.tvUsec : Int) : K) / 1000000.0

/-- `predict_track_state(t, dt); t->age++`. -/
def ageTrack (now : Timeval) (t : FusedTrack K) : FusedTrack K :=
  let t := (predictTrackState t (elapsed now t.lastUpdate)).2
  { t with age := t.age + 1 }

/-- The test for deletion. -/
def expired (config : FusionConfig K) (t : FusedTrack K) : Bool :=
  decide (t.age > config.maxTrackAge) || decide (t.confidence < config.confidenceThreshold)

/-- The record `out` of a track. -/
def toOutput (libm : Libm K) (now : Timeval) (out : TargetTrack K) (t : FusedTrack K) :
    TargetTrack K :=
  let st := t.filterState
  { out with
    id := t.globalId
    type := t.type
    position := { out.position with longitude := st.x, latitude := st.y }
    velocity := libm.sqrt (st.vx * st.vx + st.vy * st.vy)
    heading := libm.atan2 st.vy st.vx * 180.0 / mPi
    confidence := t.confidence
    timestamp := now }

/-- The rest of an iteration of the loop, its `i++` included, once the aged track
was tested: `delete` is the outcome. -/
def settleTrack (libm : Libm K) (env : PassEnv K) (i : Nat) (p : FusionProcessor K)
    (h : i < p.trackCount) (delete : Bool) : Nat × FusionProcessor K :=
  let t := ageTrack env.now (p.track i h)
  let p' := p.setTrack i t
  if delete then
    if i < p'.trackCount - 1 then
      (i, (p'.setTrack i (p'.track (p'.trackCount - 1) (Nat.sub_one_lt_of_lt h))).dropLast)
    else (i, p'.dropLast)
  else (i + 1, p'.addOutput (env.fresh i) (toOutput libm env.now (env.out i) t))

/-- One iteration of the loop. -/
def passBody (libm : Libm K) (env : PassEnv K) (i : Nat) (p : FusionProcessor K)
    (h : i < p.trackCount) : Nat × FusionProcessor K :=
  settleTrack libm env i p h (expired p.config (ageTrack env.now (p.track i h)))

theorem settleTrack_decreases (libm : Libm K) (env : PassEnv K) (i : Nat) (p : FusionProcessor K)
    (h : i < p.trackCount) (delete : Bool) :
    (settleTrack libm env i p h delete).2.trackCount - (settleTrack libm env i p h delete).1 + 1 =
      p.trackCount - i := by
  simp only [settleTrack]
  split
  · split
    · show p.trackCount - 1 - i + 1 = p.trackCount - i
      omega
    · show p.trackCount - 1 - i + 1 = p.trackCount - i
      omega
  · show p.trackCount - (i + 1) + 1 = p.trackCount - i
    omega

theorem passBody_decreases (libm : Libm K) (env : PassEnv K) (i : Nat) (p : FusionProcessor K)
    (h : i < p.trackCount) :
    (passBody libm env i p h).2.trackCount - (passBody libm env i p h).1 + 1 =
      p.trackCount - i :=
  settleTrack_decreases libm env i p h _

/-- The loop from index `i` on. -/
def passLoop (libm : Libm K) (env : PassEnv K) (i : Nat) (p : FusionProcessor K) :
    FusionProcessor K :=
  if h : i < p.trackCount then
    passLoop libm env (passBody libm env i p h).1 (passBody libm env i p h).2
  else p
termination_by p.trackCount - i
decreasing_by have := passBody_decreases libm env i p h; omega

/-- The records the loop hands to `predict_track_state`, in order. -/
def passVisits (libm : Libm K) (env : PassEnv K) (i : Nat) (p : FusionProcessor K) :
    List (FusedTrack K) :=
  if h : i < p.trackCount then
    p.track i h ::
      passVisits libm env (passBody libm env i p h).1 (passBody libm env i p h).2
  else []
termination_by p.trackCount - i
decreasing_by have := passBody_decreases libm env i p h; omega

/-- The locked section of one round of `fusion_processing_thread`. -/
def fusionPass (libm : Libm K) (env : PassEnv K) (p : FusionProcessor K) : FusionProcessor K :=
  passLoop libm env 0 p.clearOutput

/-! ## The loop is a sweep -/

def retained (config : FusionConfig K) (t : FusedTrack K) : Bool := !expired config t

omit [Field K] in
theorem retained_eq_decide (config : FusionConfig K) (t : FusedTrack K) :
    retained config t =
      decide (t.age ≤ config.maxTrackAge ∧ config.confidenceThreshold ≤ t.confidence) := by
  rw [retained, expired, Bool.eq_iff_iff]
  simp only [Bool.not_eq_true', Bool.or_eq_false_iff, decide_eq_false_iff_not, decide_eq_true_iff,
    gt_iff_lt, not_lt]

variable {libm : Libm K} {env : PassEnv K} {p : FusionProcessor K} {i : Nat}
  {done todo : List (FusedTrack K)}

theorem passBody_keep (h : i < p.trackCount) {t : FusedTrack K}
    (ht : ageTrack env.now (p.track i h) = t) (hkeep : retained p.config t) :
    passBody libm env i p h =
      (i + 1, (p.setTrack i t).addOutput (env.fresh i) (toOutput libm env.now (env.out i) t)) := by
  have hexp : ¬expired p.config t := by simpa [retained] using hkeep
  simp only [passBody, settleTrack, ht]
  exact if_neg hexp

theorem passBody_delete (h : i < p.trackCount) {t : FusedTrack K}
    (ht : ageTrack env.now (p.track i h) = t) (hkeep : ¬retained p.config t) :
    passBody libm env i p h =
      if i < p.trackCount - 1 then
        (i, ((p.setTrack i t).setTrack i ((p.setTrack i t).track (p.trackCount - 1)
          (Nat.sub_one_lt_of_lt h))).dropLast)
      else (i, (p.setTrack i t).dropLast) := by
  have hexp : expired p.config t := by simpa [retained] using hkeep
  simp only [passBody, settleTrack, ht]
  exact if_pos hexp

/-- **Loop invariant** at index `i`: the tracks before `i` are finished and
written out one for one, the others are as the pass found them. -/
structure LoopInv (libm : Libm K) (env : PassEnv K) (done todo : List (FusedTrack K)) (i : Nat)
    (p : FusionProcessor K) : Prop where
  live : p.live = done ++ todo
  index : done.length = i
  written : ∀ o ∈ p.outputTracks,
    o.contents = done.mapIdx fun k t => toOutput libm env.now (env.out k) t

omit [LinearOrder K] in
theorem LoopInv.lt_iff (hinv : LoopInv libm env done todo i p) :
    i < p.trackCount ↔ todo ≠ [] := by
  rw [← p.live_length, hinv.live, List.length_append, hinv.index, ← List.length_pos_iff]
  omega

omit [LinearOrder K] in
theorem LoopInv.track_eq {x : FusedTrack K} (hinv : LoopInv libm env done (x :: todo) i p)
    (h : i < p.trackCount) : p.track i h = x := by
  have hx : p.live[i]? = some x := by
    rw [hinv.live, ← hinv.index, List.getElem?_append_right (Nat.le_refl _), Nat.sub_self,
      List.getElem?_cons_zero]
  exact Option.some.inj ((p.track_eq_live i h).symm.trans hx)

omit [LinearOrder K] in
theorem LoopInv.live_setTrack {x : FusedTrack K} (hinv : LoopInv libm env done (x :: todo) i p)
    (t : FusedTrack K) : (p.setTrack i t).live = done ++ t :: todo := by
  rw [FusionProcessor.setTrack_live, hinv.live, ← hinv.index,
    List.set_append_right _ _ (Nat.le_refl _), Nat.sub_self, List.set_cons_zero]

theorem LoopInv.keep {x : FusedTrack K} (hinv : LoopInv libm env done (x :: todo) i p)
    (h : i < p.trackCount) (hkeep : retained p.config (ageTrack env.now x)) :
    LoopInv libm env (done ++ [ageTrack env.now x]) todo (passBody libm env i p h).1
      (passBody libm env i p h).2 := by
  rw [passBody_keep h (congrArg _ (hinv.track_eq h)) hkeep]
  refine ⟨?_, ?_, ?_⟩
  · rw [List.append_assoc]
    exact hinv.live_setTrack _
  · rw [List.length_append, hinv.index, List.length_singleton]
  · intro o ho
    obtain ⟨l, hl, rfl⟩ := Option.mem_map.mp ho
    have hwritten := hinv.written l hl
    have hcount : l.count < l.capacity := by
      have hlen := congrArg List.length hwritten
      rw [TrackList.contents_length, List.length_mapIdx, hinv.index] at hlen
      have hcap := p.output_capacity l hl
      have hle := p.count_le
      omega
    rw [trackListAdd_of_lt hcount, TrackList.store_contents, hwritten, List.mapIdx_concat,
      hinv.index]

theorem LoopInv.delete {x : FusedTrack K} (hinv : LoopInv libm env done (x :: todo) i p)
    (h : i < p.trackCount) (hkeep : ¬retained p.config (ageTrack env.now x)) :
    LoopInv libm env done (refill todo) (passBody libm env i p h).1
      (passBody libm env i p h).2 := by
  rw [passBody_delete h (congrArg _ (hinv.track_eq h)) hkeep]
  have hcount : p.trackCount = i + (todo.length + 1) := by
    rw [← p.live_length, hinv.live, List.length_append, hinv.index, List.length_cons]
  have hlive := hinv.live_setTrack (ageTrack env.now x)
  split
  · next hlast =>
    have hne : todo ≠ [] := by
      rintro rfl
      simp only [List.length_nil] at hcount
      omega
    have hmoved := (p.setTrack i (ageTrack env.now x)).track_last_live (Nat.sub_one_lt_of_lt h)
    rw [hlive, List.getLast?_append_of_ne_nil _ (List.cons_ne_nil _ _), List.getLast?_cons,
      List.getLast?_eq_some_getLast hne] at hmoved
    refine ⟨?_, hinv.index, hinv.written⟩
    rw [FusionProcessor.dropLast_live, FusionProcessor.setTrack_live, hlive]
    calc _ = ((done ++ ageTrack env.now x :: todo).set i (todo.getLast hne)).dropLast :=
          congrArg (fun t => ((done ++ ageTrack env.now x :: todo).set i t).dropLast)
            (Option.some.inj hmoved).symm
      _ = done ++ refill todo := delete_eq_refill hinv.index _ hne
  · next hlast =>
    have hnil : todo = [] := List.eq_nil_of_length_eq_zero (by omega)
    subst hnil
    refine ⟨?_, hinv.index, hinv.written⟩
    rw [FusionProcessor.dropLast_live, hlive, List.dropLast_concat]
    exact (List.append_nil done).symm

/-- A pass leaves everything but the table and the output list's contents. -/
structure SameFrame (p q : FusionProcessor K) : Prop where
  config : q.config = p.config
  capacity : q.trackCapacity = p.trackCapacity
  nextGlobalId : q.nextGlobalId = p.nextGlobalId
  output : q.outputTracks.isSome = p.outputTracks.isSome

theorem passBody_frame (h : i < p.trackCount) : SameFrame p (passBody libm env i p h).2 := by
  simp only [passBody, settleTrack]
  split
  · split
    · exact ⟨rfl, rfl, rfl, rfl⟩
    · exact ⟨rfl, rfl, rfl, rfl⟩
  · exact ⟨rfl, rfl, rfl, Option.isSome_map⟩

theorem passLoop_frame (libm : Libm K) (env : PassEnv K) (i : Nat) (p : FusionProcessor K) :
    SameFrame p (passLoop libm env i p) := by
  induction i, p using passLoop.induct libm env with
  | case1 i p h ih =>
    have hbody : SameFrame p (passBody libm env i p h).2 := passBody_frame h
    rw [passLoop, dif_pos h]
    exact ⟨ih.config.trans hbody.config, ih.capacity.trans hbody.capacity,
      ih.nextGlobalId.trans hbody.nextGlobalId, ih.output.trans hbody.output⟩
  | case2 i p h =>
    rw [passLoop, dif_neg h]
    exact ⟨rfl, rfl, rfl, rfl⟩

/-- **The loop is a sweep** of the tracks ahead of it. -/
theorem passLoop_sweep (libm : Libm K) (env : PassEnv K) (i : Nat) (p : FusionProcessor K) :
    ∀ done todo, LoopInv libm env done todo i p →
      passVisits libm env i p = visits (ageTrack env.now) (retained p.config) todo ∧
      LoopInv libm env (done ++ sweep (ageTrack env.now) (retained p.config) todo) []
        (passLoop libm env i p).trackCount (passLoop libm env i p) := by
  induction i, p using passLoop.induct libm env with
  | case1 i p h ih =>
    intro done todo hinv
    obtain ⟨x, todo, rfl⟩ := List.exists_cons_of_ne_nil (hinv.lt_iff.mp h)
    rw [passVisits, dif_pos h, passLoop, dif_pos h, hinv.track_eq h]
    rw [(passBody_frame h).config] at ih
    by_cases hkeep : retained p.config (ageTrack env.now x)
    · obtain ⟨hvisits, hloop⟩ := ih _ _ (hinv.keep h hkeep)
      rw [visits_keep hkeep, sweep_keep hkeep, hvisits]
      exact ⟨rfl, by rwa [List.append_assoc] at hloop⟩
    · obtain ⟨hvisits, hloop⟩ := ih _ _ (hinv.delete h hkeep)
      rw [visits_delete hkeep, sweep_delete hkeep, hvisits]
      exact ⟨rfl, hloop⟩
  | case2 i p h =>
    intro done todo hinv
    obtain rfl : todo = [] := not_not.mp (mt hinv.lt_iff.mpr h)
    rw [passVisits, dif_neg h, passLoop, dif_neg h, visits_nil, sweep_nil, List.append_nil]
    have hcount : done.length = p.trackCount := by
      rw [← p.live_length, hinv.live, List.append_nil]
    exact ⟨rfl, hinv.live, hcount, hinv.written⟩

omit [LinearOrder K] in
theorem loopInv_start (libm : Libm K) (env : PassEnv K) (p : FusionProcessor K) :
    LoopInv libm env [] p.live 0 p.clearOutput := by
  refine ⟨rfl, rfl, fun o ho => ?_⟩
  obtain ⟨l, -, rfl⟩ := Option.mem_map.mp ho
  rfl

theorem fusionPass_live (libm : Libm K) (env : PassEnv K) (p : FusionProcessor K) :
    (fusionPass libm env p).live.Perm
      ((p.live.map (ageTrack env.now)).filter (retained p.config)) := by
  obtain ⟨-, hloop⟩ := passLoop_sweep libm env 0 p.clearOutput _ _ (loopInv_start libm env p)
  have hlive := hloop.live
  rw [List.nil_append, List.append_nil] at hlive
  rw [fusionPass, hlive]
  exact sweep_perm p.live

theorem fusionPass_output (libm : Libm K) (env : PassEnv K) (p : FusionProcessor K)
    {o : TrackList K} (ho : o ∈ (fusionPass libm env p).outputTracks) :
    o.contents = (fusionPass libm env p).live.mapIdx fun k t =>
      toOutput libm env.now (env.out k) t := by
  obtain ⟨-, hloop⟩ := passLoop_sweep libm env 0 p.clearOutput _ _ (loopInv_start libm env p)
  have hlive := hloop.live
  rw [List.append_nil] at hlive
  have hwritten := hloop.written o ho
  rwa [← hlive] at hwritten

theorem fusionPass_output_ids (libm : Libm K) (env : PassEnv K) (p : FusionProcessor K)
    {o : TrackList K} (ho : o ∈ (fusionPass libm env p).outputTracks) :
    o.contents.map TargetTrack.id = (fusionPass libm env p).live.map FusedTrack.globalId := by
  rw [fusionPass_output libm env p ho]
  apply List.ext_getElem?
  intro k
  rw [List.getElem?_map, List.getElem?_mapIdx, List.getElem?_map, Option.map_map]
  rfl

theorem fusionPass_singleton {t : FusedTrack K} (hlive : p.live = [t])
    (hkeep : retained p.config (ageTrack env.now t)) :
    (fusionPass libm env p).live = [ageTrack env.now t] := by
  have h := fusionPass_live libm env p
  rw [hlive, List.map_singleton, List.filter_cons_of_pos hkeep, List.filter_nil] at h
  exact List.perm_singleton.mp h

theorem fusionPass_frame (libm : Libm K) (env : PassEnv K) (p : FusionProcessor K) :
    SameFrame p (fusionPass libm env p) := by
  have h := passLoop_frame libm env 0 p.clearOutput
  exact ⟨h.config, h.capacity, h.nextGlobalId, h.output.trans Option.isSome_map⟩

/-- **One pass is exact**: the loop hands each track to the prediction once,
keeps exactly the survivors, and its output list follows the table entry by
entry. -/
theorem fusionPass_exact (libm : Libm K) (env : PassEnv K) (p : FusionProcessor K) :
    (passVisits libm env 0 p.clearOutput).Perm p.live ∧
      (fusionPass libm env p).live.Perm ((p.live.map (ageTrack env.now)).filter fun t =>
        decide (t.age ≤ p.config.maxTrackAge ∧ p.config.confidenceThreshold ≤ t.confidence)) ∧
      (fusionPass libm env p).outputTracks.isSome = p.outputTracks.isSome ∧
      ∀ o ∈ (fusionPass libm env p).outputTracks, o.count = (fusionPass libm env p).trackCount ∧
        ∀ (k : Nat) (t : FusedTrack K), (fusionPass libm env p).live[k]? = some t →
          ∃ out : TargetTrack K, o.contents[k]? = some out ∧
            out.id = t.globalId ∧ out.type = t.type ∧
            out.position.longitude = t.filterState.x ∧
            out.position.latitude = t.filterState.y ∧ out.confidence = t.confidence := by
  obtain ⟨hvisits, -⟩ := passLoop_sweep libm env 0 p.clearOutput _ _ (loopInv_start libm env p)
  refine ⟨?_, ?_, (fusionPass_frame libm env p).output, fun o ho => ?_⟩
  · rw [hvisits]
    exact visits_perm p.live
  · rw [List.filter_congr fun t _ => (retained_eq_decide p.config t).symm]
    exact fusionPass_live libm env p
  · have hwritten := fusionPass_output libm env p ho
    refine ⟨?_, fun k t ht => ?_⟩
    · rw [← o.contents_length, hwritten, List.length_mapIdx]
      exact (fusionPass libm env p).live_length
    · refine ⟨toOutput libm env.now (env.out k) t, ?_, rfl, rfl, rfl, rfl, rfl⟩
      rw [hwritten, List.getElem?_mapIdx]
      exact congrArg (Option.map _) ht

end Mec
