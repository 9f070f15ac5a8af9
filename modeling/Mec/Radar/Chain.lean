import Mec.Fusion.History
import Mec.Radar.Delivery
import Mec.Radar.Sound

/-!
# From the wire to the track

The serial port, the radar thread, the queue, the main loop and the fusion processor
in one system. A step is an arrival of bytes, an iteration of the radar thread or of
another producer, half an iteration of the main loop, or a fusion pass; its reply tells
the steps of the parts it was made of, so that a run is a run of each of them. No
detection under the radar's id reaches a track that did not come as a frame over the
wire.
-/

namespace Mec

open Lib.Lts

variable {K : Type}

/-- The port with the parser behind it, the lists and the queue, and the processor. -/
structure Chain (K : Type) where
  port : Port
  sys : RadarSys K
  processor : FusionProcessor K

inductive ChainAct (K : Type) where
  | arrive (bytes : List UInt8)
  /-- An iteration of `radar_processing_thread`; `gettimeofday` gives `now`, `old` is what
  its `track` held. -/
  | iterate (now : Timeval) (old : TargetTrack K) (fresh : Fresh K)
  | produced (list : ListPtr) (ops : List (ListOp K)) (sensorId : Int) (timestamp : Timeval)
  | pop (timeoutMs : Int)
  | feed
  | pass (env : PassEnv K)

/-- The steps of the parts. -/
structure ChainReply (K : Type) where
  port : List (PortCall × Option (ReadReply K))
  sys : List (RadarAct K × RadarReply K)
  fusion : List (FusionAct K × List (Touch K))

abbrev ChainTrace (K : Type) := List (ChainAct K × ChainReply K)

namespace ChainTrace

def port (tr : ChainTrace K) : List (PortCall × Option (ReadReply K)) :=
  tr.flatMap fun x => x.2.port

def sys (tr : ChainTrace K) : List (RadarAct K × RadarReply K) := tr.flatMap fun x => x.2.sys

def fusion (tr : ChainTrace K) : List (FusionAct K × List (Touch K)) :=
  tr.flatMap fun x => x.2.fusion

end ChainTrace

section Step

variable [Field K] [LinearOrder K]

/-- A step of the lists and the queue alone. -/
def Chain.queueStep (libm : Libm K) (config : RadarConfig) (out : ListPtr) (owners : List ListPtr)
    (s : Chain K) (a : RadarAct K) : Option (Chain K × ChainReply K) :=
  (radarStep libm config out owners s.sys a).map fun r =>
    ({ s with sys := r.1 }, { port := [], sys := [(a, r.2)], fusion := [] })

/-- `fusion_processor_add_tracks` of a message in hand; `NULL` is refused. -/
def Chain.addTracks (libm : Libm K) (s : Chain K) (msg : MecMsg) :
    FusionProcessor K × List (FusionAct K × List (Touch K)) :=
  match msg.tracks.bind s.sys.heap.cell with
  | none => (s.processor, [])
  | some l =>
    ((fusionProcessorAddTracks libm s.processor l msg.sensorId).2,
      [(.addTracks l msg.sensorId, touched libm msg.sensorId s.processor l.contents)])

def chainStep (libm : Libm K) (config : RadarConfig) (out : ListPtr) (owners : List ListPtr)
    (s : Chain K) : ChainAct K → Option (Chain K × ChainReply K)
  | .arrive bytes =>
    some ({ s with port := { s.port with line := s.port.line ++ bytes } },
      { port := [(.arrive bytes, none)], sys := [], fusion := [] })
  | .iterate now old fresh =>
    let r : ReadResult K := radarReadData now s.port.parser s.port.line
    let read : List (PortCall × Option (ReadReply K)) :=
      [(.read now, some ⟨r.code, r.detection⟩)]
    let s := { s with port := ⟨r.parser, r.line⟩ }
    if r.code = 0 then
      r.detection.bind fun detection =>
        (s.queueStep libm config out owners (.decoded detection old fresh)).map fun x =>
          (x.1, { x.2 with port := read })
    else some (s, { port := read, sys := [], fusion := [] })
  | .produced list ops sensorId timestamp =>
    s.queueStep libm config out owners (.produced list ops sensorId timestamp)
  | .pop timeoutMs => s.queueStep libm config out owners (.pop timeoutMs)
  | .feed =>
    s.sys.inHand.bind fun msg =>
      (s.queueStep libm config out owners .feed).map fun x =>
        ({ x.1 with processor := (s.addTracks libm msg).1 },
          { x.2 with fusion := (s.addTracks libm msg).2 })
  | .pass env =>
    some ({ s with processor := fusionPass libm env s.processor },
      { port := [], sys := [], fusion := [(.pass env, [])] })

end Step

/-! ## The parts of a run -/

section Parts

variable [Field K] [LinearOrder K] {libm : Libm K} {config : RadarConfig} {out : ListPtr}
  {owners : List ListPtr} {s t : Chain K} {tr : ChainTrace K}

theorem queueStep_eq {a : RadarAct K} {e : ChainReply K}
    (h : s.queueStep libm config out owners a = some (t, e)) :
    ∃ r, radarStep libm config out owners s.sys a = some (t.sys, r) ∧ t.port = s.port ∧
      t.processor = s.processor ∧ e = { port := [], sys := [(a, r)], fusion := [] } := by
  obtain ⟨⟨sys, r⟩, hr, heq⟩ := Option.map_eq_some_iff.mp h
  obtain ⟨rfl, rfl⟩ := Prod.mk.inj heq
  exact ⟨r, hr, rfl, rfl, rfl⟩

/-- What a step consists of. -/
inductive ChainParts (libm : Libm K) (config : RadarConfig) (out : ListPtr)
    (owners : List ListPtr) (s t : Chain K) : ChainAct K → ChainReply K → Prop where
  | arrive (bytes : List UInt8) : t.sys = s.sys → t.processor = s.processor →
      portStep (K := K) s.port (.arrive bytes) = some (t.port, none) →
      ChainParts libm config out owners s t (.arrive bytes) ⟨[(.arrive bytes, none)], [], []⟩
  | silent {now : Timeval} {old : TargetTrack K} {fresh : Fresh K} {r : ReadReply K} :
      t.sys = s.sys → t.processor = s.processor → r.code ≠ 0 →
      portStep s.port (.read now) = some (t.port, some r) →
      ChainParts libm config out owners s t (.iterate now old fresh) ⟨[(.read now, some r)], [], []⟩
  | decoded {now : Timeval} {old : TargetTrack K} {fresh : Fresh K} {d : RadarDetection K}
      {r : RadarReply K} : t.processor = s.processor →
      portStep s.port (.read now) = some (t.port, some ⟨0, some d⟩) →
      radarStep libm config out owners s.sys (.decoded d old fresh) = some (t.sys, r) →
      ChainParts libm config out owners s t (.iterate now old fresh)
        ⟨[(.read now, some ⟨0, some d⟩)], [(.decoded d old fresh, r)], []⟩
  | produced {list : ListPtr} {ops : List (ListOp K)} {sensorId : Int} {timestamp : Timeval}
      {r : RadarReply K} : t.port = s.port → t.processor = s.processor →
      radarStep libm config out owners s.sys (.produced list ops sensorId timestamp) =
        some (t.sys, r) →
      ChainParts libm config out owners s t (.produced list ops sensorId timestamp)
        ⟨[], [(.produced list ops sensorId timestamp, r)], []⟩
  | pop {timeoutMs : Int} {r : RadarReply K} : t.port = s.port → t.processor = s.processor →
      radarStep libm config out owners s.sys (.pop timeoutMs) = some (t.sys, r) →
      ChainParts libm config out owners s t (.pop timeoutMs) ⟨[], [(.pop timeoutMs, r)], []⟩
  | feed {msg : MecMsg} {r : RadarReply K} : s.sys.inHand = some msg → t.port = s.port →
      t.processor = (s.addTracks libm msg).1 →
      radarStep libm config out owners s.sys .feed = some (t.sys, r) →
      ChainParts libm config out owners s t .feed ⟨[], [(.feed, r)], (s.addTracks libm msg).2⟩
  | pass {env : PassEnv K} : t.port = s.port → t.sys = s.sys →
      t.processor = fusionPass libm env s.processor →
      ChainParts libm config out owners s t (.pass env) ⟨[], [], [(.pass env, [])]⟩

theorem chainStep_parts {a : ChainAct K} {e : ChainReply K}
    (h : chainStep libm config out owners s a = some (t, e)) :
    ChainParts libm config out owners s t a e := by
  cases a with
  | arrive bytes =>
    obtain ⟨rfl, rfl⟩ := Prod.mk.inj (Option.some.inj h)
    exact .arrive bytes rfl rfl rfl
  | iterate now old fresh =>
    simp only [chainStep] at h
    split at h
    · next hcode =>
      obtain ⟨d, hd, h⟩ := Option.bind_eq_some_iff.mp h
      obtain ⟨⟨t', e'⟩, hq, heq⟩ := Option.map_eq_some_iff.mp h
      obtain ⟨rfl, rfl⟩ := Prod.mk.inj heq
      obtain ⟨r, hr, hport, hproc, rfl⟩ := queueStep_eq hq
      dsimp only at hport
      rw [hcode, hd]
      refine .decoded hproc ?_ hr
      rw [hport, portStep, hcode, hd]
    · next hcode =>
      obtain ⟨rfl, rfl⟩ := Prod.mk.inj (Option.some.inj h)
      exact .silent rfl rfl hcode rfl
  | produced list ops sensorId timestamp =>
    obtain ⟨r, hr, hport, hproc, rfl⟩ := queueStep_eq h
    exact .produced hport hproc hr
  | pop timeoutMs =>
    obtain ⟨r, hr, hport, hproc, rfl⟩ := queueStep_eq h
    exact .pop hport hproc hr
  | feed =>
    obtain ⟨msg, hmsg, h⟩ := Option.bind_eq_some_iff.mp h
    obtain ⟨⟨t', e'⟩, hq, heq⟩ := Option.map_eq_some_iff.mp h
    obtain ⟨rfl, rfl⟩ := Prod.mk.inj heq
    obtain ⟨r, hr, hport, -, rfl⟩ := queueStep_eq hq
    exact .feed hmsg hport rfl hr
  | pass env =>
    obtain ⟨rfl, rfl⟩ := Prod.mk.inj (Option.some.inj h)
    exact .pass rfl rfl rfl

theorem chainRun_port (h : Run (chainStep libm config out owners) s tr t) :
    Run portStep s.port tr.port t.port :=
  h.project fun s a t e hstep => by
    cases chainStep_parts hstep with
    | arrive bytes _ _ hport => exact .single hport
    | silent _ _ _ hport => exact .single hport
    | decoded _ hport _ => exact .single hport
    | produced hport _ _ | pop hport _ _ | feed _ hport _ _ | pass hport _ _ =>
      rw [hport]
      exact .nil _

theorem chainRun_sys (h : Run (chainStep libm config out owners) s tr t) :
    Run (radarStep libm config out owners) s.sys tr.sys t.sys :=
  h.project fun s a t e hstep => by
    cases chainStep_parts hstep with
    | arrive bytes hsys _ _ | silent hsys _ _ _ | pass _ hsys _ =>
      rw [hsys]
      exact .nil _
    | decoded _ _ hr | produced _ _ hr | pop _ _ hr | feed _ _ _ hr => exact .single hr

theorem addTracks_run (libm : Libm K) (s : Chain K) (msg : MecMsg) :
    Run (fusionStep libm) s.processor (s.addTracks libm msg).2 (s.addTracks libm msg).1 := by
  unfold Chain.addTracks
  split
  · exact .nil _
  · exact .single rfl

theorem chainRun_fusion (h : Run (chainStep libm config out owners) s tr t) :
    Run (fusionStep libm) s.processor tr.fusion t.processor :=
  h.project fun s a t e hstep => by
    cases chainStep_parts hstep with
    | arrive bytes _ hproc _ | silent _ hproc _ _ | decoded hproc _ _ | produced _ hproc _
    | pop _ hproc _ =>
      rw [hproc]
      exact .nil _
    | feed _ _ hproc _ =>
      rw [hproc]
      exact addTracks_run libm s _
    | pass _ _ hproc =>
      rw [hproc]
      exact .single rfl

end Parts

/-! ## Where the radar's tracks come from -/

section Provenance

variable [Field K] [LinearOrder K] {libm : Libm K} {config : RadarConfig} {out : ListPtr}
  {owners : List ListPtr} {s t : Chain K} {tr : ChainTrace K}

/-- The track a call's detection was converted to. -/
def Converted (libm : Libm K) (config : RadarConfig)
    (call : Timeval × Option (RadarDetection K)) (track : TargetTrack K) : Prop :=
  ∃ d old, call.2 = some d ∧ track = (radarConvertToTrack libm d config old).2

/-- A message under the radar's id brings the radar's list. -/
def Labelled (config : RadarConfig) (out : ListPtr) (msg : MecMsg) : Prop :=
  msg.sensorId = config.radarId → msg.tracks = some out

/-- The other producers use ids of their own. -/
def OthersLabelled (config : RadarConfig) (tr : ChainTrace K) : Prop :=
  ∀ list ops sensorId timestamp e, (.produced list ops sensorId timestamp, e) ∈ tr →
    sensorId ≠ config.radarId

/-- The queue and the main loop hold labelled messages only, every detection logged was
decoded by a call, and what was fed under the radar's id was logged. -/
structure Sourced (libm : Libm K) (config : RadarConfig) (out : ListPtr) (owners : List ListPtr)
    (tr : ChainTrace K) (s : Chain K) : Prop where
  inv : RadarInv out owners s.sys
  logged : List.Forall₂ (Converted libm config) (successes tr.port) s.sys.log
  queued : ∀ msg ∈ s.sys.queue.queued, Labelled config out msg
  inHand : ∀ msg ∈ s.sys.inHand, Labelled config out msg
  fed : ∀ l T, (.addTracks l config.radarId, T) ∈ tr.fusion → ∀ meas ∈ l.contents, meas ∈ s.sys.log

omit [Field K] [LinearOrder K] in
theorem mem_queued_push {h : ListHeap K} {q : MecQueue} (hq : q.Coherent) {msg : MecMsg}
    {p : ListPtr} (hp : msg.tracks = some p) {m : MecMsg}
    (hm : m ∈ (mecQueuePush h q msg).2.2.queued) : m ∈ q.queued ∨ m = msg := by
  rcases mecQueuePush_cases h q hp with ⟨hroom, he⟩ | ⟨-, he⟩
  · rw [he, hq.queued_enqueue hroom] at hm
    simpa using hm
  · rw [he] at hm
    exact .inl hm

/-- The messages a producer's iteration leaves in the queue. -/
theorem produced_queued {sys sys' : RadarSys K} (hq : sys.queue.Coherent) {list : ListPtr}
    {ops : List (ListOp K)} {sensorId : Int} {timestamp : Timeval} {r : RadarReply K}
    (h : radarStep libm config out owners sys (.produced list ops sensorId timestamp) =
      some (sys', r)) {m : MecMsg} (hm : m ∈ sys'.queue.queued) :
    m ∈ sys.queue.queued ∨ m.sensorId = sensorId := by
  simp only [radarStep] at h
  split at h
  · split at h
    · cases h
    · obtain ⟨rfl, -⟩ := Prod.mk.inj (Option.some.inj h)
      rcases mem_queued_push hq rfl hm with hm | rfl
      · exact .inl hm
      · exact .inr rfl
  · cases h

theorem decoded_queued {sys sys' : RadarSys K} (hq : sys.queue.Coherent)
    {detection : RadarDetection K} {old : TargetTrack K} {fresh : Fresh K} {r : RadarReply K}
    (h : radarStep libm config out owners sys (.decoded detection old fresh) = some (sys', r))
    {m : MecMsg} (hm : m ∈ sys'.queue.queued) : m ∈ sys.queue.queued ∨ m.tracks = some out := by
  simp only [radarStep] at h
  split at h
  · cases h
  · obtain ⟨rfl, -⟩ := Prod.mk.inj (Option.some.inj h)
    rcases mem_queued_push hq rfl hm with hm | rfl
    · exact .inl hm
    · exact .inr rfl

theorem decoded_log {sys sys' : RadarSys K} {detection : RadarDetection K} {old : TargetTrack K}
    {fresh : Fresh K} {r : RadarReply K}
    (h : radarStep libm config out owners sys (.decoded detection old fresh) = some (sys', r)) :
    sys'.log = sys.log ++ [(radarConvertToTrack libm detection config old).2] ∧
      sys'.inHand = sys.inHand := by
  simp only [radarStep] at h
  split at h
  · cases h
  · obtain ⟨rfl, -⟩ := Prod.mk.inj (Option.some.inj h)
    exact ⟨rfl, rfl⟩

omit [Field K] [LinearOrder K] in
theorem RadarInv.mem_log {sys : RadarSys K} (h : RadarInv out owners sys) {l : TrackList K}
    (hl : sys.heap.cell out = some l) {meas : TargetTrack K} (hmeas : meas ∈ l.contents) :
    meas ∈ sys.log := by
  obtain ⟨l', hl', -, hlisted⟩ := h.listed
  obtain rfl := Option.some.inj (hl.symm.trans hl')
  have hmem : some meas ∈ sys.added.map (sys.log[·]?) := by
    rw [← hlisted]
    exact List.mem_map_of_mem hmeas
  obtain ⟨n, -, hn⟩ := List.mem_map.mp hmem
  exact List.mem_of_getElem? hn

omit [Field K] [LinearOrder K] in
theorem port_snoc (tr : ChainTrace K) (a : ChainAct K) (e : ChainReply K) :
    ChainTrace.port (tr ++ [(a, e)]) = tr.port ++ e.port := by simp [ChainTrace.port]

omit [Field K] [LinearOrder K] in
theorem fusion_snoc (tr : ChainTrace K) (a : ChainAct K) (e : ChainReply K) :
    ChainTrace.fusion (tr ++ [(a, e)]) = tr.fusion ++ e.fusion := by simp [ChainTrace.fusion]

/-- A step that decodes nothing. -/
theorem Sourced.unread (h : Sourced libm config out owners tr s) {a : ChainAct K}
    {e : ChainReply K} (hinv : RadarInv out owners t.sys) (hport : successes e.port = [])
    (hlog : t.sys.log = s.sys.log)
    (hqueued : ∀ msg ∈ t.sys.queue.queued, Labelled config out msg)
    (hhand : ∀ msg ∈ t.sys.inHand, Labelled config out msg)
    (hfed : ∀ l T, (.addTracks l config.radarId, T) ∈ e.fusion →
      ∀ meas ∈ l.contents, meas ∈ s.sys.log) :
    Sourced libm config out owners (tr ++ [(a, e)]) t where
  inv := hinv
  logged := by
    rw [port_snoc, successes, List.filterMap_append, ← successes, ← successes, hport,
      List.append_nil, hlog]
    exact h.logged
  queued := hqueued
  inHand := hhand
  fed l T hmem := by
    rw [fusion_snoc] at hmem
    rw [hlog]
    exact (List.mem_append.mp hmem).elim (h.fed l T) (hfed l T)

theorem Sourced.decoded (hown : out ∈ owners) (h : Sourced libm config out owners tr s)
    {now : Timeval} {old : TargetTrack K} {fresh : Fresh K} {d : RadarDetection K}
    {r : RadarReply K}
    (hr : radarStep libm config out owners s.sys (.decoded d old fresh) = some (t.sys, r))
    (a : ChainAct K) :
    Sourced libm config out owners
      (tr ++ [(a, ⟨[(.read now, some ⟨0, some d⟩)], [(.decoded d old fresh, r)], []⟩)]) t := by
  obtain ⟨hlog, hhand⟩ := decoded_log hr
  refine ⟨h.inv.decoded hown hr, ?_, fun msg hmsg => ?_, ?_, fun l T hmem meas hmeas => ?_⟩
  · rw [port_snoc, successes, List.filterMap_append, hlog]
    exact List.rel_append h.logged (.cons ⟨d, old, rfl, rfl⟩ .nil)
  · rcases decoded_queued h.inv.coherent hr hmsg with hmsg | hmsg
    · exact h.queued msg hmsg
    · exact fun _ => hmsg
  · rw [hhand]
    exact h.inHand
  · rw [fusion_snoc, List.append_nil] at hmem
    rw [hlog]
    exact List.mem_append_left _ (h.fed l T hmem meas hmeas)

/-- A feed under the radar's id hands over what the radar's list holds. -/
theorem Sourced.feed (hown : out ∈ owners) (h : Sourced libm config out owners tr s)
    {msg : MecMsg} {r : RadarReply K} (hmsg : s.sys.inHand = some msg)
    (hr : radarStep libm config out owners s.sys .feed = some (t.sys, r)) (a : ChainAct K) :
    Sourced libm config out owners
      (tr ++ [(a, ⟨[], [(.feed, r)], (s.addTracks libm msg).2⟩)]) t := by
  have hinv := h.inv.feed hown hr
  obtain ⟨msg', hmsg', ht, -⟩ := radarStep_feed hr
  obtain rfl : msg = msg' := Option.some.inj (hmsg.symm.trans hmsg')
  have hlabel := h.inHand msg hmsg
  refine h.unread hinv rfl (by rw [ht]) (by rw [ht]; exact h.queued) ?_ fun l T hmem meas hmeas => ?_
  · rw [ht]
    exact fun _ hm => absurd hm (Option.not_mem_none _)
  · simp only [Chain.addTracks] at hmem
    split at hmem
    · exact absurd hmem List.not_mem_nil
    · next l' hl' =>
      obtain ⟨hact, -⟩ := Prod.mk.inj (List.mem_singleton.mp hmem)
      obtain ⟨rfl, hid⟩ := FusionAct.addTracks.inj hact
      rw [hlabel hid.symm] at hl'
      exact h.inv.mem_log hl' hmeas

omit [Field K] [LinearOrder K] in
theorem unfed (log : List (TargetTrack K)) (l : TrackList K) (T : List (Touch K))
    (hmem : (.addTracks l config.radarId, T) ∈ ([] : List (FusionAct K × List (Touch K)))) :
    ∀ meas ∈ l.contents, meas ∈ log := absurd hmem List.not_mem_nil

theorem Sourced.step (hown : out ∈ owners) (h : Sourced libm config out owners tr s)
    {a : ChainAct K} {e : ChainReply K} (hothers : OthersLabelled config (tr ++ [(a, e)]))
    (hstep : chainStep libm config out owners s a = some (t, e)) :
    Sourced libm config out owners (tr ++ [(a, e)]) t := by
  cases chainStep_parts hstep with
  | arrive bytes hsys _ _ =>
    refine h.unread ?_ rfl ?_ ?_ ?_ (unfed _) <;> rw [hsys]
    · exact h.inv
    · exact h.queued
    · exact h.inHand
  | silent hsys _ hcode _ =>
    refine h.unread ?_ ?_ ?_ ?_ ?_ (unfed _)
    · rw [hsys]
      exact h.inv
    · simp [successes, success, hcode]
    all_goals rw [hsys]
    · exact h.queued
    · exact h.inHand
  | decoded _ _ hr => exact h.decoded hown hr _
  | produced _ _ hr =>
    obtain ⟨-, -, -, -, hlog, -, hhand, -, -⟩ := radarStep_produced hr
    refine h.unread (h.inv.produced hr) rfl hlog (fun msg hmsg => ?_) ?_ (unfed _)
    · rcases produced_queued h.inv.coherent hr hmsg with hmsg | hmsg
      · exact h.queued msg hmsg
      · -- another producer's message has another id
        refine fun hid => absurd (hmsg.symm.trans hid) ?_
        exact hothers _ _ _ _ _ (List.mem_append_right _ (List.mem_singleton_self _))
    · rw [hhand]
      exact h.inHand
  | pop _ _ hr =>
    have hinv := h.inv.pop hr
    obtain ⟨-, ⟨msg, q, hnone, hq, -, ht⟩ | ht⟩ := radarStep_pop h.inv.coherent hr
    · refine h.unread hinv rfl (by rw [ht]) ?_ ?_ (unfed _) <;> rw [ht]
      · exact fun m hm => h.queued m (by rw [hq]; exact List.mem_cons_of_mem _ hm)
      · rintro m ⟨⟩
        exact h.queued msg (by rw [hq]; exact List.mem_cons_self)
    · refine h.unread hinv rfl (by rw [ht]) ?_ ?_ (unfed _) <;> rw [ht]
      · exact h.queued
      · exact h.inHand
  | feed hmsg _ _ hr => exact h.feed hown hmsg hr _
  | pass _ hsys _ =>
    refine h.unread ?_ rfl ?_ ?_ ?_ fun l T hmem => ?_
    · rw [hsys]
      exact h.inv
    · rw [hsys]
    · rw [hsys]
      exact h.queued
    · rw [hsys]
      exact h.inHand
    · cases (Prod.mk.inj (List.mem_singleton.mp hmem)).1

/-- The system before the first byte arrives. -/
def Chain.start (h : ListHeap K) (q : MecQueue) (p : FusionProcessor K) : Chain K :=
  { port := ⟨.start, []⟩, sys := .start h q, processor := p }

/-- The frame's values, converted to a track. -/
def FrameTrack (libm : Libm K) (config : RadarConfig) (f : Frame) (track : TargetTrack K) : Prop :=
  ∃ now d old, Reports now f d ∧ track = (radarConvertToTrack libm d config old).2

theorem forall₂_frameTrack {calls : List (Timeval × Option (RadarDetection K))}
    {frames : List Frame} {log : List (TargetTrack K)}
    (hcalls : List.Forall₂ (fun call f => Decodes call f.payload) calls frames)
    (hlog : List.Forall₂ (Converted libm config) calls log) :
    List.Forall₂ (FrameTrack libm config) frames log := by
  induction hcalls generalizing log with
  | nil =>
    cases hlog
    exact .nil
  | @cons call f _ _ hd _ ih =>
    cases hlog with
    | cons hc hlog =>
      obtain ⟨d, old, hd', rfl⟩ := hc
      obtain rfl := Option.some.inj (hd.symm.trans hd')
      exact .cons ⟨call.1, _, old, reports_decode call.1 f, rfl⟩ (ih hlog)

/-- **From the wire to the track.** However the bytes arrive and the threads interleave:
the bytes are frames with gaps between them, what the radar thread made of them are the
tracks of the frames, one for each and in their order, and every detection that a fused
track was created from or has absorbed under the radar's id is one of them. -/
theorem detection_from_frame {h₀ h : ListHeap K} {g : Nat → TargetTrack K} {ok : Bool}
    {capacity : Int} {q : MecQueue} {cfg : FusionConfig K} {fresh : Fresh K}
    (hacc : h₀.Accounted owners) (hnew : trackListNew (some g) 50 h₀ = (some out, h))
    (hq : mecQueueCreate ok capacity = some q)
    (hrun : Run (chainStep libm config out (out :: owners))
      (.start h q (fusionProcessorCreate cfg fresh)) tr s)
    (hothers : OthersLabelled config tr) :
    ∃ (pieces : List (List UInt8 × Frame)) (rest : List UInt8),
      arrived tr.port =
        pieces.flatMap (fun piece => piece.1 ++ piece.2.bytes) ++ rest ++ s.port.line ∧
      List.Forall₂ (FrameTrack libm config) (pieces.map Prod.snd) s.sys.log ∧
      ∀ id meas, (config.radarId, meas) ∈ detections id (history tr.fusion) →
        ∃ f ∈ pieces.map Prod.snd, FrameTrack libm config f meas := by
  have hstart := Delivered.start hacc (by decide) hnew hq
  obtain ⟨-, hnil, -⟩ := mecQueueCreate_eq hq
  have hsourced : OthersLabelled config tr → Sourced libm config out (out :: owners) tr s := by
    refine hrun.history_nil (I := fun tr s => OthersLabelled config tr →
      Sourced libm config out (out :: owners) tr s) ?_ fun _ => ?_
    · rintro tr s a t e ih hstep hothers
      refine (ih fun list ops i ts e' hmem => ?_).step List.mem_cons_self hothers hstep
      exact hothers list ops i ts e' (List.mem_append_left _ hmem)
    · refine ⟨hstart.inv, .nil, fun msg hmsg => ?_, fun msg hmsg => ?_, unfed _⟩
      · rw [show (Chain.start h q _).sys.queue = q from rfl, hnil] at hmsg
        exact absurd hmsg List.not_mem_nil
      · exact absurd hmsg (Option.not_mem_none _)
  obtain ⟨-, hlog, -, -, hfed⟩ := hsourced hothers
  obtain ⟨used, hline, -, hcalls⟩ := portStep_reads (chainRun_port hrun)
  obtain ⟨pieces, rest, hused, hout⟩ := outputs_feed_sound used
  have hmap : pieces.map (fun piece => piece.2.payload) =
      (pieces.map Prod.snd).map Frame.payload := by rw [List.map_map]; rfl
  rw [show (Chain.start h q (fusionProcessorCreate cfg fresh)).port.parser = .start from rfl, hout,
    hmap, List.forall₂_map_right_iff] at hcalls
  have htracks := forall₂_frameTrack hcalls hlog
  refine ⟨pieces, rest, by rw [← hused]; exact hline, htracks, fun id meas hmem => ?_⟩
  obtain ⟨l, T, hadd, hmeas⟩ := detections_fed (chainRun_fusion hrun) hmem
  exact exists_of_forall₂ htracks (hfed l T hadd meas hmeas)

end Provenance

/-- The frame of zeros arrives, is decoded, queued, popped and fed. -/
def zeroFrameActs : List (ChainAct ℚ) :=
  [.arrive (0x01 :: zeroFrame.bytes), .iterate ⟨1, 0⟩ (rollingCar ⟨0, 0⟩) none, .pop 500, .feed]

theorem detection_from_frame_zero :
    ∃ (tr : ChainTrace ℚ) (s : Chain ℚ) (pieces : List (List UInt8 × Frame)) (rest : List UInt8),
      arrived tr.port =
        pieces.flatMap (fun piece => piece.1 ++ piece.2.bytes) ++ rest ++ s.port.line ∧
      List.Forall₂ (FrameTrack .rat ⟨2⟩) (pieces.map Prod.snd) s.sys.log ∧
      (∀ id meas, (2, meas) ∈ detections id (history tr.fusion) →
        ∃ f ∈ pieces.map Prod.snd, FrameTrack .rat ⟨2⟩ f meas) ∧
      s.sys.log.length = 1 := by
  have hacc : (ListHeap.empty : ListHeap ℚ).Accounted [] :=
    ⟨⟨(fun p n h => by cases h), fun p _ => rfl⟩, fun p _ => rfl, fun p => by
      simp [ListHeap.empty], rfl⟩
  have hnew : trackListNew (some fun _ => ⟨0, .vehicle, ⟨0, 0, 0⟩, 0, 0, 0, ⟨0, 0⟩, 0⟩) 50
      .empty = (some 0, radarHeap) := rfl
  have hrun := run_play (chainStep .rat ⟨2⟩ 0 [0]) (.start radarHeap
    ((mecQueueCreate true 50).get rfl) (fusionProcessorCreate ⟨5, 0, 50⟩ none)) zeroFrameActs
  obtain ⟨pieces, rest, hbytes, htracks, hfrom⟩ := detection_from_frame hacc hnew
    (Option.some_get rfl).symm hrun (by
      intro list ops sensorId timestamp e hmem
      simpa [zeroFrameActs] using mem_of_play hmem)
  exact ⟨_, _, pieces, rest, hbytes, htracks, hfrom, rfl⟩

end Mec
