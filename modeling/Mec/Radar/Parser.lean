import Mathlib.Algebra.Field.Rat
import Mec.Common
import Mec.Lib.Mealy
import Mec.Lib.Prefix

/-!
# The radar frame parser (`radar_processor.c`)

`radar_read_data` is a byte-driven automaton: one switch per byte (`feed`), a
loop that reads the line until a frame checks out or the line is empty
(`radarReadData`), and a caller that reads again and again (`poll`). Its state
is static: it survives from call to call and starts in `STATE_IDLE`.
-/

namespace Mec

open Lib.Mealy Lib.Prefix

inductive ParseState where
  | idle
  | head1
  | head2
  | data
  | check
  deriving DecidableEq, Repr

theorem idle_ne_data : ParseState.idle ≠ .data := by decide

theorem head1_ne_data : ParseState.head1 ≠ .data := by decide

/-- The static variables of `radar_read_data`. -/
structure Parser where
  state : ParseState
  frameBuf : Vector UInt8 16
  frameIdx : Nat
  idx_lt : state = .data → frameIdx < 14

structure RadarDetection (K : Type) where
  targetId : Int
  range : K
  angle : K
  velocity : K
  rcs : K
  timestamp : Timeval
  deriving DecidableEq

namespace Parser

def start : Parser := ⟨.idle, Vector.replicate 16 0, 0, nofun⟩

def goto (p : Parser) (s : ParseState) (h : s ≠ .data) : Parser :=
  { p with
    state := s
    idx_lt := fun hs => absurd hs h }

@[simp] theorem goto_state (p : Parser) (s : ParseState) (h : s ≠ .data) :
    (p.goto s h).state = s := rfl

def expectData (p : Parser) : Parser :=
  { p with
    state := .data
    frameIdx := 0
    idx_lt := fun _ => Nat.succ_pos 13 }

/-- `frame_buf[0..14)`, which the checksum and the decoding read. -/
def payload (p : Parser) : Vector UInt8 14 := Vector.ofFn fun i => p.frameBuf[i]

/-- The data bytes received so far. -/
def received (p : Parser) : List UInt8 := p.frameBuf.toList.take p.frameIdx

theorem payload_toList {p : Parser} (h : p.frameIdx = 14) : p.payload.toList = p.received := by
  rw [received, h]
  refine List.ext_getElem (by simp) fun i h1 h2 => ?_
  simp only [payload, Vector.getElem_toList, Vector.getElem_ofFn, List.getElem_take]
  rfl

end Parser

/-- The XOR of the data bytes. -/
def checksum (payload : Vector UInt8 14) : UInt8 := payload.toList.foldl (· ^^^ ·) 0

/-- The `switch` on one byte. A frame that checks out is returned as its data. -/
def feed (p : Parser) (ch : UInt8) : Parser × Option (Vector UInt8 14) :=
  match h : p.state with
  | .idle => (if ch = 0xAA then p.goto .head1 head1_ne_data else p, none)
  | .head1 =>
    if ch = 0x55 then (p.expectData, none) else (p.goto .idle idle_ne_data, none)
  | .head2 => (p, none)
  | .data =>
    let frameBuf := p.frameBuf.set p.frameIdx ch (Nat.lt_trans (p.idx_lt h) (by decide))
    let frameIdx := p.frameIdx + 1
    if hidx : frameIdx ≥ 14 then (⟨.check, frameBuf, frameIdx, nofun⟩, none)
    else (⟨.data, frameBuf, frameIdx, fun _ => Nat.lt_of_not_le hidx⟩, none)
  | .check =>
    (p.goto .idle idle_ne_data, if ch = checksum p.payload then some p.payload else none)

def word (payload : Vector UInt8 14) (i : Fin 13) : Nat :=
  payload[i.castSucc].toNat <<< 8 ||| payload[i.succ].toNat

variable {K : Type} [Field K]

/-- The assignments to `*detection`. -/
def decode (now : Timeval) (payload : Vector UInt8 14) : RadarDetection K where
  targetId := word payload 0
  range := word payload 2 * 0.1
  angle := word payload 4 * 0.1 - 180.0
  velocity := word payload 6 * 0.1
  rcs := word payload 8 * 0.1 - 50.0
  timestamp := now

/-- What a call of `radar_read_data` leaves: its return value, the static state,
the detection if one was written, and the bytes it did not read. -/
structure ReadResult (K : Type) where
  code : Int
  parser : Parser
  detection : Option (RadarDetection K)
  line : List UInt8

/-- `radar_read_data` on an open port with the bytes `line` waiting. -/
def radarReadData (now : Timeval) : Parser → List UInt8 → ReadResult K
  | p, [] => ⟨-1, p, none, []⟩
  | p, ch :: line =>
    match feed p ch with
    | (p', some payload) => ⟨0, p', some (decode now payload), line⟩
    | (p', none) => radarReadData now p' line

/-! ## One byte -/

section Feed

variable {p : Parser}

theorem feed_idle (h : p.state = .idle) (ch : UInt8) :
    feed p ch = (if ch = 0xAA then p.goto .head1 head1_ne_data else p, none) := by
  unfold feed
  split
  · rfl
  all_goals next hs => rw [h] at hs; cases hs

theorem feed_idle_other (h : p.state = .idle) {ch : UInt8} (hch : ch ≠ 0xAA) :
    feed p ch = (p, none) := by
  rw [feed_idle h, if_neg hch]

theorem feed_idle_head (h : p.state = .idle) :
    feed p 0xAA = (p.goto .head1 head1_ne_data, none) := by
  rw [feed_idle h, if_pos rfl]

theorem feed_head1 (h : p.state = .head1) {ch : UInt8} (hch : ch ≠ 0x55) :
    feed p ch = (p.goto .idle idle_ne_data, none) := by
  unfold feed
  split
  case h_2 => exact if_neg hch
  all_goals next hs => rw [h] at hs; cases hs

theorem feed_head1_sync (h : p.state = .head1) : feed p 0x55 = (p.expectData, none) := by
  unfold feed
  split
  case h_2 => exact if_pos rfl
  all_goals next hs => rw [h] at hs; cases hs

theorem feed_head2 (h : p.state = .head2) (ch : UInt8) : feed p ch = (p, none) := by
  unfold feed
  split
  case h_3 => rfl
  all_goals next hs => rw [h] at hs; cases hs

theorem feed_check (h : p.state = .check) (ch : UInt8) :
    feed p ch =
      (p.goto .idle idle_ne_data, if ch = checksum p.payload then some p.payload else none) := by
  unfold feed
  split
  case h_5 => rfl
  all_goals next hs => rw [h] at hs; cases hs

theorem feed_data (h : p.state = .data) (ch : UInt8) :
    (feed p ch).2 = none ∧ (feed p ch).1.frameIdx = p.frameIdx + 1 ∧
      (feed p ch).1.received = p.received ++ [ch] ∧
      (feed p ch).1.state = if p.frameIdx + 1 = 14 then .check else .data := by
  have hidx := p.idx_lt h
  have hstore : (p.frameBuf.set p.frameIdx ch (Nat.lt_trans hidx (by decide))).toList.take
      (p.frameIdx + 1) = p.received ++ [ch] := by
    have hlen : p.frameIdx < p.frameBuf.toList.length := by
      rw [Vector.length_toList]
      omega
    rw [Vector.toList_set]
    exact take_succ_set hlen ch
  unfold feed
  split
  case h_4 =>
    by_cases hlast : p.frameIdx + 1 ≥ 14
    · simp only [dif_pos hlast]
      exact ⟨trivial, trivial, hstore, (if_pos (by omega)).symm⟩
    · simp only [dif_neg hlast]
      exact ⟨trivial, trivial, hstore, (if_neg (by omega)).symm⟩
  all_goals next hs => rw [h] at hs; cases hs

end Feed

/-! ## Many bytes -/

/-- The state after all of `bytes` were read. -/
def after (p : Parser) (bytes : List UInt8) : Parser := bytes.foldl (fun p ch => (feed p ch).1) p

theorem after_append (p : Parser) (a b : List UInt8) : after p (a ++ b) = after (after p a) b :=
  List.foldl_append

theorem outputs_cons_none {ch : UInt8} (h : (feed p ch).2 = none) (bytes : List UInt8) :
    outputs feed p (ch :: bytes) = outputs feed (feed p ch).1 bytes := by
  rw [outputs, h]
  rfl

/-- The static states a port can bring about. -/
def Parser.Reachable (p : Parser) : Prop := ∃ bytes, after .start bytes = p

section Read

variable {now : Timeval} {p : Parser} {ch : UInt8} {line : List UInt8}

theorem radarReadData_none (h : (feed p ch).2 = none) :
    (radarReadData now p (ch :: line) : ReadResult K) =
      radarReadData now (feed p ch).1 line := by
  rw [radarReadData]
  split
  · next hf => rw [hf] at h; cases h
  · next hf => rw [hf]

theorem radarReadData_some {payload : Vector UInt8 14} (h : (feed p ch).2 = some payload) :
    (radarReadData now p (ch :: line) : ReadResult K) =
      ⟨0, (feed p ch).1, some (decode now payload), line⟩ := by
  rw [radarReadData]
  split
  · next hf =>
    rw [hf] at h ⊢
    cases h
    rfl
  · next hf => rw [hf] at h; cases h

theorem radarReadData_outputs (now : Timeval) (p : Parser) (line : List UInt8) :
    ∃ used, line = used ++ (radarReadData now p line : ReadResult K).line ∧
      (radarReadData now p line : ReadResult K).parser = after p used ∧
      ((outputs feed p used = [] ∧ (radarReadData now p line : ReadResult K).line = [] ∧
          (radarReadData now p line : ReadResult K).code = -1 ∧
          (radarReadData now p line : ReadResult K).detection = none) ∨
        ∃ payload, used ≠ [] ∧ outputs feed p used = [payload] ∧
          (radarReadData now p line : ReadResult K).code = 0 ∧
          (radarReadData now p line : ReadResult K).detection = some (decode now payload)) := by
  induction line generalizing p with
  | nil => exact ⟨[], rfl, rfl, .inl ⟨rfl, rfl, rfl, rfl⟩⟩
  | cons ch line ih =>
    cases hf : (feed p ch).2 with
    | none =>
      obtain ⟨used, hline, hparser, hout⟩ := ih (feed p ch).1
      rw [radarReadData_none hf]
      refine ⟨ch :: used, ?_, hparser, ?_⟩
      · rw [List.cons_append, ← hline]
      · rw [outputs_cons_none hf]
        rcases hout with hnone | ⟨payload, -, hsome⟩
        · exact .inl hnone
        · exact .inr ⟨payload, List.cons_ne_nil _ _, hsome⟩
    | some payload =>
      rw [radarReadData_some hf]
      refine ⟨[ch], rfl, rfl, .inr ⟨payload, List.cons_ne_nil _ _, ?_, rfl, rfl⟩⟩
      rw [outputs, hf]
      rfl

theorem radarReadData_shorter {d : RadarDetection K}
    (h : (radarReadData now p line).detection = some d) :
    (radarReadData now p line : ReadResult K).line.length < line.length := by
  obtain ⟨used, hline, -, hcases⟩ := radarReadData_outputs (K := K) now p line
  rcases hcases with ⟨-, -, -, hnone⟩ | ⟨-, hused, -⟩
  · rw [hnone] at h
    cases h
  · have hpos := List.length_pos_iff.mpr hused
    have hlen := congrArg List.length hline
    rw [List.length_append] at hlen
    omega

/-- Bytes that put nothing out are read by the same call. -/
theorem radarReadData_silent {used : List UInt8} (h : outputs feed p used = []) :
    (radarReadData now p (used ++ line) : ReadResult K) =
      radarReadData now (after p used) line := by
  induction used generalizing p with
  | nil => rfl
  | cons ch used ih =>
    rw [outputs, List.append_eq_nil_iff] at h
    have hnone : (feed p ch).2 = none := by
      cases hf : (feed p ch).2 with
      | none => rfl
      | some payload =>
        rw [hf] at h
        cases h.1
    rw [List.cons_append, radarReadData_none hnone, ih h.2]
    rfl

end Read

/-! ## A header and its data -/

section Data

variable {p : Parser}

theorem outputs_data (d : List UInt8) (h : p.state = .data)
    (hlen : p.frameIdx + d.length ≤ 14) :
    outputs feed p d = [] ∧ (after p d).frameIdx = p.frameIdx + d.length ∧
      (after p d).received = p.received ++ d ∧
      (after p d).state = if p.frameIdx + d.length = 14 then .check else .data := by
  induction d generalizing p with
  | nil =>
    have hlt := p.idx_lt h
    refine ⟨rfl, rfl, (List.append_nil _).symm, h.trans (if_neg ?_).symm⟩
    rw [List.length_nil]
    omega
  | cons ch d ih =>
    obtain ⟨hnone, hidx, hreceived, hstate⟩ := feed_data h ch
    rw [List.length_cons] at hlen ⊢
    rw [outputs_cons_none hnone]
    by_cases hlast : p.frameIdx + 1 = 14
    · obtain rfl : d = [] := List.eq_nil_of_length_eq_zero (by omega)
      exact ⟨rfl, hidx, hreceived, hstate⟩
    · rw [if_neg hlast] at hstate
      obtain ⟨hout, hidx', hreceived', hstate'⟩ := ih hstate (by omega)
      have hsum : p.frameIdx + 1 + d.length = p.frameIdx + (d.length + 1) := by omega
      rw [hidx, hsum] at hidx' hstate'
      refine ⟨hout, hidx', ?_, hstate'⟩
      show (after (feed p ch).1 d).received = _
      rw [hreceived', hreceived, List.append_assoc]
      rfl

theorem outputs_header (h : p.state = .idle) (bytes : List UInt8) :
    outputs feed p (0xAA :: 0x55 :: bytes) =
        outputs feed (p.goto .head1 head1_ne_data).expectData bytes ∧
      after p (0xAA :: 0x55 :: bytes) =
        after (p.goto .head1 head1_ne_data).expectData bytes := by
  have hhead := feed_idle_head h
  have hsync := feed_head1_sync (p := p.goto .head1 head1_ne_data) rfl
  constructor
  · rw [outputs_cons_none (by rw [hhead]), hhead, outputs_cons_none (by rw [hsync]), hsync]
  · show after (feed (feed p 0xAA).1 0x55).1 bytes = _
    rw [hhead, hsync]

theorem outputs_payload (h : p.state = .idle) (payload : Vector UInt8 14) :
    outputs feed p (0xAA :: 0x55 :: payload.toList) = [] ∧
      (after p (0xAA :: 0x55 :: payload.toList)).state = .check ∧
      (after p (0xAA :: 0x55 :: payload.toList)).payload = payload := by
  obtain ⟨hout, hafter⟩ := outputs_header h payload.toList
  have hsum : 0 + payload.toList.length = 14 := (Nat.zero_add _).trans Vector.length_toList
  obtain ⟨hnone, hidx, hreceived, hstate⟩ := outputs_data payload.toList
    (p := (p.goto .head1 head1_ne_data).expectData) rfl hsum.le
  rw [hout, hafter]
  refine ⟨hnone, hstate.trans (if_pos hsum), Vector.toList_inj.mp ?_⟩
  rw [Parser.payload_toList (hidx.trans hsum), hreceived]
  rfl

end Data

/-- The detections of repeated calls until one finds no more; call number `i`
happens at `clock i`. -/
def poll (clock : Nat → Timeval) (n : Nat) (p : Parser) (line : List UInt8) :
    List (RadarDetection K) :=
  match h : (radarReadData (clock n) p line : ReadResult K).detection with
  | none => []
  | some d =>
    d :: poll clock (n + 1) (radarReadData (clock n) p line : ReadResult K).parser
      (radarReadData (clock n) p line : ReadResult K).line
termination_by line.length
decreasing_by exact radarReadData_shorter h

/-! ## Frames -/

/-- A well-formed frame, by its data. -/
structure Frame where
  payload : Vector UInt8 14

def Frame.bytes (f : Frame) : List UInt8 :=
  0xAA :: 0x55 :: (f.payload.toList ++ [checksum f.payload])

@[simp] theorem Frame.bytes_length (f : Frame) : f.bytes.length = 17 := by
  simp [Frame.bytes]

def Frame.detection (now : Timeval) (f : Frame) : RadarDetection K := decode now f.payload

def zeroFrame : Frame := ⟨Vector.replicate 14 0⟩

def stream (fs : List Frame) : List UInt8 := fs.flatMap Frame.bytes

section Frame

variable {p : Parser}

/-- **An aligned frame is decoded.** -/
theorem radarReadData_frame (now : Timeval) (h : p.state = .idle) (f : Frame)
    (line : List UInt8) :
    ∃ q : Parser, q.state = .idle ∧
      radarReadData now p (f.bytes ++ line) =
        (⟨0, q, some (f.detection now), line⟩ : ReadResult K) := by
  obtain ⟨hout, hstate, hpayload⟩ := outputs_payload h f.payload
  have hbytes : f.bytes ++ line =
      (0xAA :: 0x55 :: f.payload.toList) ++ checksum f.payload :: line := by
    simp [Frame.bytes]
  have hcheck := feed_check hstate (checksum f.payload)
  rw [hpayload, if_pos rfl] at hcheck
  rw [hbytes, radarReadData_silent hout]
  exact ⟨_, by rw [hcheck]; rfl, radarReadData_some (by rw [hcheck])⟩

/-- From `STATE_IDLE` every frame of a stream is decoded. -/
theorem poll_stream (clock : Nat → Timeval) (n : Nat) (h : p.state = .idle) (fs : List Frame) :
    (poll clock n p (stream fs) : List (RadarDetection K)) =
      fs.mapIdx fun i f => f.detection (clock (n + i)) := by
  induction fs generalizing n p with
  | nil =>
    rw [poll]
    rfl
  | cons f fs ih =>
    obtain ⟨q, hq, hread⟩ := radarReadData_frame (K := K) (clock n) h f (stream fs)
    have hstream : stream (f :: fs) = f.bytes ++ stream fs := rfl
    rw [hstream, poll]
    split
    · next hd => rw [hread] at hd; cases hd
    · next d hd =>
      rw [hread] at hd ⊢
      cases hd
      rw [ih (n + 1) hq, List.mapIdx_cons]
      simp only [Nat.add_zero, Nat.add_assoc, Nat.add_comm 1]

end Frame

end Mec
