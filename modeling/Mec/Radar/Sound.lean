import Mathlib.Data.List.Forall2
import Mec.Radar.Port

/-!
# The parser is sound

Between two detections the parser's state describes the bytes it has read
(`Pending`): in `STATE_DATA` and `STATE_CHECK` they end in a header and the
data stored so far. A payload is therefore only put out at the end of a frame,
and the stream is a sequence of frames, one for each call that returned 0, with
whatever lies between them. `frame_buf` is written in `STATE_DATA` only, where
`frame_idx` is at most 13.
-/

namespace Mec

open Lib.Lts Lib.Mealy

/-- What the parser's state says about `u`, the bytes read since the last
detection. -/
def Pending (p : Parser) (u : List UInt8) : Prop :=
  match p.state with
  | .idle => True
  | .head1 => ∃ gap, u = gap ++ [0xAA]
  | .head2 => False
  | .data => ∃ gap, u = gap ++ 0xAA :: 0x55 :: p.received
  | .check => p.frameIdx = 14 ∧ ∃ gap, u = gap ++ 0xAA :: 0x55 :: p.received

/-- The bytes end in the frame with this payload. -/
def EndsFrame (payload : Vector UInt8 14) (bytes : List UInt8) : Prop :=
  ∃ gap, bytes = gap ++ Frame.bytes ⟨payload⟩

section Pending

variable {p : Parser} {u : List UInt8}

theorem pending_idle (h : p.state = .idle) (u : List UInt8) : Pending p u := by
  unfold Pending
  rw [h]
  trivial

theorem pending_head1 (h : p.state = .head1) : Pending p u ↔ ∃ gap, u = gap ++ [0xAA] := by
  unfold Pending
  rw [h]

theorem pending_data (h : p.state = .data) :
    Pending p u ↔ ∃ gap, u = gap ++ 0xAA :: 0x55 :: p.received := by
  unfold Pending
  rw [h]

theorem pending_check (h : p.state = .check) :
    Pending p u ↔ p.frameIdx = 14 ∧ ∃ gap, u = gap ++ 0xAA :: 0x55 :: p.received := by
  unfold Pending
  rw [h]

theorem Pending.ne_head2 (h : Pending p u) : p.state ≠ .head2 := by
  intro hs
  unfold Pending at h
  rw [hs] at h
  exact h

theorem Pending.step (h : Pending p u) (ch : UInt8) : Pending (feed p ch).1 (u ++ [ch]) := by
  cases hs : p.state with
  | idle =>
    rw [feed_idle hs]
    by_cases hch : ch = 0xAA
    · rw [if_pos hch, hch]
      exact (pending_head1 rfl).mpr ⟨u, rfl⟩
    · rw [if_neg hch]
      exact pending_idle hs _
  | head1 =>
    by_cases hch : ch = 0x55
    · obtain ⟨gap, rfl⟩ := (pending_head1 hs).mp h
      rw [hch, feed_head1_sync hs]
      refine (pending_data rfl).mpr ⟨gap, ?_⟩
      rw [List.append_assoc]
      rfl
    · rw [feed_head1 hs hch]
      exact pending_idle rfl _
  | head2 => exact absurd hs h.ne_head2
  | data =>
    obtain ⟨gap, rfl⟩ := (pending_data hs).mp h
    obtain ⟨-, hidx, hreceived, hstate⟩ := feed_data hs ch
    have hbytes : gap ++ 0xAA :: 0x55 :: p.received ++ [ch] =
        gap ++ 0xAA :: 0x55 :: (feed p ch).1.received := by
      rw [hreceived, List.append_assoc]
      rfl
    by_cases hlast : p.frameIdx + 1 = 14
    · rw [if_pos hlast] at hstate
      exact (pending_check hstate).mpr ⟨hidx.trans hlast, gap, hbytes⟩
    · rw [if_neg hlast] at hstate
      exact (pending_data hstate).mpr ⟨gap, hbytes⟩
  | check =>
    rw [feed_check hs]
    exact pending_idle rfl _

/-- Only a checksum byte puts a payload out, and it ends a frame. -/
theorem Pending.frame (h : Pending p u) (ch : UInt8) {payload : Vector UInt8 14}
    (hsome : (feed p ch).2 = some payload) :
    EndsFrame payload (u ++ [ch]) ∧ (feed p ch).1.state = .idle := by
  cases hs : p.state with
  | idle => rw [feed_idle hs] at hsome; cases hsome
  | head1 =>
    by_cases hch : ch = 0x55
    · rw [hch, feed_head1_sync hs] at hsome; cases hsome
    · rw [feed_head1 hs hch] at hsome; cases hsome
  | head2 => exact absurd hs h.ne_head2
  | data => rw [(feed_data hs ch).1] at hsome; cases hsome
  | check =>
    obtain ⟨hidx, gap, rfl⟩ := (pending_check hs).mp h
    rw [feed_check hs] at hsome ⊢
    refine ⟨⟨gap, ?_⟩, rfl⟩
    dsimp only at hsome
    split at hsome
    · next hcheck =>
      cases hsome
      rw [← Parser.payload_toList hidx, hcheck, List.append_assoc]
      rfl
    · cases hsome

end Pending

/-- What is put out on a stream are the payloads of disjoint frames in it, in
the order of the stream. -/
theorem outputs_feed_sound (bytes : List UInt8) :
    ∃ (pieces : List (List UInt8 × Frame)) (rest : List UInt8),
      bytes = pieces.flatMap (fun piece => piece.1 ++ piece.2.bytes) ++ rest ∧
      outputs feed .start bytes = pieces.map fun piece => piece.2.payload := by
  have hframe : ∀ p u ch payload, Pending p u → (feed p ch).2 = some payload →
      EndsFrame payload (u ++ [ch]) ∧ Pending (feed p ch).1 [] := fun _ _ ch _ h hsome =>
    ⟨(h.frame ch hsome).1, pending_idle (h.frame ch hsome).2 []⟩
  obtain ⟨segs, rest, hbytes, hout, hseg, -⟩ :=
    segments (fun _ _ ch h _ => h.step ch) hframe bytes (pending_idle (p := .start) rfl [])
  -- name the gap of each segment
  suffices ∃ pieces : List (List UInt8 × Frame),
      segs.flatMap Prod.fst = pieces.flatMap (fun piece => piece.1 ++ piece.2.bytes) ∧
      segs.map Prod.snd = pieces.map fun piece => piece.2.payload by
    obtain ⟨pieces, hsegs, hpayloads⟩ := this
    exact ⟨pieces, rest, by rw [← hsegs, ← hbytes, List.nil_append], hout.trans hpayloads⟩
  clear hbytes hout
  induction segs with
  | nil => exact ⟨[], rfl, rfl⟩
  | cons seg segs ih =>
    obtain ⟨pieces, hflat, hmap⟩ := ih fun s hs => hseg s (List.mem_cons_of_mem _ hs)
    obtain ⟨gap, hgap⟩ := hseg seg List.mem_cons_self
    refine ⟨(gap, ⟨seg.2⟩) :: pieces, ?_, ?_⟩
    · rw [List.flatMap_cons, List.flatMap_cons, hflat, hgap]
    · rw [List.map_cons, List.map_cons, hmap]

/-! ## The fields -/

/-- The 16-bit big-endian value at data bytes `i` and `i + 1`. -/
def Frame.bigEndian (f : Frame) (i : Fin 13) : Nat :=
  256 * (f.payload.get i.castSucc).toNat + (f.payload.get i.succ).toNat

theorem word_eq_bigEndian (f : Frame) (i : Fin 13) : word f.payload i = f.bigEndian i := by
  show f.payload[i.castSucc].toNat <<< 8 ||| f.payload[i.succ].toNat =
    256 * f.payload[i.castSucc].toNat + f.payload[i.succ].toNat
  have hlow : f.payload[i.succ].toNat < 2 ^ 8 := UInt8.toNat_lt _
  rw [← Nat.shiftLeft_add_eq_or_of_lt hlow, Nat.shiftLeft_eq]
  omega

variable {K : Type} [Field K]

/-- The detection holds the frame's values in the documented scales. -/
structure Reports (now : Timeval) (f : Frame) (d : RadarDetection K) : Prop where
  targetId : d.targetId = f.bigEndian 0
  range : d.range = f.bigEndian 2 * 0.1
  angle : d.angle = f.bigEndian 4 * 0.1 - 180.0
  velocity : d.velocity = f.bigEndian 6 * 0.1
  rcs : d.rcs = f.bigEndian 8 * 0.1 - 50.0
  timestamp : d.timestamp = now

theorem reports_decode (now : Timeval) (f : Frame) :
    Reports now f (decode now f.payload : RadarDetection K) := by
  constructor <;> simp only [decode, word_eq_bigEndian]

/-! ## The buffer -/

/-- The byte is stored at an index of at most 13 or not at all. -/
structure StoresInside (p : Parser) (ch : UInt8) : Prop where
  index_le : p.state = .data → p.frameIdx ≤ 13
  stored : p.state = .data → (feed p ch).1.frameBuf = p.frameBuf.setIfInBounds p.frameIdx ch
  untouched : p.state ≠ .data → (feed p ch).1.frameBuf = p.frameBuf

theorem feed_storesInside (p : Parser) (ch : UInt8) : StoresInside p ch where
  index_le h := Nat.le_of_lt_succ (p.idx_lt h)
  stored h := by
    have hidx := p.idx_lt h
    unfold feed
    split
    case h_4 =>
      have hset : p.frameBuf.setIfInBounds p.frameIdx ch =
          p.frameBuf.set p.frameIdx ch (Nat.lt_trans hidx (by decide)) := by
        refine Vector.ext fun i hi => ?_
        rw [Vector.getElem_setIfInBounds hi, Vector.getElem_set _ hi]
      by_cases hlast : p.frameIdx + 1 ≥ 14
      · simp only [dif_pos hlast, hset]
      · simp only [dif_neg hlast, hset]
    all_goals next hs => rw [h] at hs; cases hs
  untouched h := by
    unfold feed
    split
    case h_1 => split <;> rfl
    case h_2 => split <;> rfl
    case h_3 => rfl
    case h_4 => next hs => exact absurd hs h
    case h_5 => rfl

/-- **The parser is sound.** However the stream arrives and is cut into calls,
starting from the initial state: the bytes read are a sequence of disjoint
frames with gaps, one frame for each call that returned 0 and in the same
order, and that call wrote the frame's values. No byte read is stored beyond
index 13 of `frame_buf`. -/
theorem radarReadData_sound {tr : List (PortCall × Option (ReadReply K))} {s : Port}
    (h : Run portStep ⟨.start, []⟩ tr s) :
    ∃ (pieces : List (List UInt8 × Frame)) (rest : List UInt8),
      arrived tr = pieces.flatMap (fun piece => piece.1 ++ piece.2.bytes) ++ rest ++ s.line ∧
      List.Forall₂ (fun call piece => ∃ d, call.2 = some d ∧ Reports call.1 piece.2 d)
        (successes tr) pieces ∧
      ∀ used ch more, arrived tr = used ++ ch :: more → StoresInside (after .start used) ch := by
  obtain ⟨used, hline, -, hcalls⟩ := portStep_reads h
  obtain ⟨pieces, rest, hused, hout⟩ := outputs_feed_sound used
  refine ⟨pieces, rest, ?_, ?_, fun used ch _ _ => feed_storesInside _ ch⟩
  · rw [← hused]
    exact hline
  · dsimp only at hcalls
    rw [hout, List.forall₂_map_right_iff] at hcalls
    exact hcalls.imp fun call piece hd => ⟨_, hd, reports_decode call.1 piece.2⟩

theorem radarReadData_sound_cut :
    ∃ (tr : List (PortCall × Option (ReadReply ℚ))) (s : Port),
      Run portStep ⟨.start, []⟩ tr s ∧ (successes tr).length = 1 ∧
        ∃ (pieces : List (List UInt8 × Frame)) (rest : List UInt8),
          arrived tr = pieces.flatMap (fun piece => piece.1 ++ piece.2.bytes) ++ rest ++ s.line := by
  have hrun : Run (portStep (K := ℚ)) ⟨.start, []⟩
      [(.arrive (0x01 :: zeroFrame.bytes.take 5), none), (.read ⟨5, 0⟩, _),
        (.arrive (zeroFrame.bytes.drop 5), none), (.read ⟨6, 0⟩, _)] _ :=
    .cons rfl (.cons rfl (.cons rfl (.cons rfl (.nil _))))
  obtain ⟨pieces, rest, hpieces, -⟩ := radarReadData_sound hrun
  exact ⟨_, _, hrun, rfl, pieces, rest, hpieces⟩

end Mec
