import Mathlib.Data.List.Forall2
import Mec.Radar.Port

/-!
# The parser is complete on aligned traffic

Traffic is frames with any check byte, between gaps that hold no `0xAA`. From
`STATE_IDLE` a gap leaves the parser as it is, and a frame is read to its end
whatever its payload and brings it back to `STATE_IDLE`, with the payload put
out if the check byte is right. Every call reads at least one of the waiting
bytes, so repeated calls come to the end of the line.
-/

namespace Mec

open Lib.Lts Lib.Mealy

/-- A frame as it was sent, and the gap before it. -/
structure Sent where
  gap : List UInt8
  payload : Vector UInt8 14
  check : UInt8

namespace Sent

def bytes (x : Sent) : List UInt8 := x.gap ++ 0xAA :: 0x55 :: (x.payload.toList ++ [x.check])

def Good (x : Sent) : Prop := x.check = checksum x.payload

instance (x : Sent) : Decidable x.Good := inferInstanceAs (Decidable (_ = _))

def frame (x : Sent) : Frame := ⟨x.payload⟩

end Sent

def traffic (items : List Sent) (last : List UInt8) : List UInt8 :=
  items.flatMap Sent.bytes ++ last

def goodFrames (items : List Sent) : List Frame := (items.filter fun x => x.Good).map Sent.frame

section Bytes

variable {p : Parser}

theorem outputs_gap (h : p.state = .idle) {gap : List UInt8} (hgap : ∀ ch ∈ gap, ch ≠ 0xAA) :
    outputs feed p gap = [] ∧ after p gap = p := by
  induction gap with
  | nil => exact ⟨rfl, rfl⟩
  | cons ch gap ih =>
    have hfeed := feed_idle_other h (hgap ch List.mem_cons_self)
    obtain ⟨hout, hafter⟩ := ih fun c hc => hgap c (List.mem_cons_of_mem _ hc)
    constructor
    · rw [outputs_cons_none (by rw [hfeed]), hfeed]
      exact hout
    · show after (feed p ch).1 gap = p
      rw [hfeed]
      exact hafter

theorem outputs_sent (h : p.state = .idle) (payload : Vector UInt8 14) (check : UInt8) :
    outputs feed p (0xAA :: 0x55 :: (payload.toList ++ [check])) =
        (if check = checksum payload then [payload] else []) ∧
      (after p (0xAA :: 0x55 :: (payload.toList ++ [check]))).state = .idle := by
  obtain ⟨hout, hstate, hpayload⟩ := outputs_payload h payload
  have hcheck := feed_check hstate check
  rw [hpayload] at hcheck
  rw [← List.cons_append, ← List.cons_append]
  constructor
  · rw [outputs_append, hout, List.nil_append]
    show outputs feed (after p _) [check] = _
    rw [outputs, hcheck, outputs]
    split <;> rfl
  · rw [after_append]
    show (feed (after p _) check).1.state = .idle
    rw [hcheck]
    rfl

/-- From `STATE_IDLE` to `STATE_IDLE`, and exactly the good payloads are put out. -/
theorem outputs_traffic (items : List Sent) {last : List UInt8} {p : Parser}
    (h : p.state = .idle) (hgaps : ∀ x ∈ items, ∀ ch ∈ x.gap, ch ≠ 0xAA)
    (hlast : ∀ ch ∈ last, ch ≠ 0xAA) :
    outputs feed p (traffic items last) = (goodFrames items).map Frame.payload ∧
      (after p (traffic items last)).state = .idle := by
  induction items generalizing p with
  | nil =>
    obtain ⟨hout, hafter⟩ := outputs_gap h hlast
    refine ⟨hout, ?_⟩
    show (after p last).state = .idle
    rw [hafter]
    exact h
  | cons x items ih =>
    obtain ⟨hgap, hskip⟩ := outputs_gap h (hgaps x List.mem_cons_self)
    obtain ⟨hout, hidle⟩ := outputs_sent h x.payload x.check
    obtain ⟨hrest, hend⟩ := ih hidle fun y hy => hgaps y (List.mem_cons_of_mem _ hy)
    have hbytes : traffic (x :: items) last =
        x.gap ++ (0xAA :: 0x55 :: (x.payload.toList ++ [x.check]) ++ traffic items last) := by
      unfold traffic
      rw [List.flatMap_cons, Sent.bytes]
      simp only [List.append_assoc, List.cons_append]
    have hrun : ∀ bytes, run feed p bytes = after p bytes := fun _ => rfl
    rw [hbytes]
    constructor
    · rw [outputs_append, hgap, List.nil_append, hrun, hskip, outputs_append, hout, hrun, hrest]
      unfold goodFrames
      by_cases hgood : x.Good
      · have hcheck : x.check = checksum x.payload := hgood
        rw [if_pos hcheck, List.filter_cons_of_pos (by simpa using hgood)]
        rfl
      · have hcheck : ¬x.check = checksum x.payload := hgood
        rw [if_neg hcheck, List.filter_cons_of_neg (by simpa using hgood)]
        rfl
    · rw [after_append, hskip, after_append]
      exact hend

end Bytes

/-! ## Reading to the end -/

variable {K : Type} [Field K]

theorem radarReadData_line_lt (now : Timeval) (p : Parser) {line : List UInt8} (h : line ≠ []) :
    (radarReadData now p line : ReadResult K).line.length < line.length := by
  have hpos := List.length_pos_iff.mpr h
  obtain ⟨used, hline, -, ⟨-, hnil, -⟩ | ⟨_, hused, -⟩⟩ :=
    radarReadData_outputs (K := K) now p line
  · rw [hnil]
    exact hpos
  · have hlen := congrArg List.length hline
    have hused := List.length_pos_iff.mpr hused
    rw [List.length_append] at hlen
    omega

/-- As many calls as there are bytes empty the line. -/
theorem portStep_drain (nows : List Timeval) {s : Port} (h : s.line.length ≤ nows.length) :
    ∃ (tr : List (PortCall × Option (ReadReply K))) (t : Port),
      tr.map Prod.fst = nows.map .read ∧ Run portStep s tr t ∧ t.line = [] := by
  induction nows generalizing s with
  | nil => exact ⟨[], s, rfl, .nil s, List.eq_nil_of_length_eq_zero (Nat.le_zero.mp h)⟩
  | cons now nows ih =>
    have hlen : (radarReadData now s.parser s.line : ReadResult K).line.length ≤ nows.length := by
      rw [List.length_cons] at h
      by_cases hnil : s.line = []
      · rw [hnil]
        exact Nat.zero_le _
      · have := radarReadData_line_lt (K := K) now s.parser hnil
        omega
    let r : ReadResult K := radarReadData now s.parser s.line
    obtain ⟨tr, t, hcalls, hrun, ht⟩ := ih (s := ⟨r.parser, r.line⟩) hlen
    exact ⟨(.read now, some ⟨r.code, r.detection⟩) :: tr, t, by rw [List.map_cons, hcalls]; rfl,
      .cons rfl hrun, ht⟩

/-- **The parser is complete on aligned traffic.** From `STATE_IDLE`, after any
run in which the traffic arrived, as many more calls as bytes wait leave nothing
to read: all calls together returned the detections of the frames with a correct
checksum, in order, and the parser is in `STATE_IDLE`. -/
theorem radarReadData_complete {p : Parser} (hp : p.state = .idle) {items : List Sent}
    {last : List UInt8} (hgaps : ∀ x ∈ items, ∀ ch ∈ x.gap, ch ≠ 0xAA)
    (hlast : ∀ ch ∈ last, ch ≠ 0xAA) {tr : List (PortCall × Option (ReadReply K))} {s : Port}
    (h : Run portStep ⟨p, []⟩ tr s) (harrived : arrived tr = traffic items last)
    {nows : List Timeval} (hnows : s.line.length ≤ nows.length) :
    ∃ (tr' : List (PortCall × Option (ReadReply K))) (t : Port),
      tr'.map Prod.fst = nows.map .read ∧ Run portStep s tr' t ∧
      t.line = [] ∧ t.parser.state = .idle ∧
      List.Forall₂ (fun call f => call.2 = some (f.detection call.1)) (successes (tr ++ tr'))
        (goodFrames items) := by
  obtain ⟨tr', t, hcalls, hrun, ht⟩ := portStep_drain (K := K) nows hnows
  obtain ⟨used, hline, hparser, hdecodes⟩ := portStep_reads (h.append hrun)
  have harr : arrived (tr ++ tr') = traffic items last := by
    rw [arrived, List.flatMap_append]
    show arrived tr ++ arrived tr' = _
    rw [arrived_reads hcalls, List.append_nil, harrived]
  have hused : used = traffic items last := by
    rw [harr, ht, List.append_nil] at hline
    exact hline.symm
  obtain ⟨hout, hidle⟩ := outputs_traffic items hp hgaps hlast
  dsimp only at hparser hdecodes
  rw [hused] at hparser hdecodes
  rw [hout, List.forall₂_map_right_iff] at hdecodes
  exact ⟨tr', t, hcalls, hrun, ht, by rw [hparser]; exact hidle, hdecodes⟩

theorem radarReadData_complete_bad_then_good :
    ∃ (tr tr' : List (PortCall × Option (ReadReply ℚ))) (s t : Port),
      Run portStep ⟨.start, []⟩ tr s ∧ Run portStep s tr' t ∧ t.parser.state = .idle ∧
        (successes (tr ++ tr')).length = 1 := by
  have hrun : Run (portStep (K := ℚ)) ⟨.start, []⟩
      [(.arrive [0x01, 0xAA], none), (.read ⟨5, 0⟩, _), (.read ⟨5, 9⟩, _),
        (.arrive (0x55 :: (List.replicate 14 0xAA ++ 0x07 :: zeroFrame.bytes)), none)] _ :=
    .cons rfl (.cons rfl (.cons rfl (.cons rfl (.nil _))))
  obtain ⟨tr', t, -, hrest, -, hidle, hcalls⟩ := @radarReadData_complete ℚ _ .start rfl
    [⟨[0x01], Vector.replicate 14 0xAA, 0x07⟩, ⟨[], zeroFrame.payload, 0⟩] [] (by simp)
    (by simp) _ _ hrun rfl (List.replicate 40 ⟨6, 0⟩) (by decide)
  exact ⟨_, tr', _, t, hrun, hrest, hidle, hcalls.length_eq⟩

end Mec
