import Mec.Radar.Parser

/-!
# Regaining frame alignment

What a parser that is not in `STATE_IDLE` at a frame boundary does with the
frames that follow. It finishes what it is in (`Busy`), reads on through the
rest of the frame looking for a header pair (`hunt`), and is aligned again at
the next boundary unless it locked onto a pair in the data, or onto a last
`0xAA`. A phantom frame is as long as a real one, so the same can happen in
every frame for ever.
-/

namespace Mec

variable {K : Type} [Field K]

/-! ## Between two boundaries -/

/-- The bytes until the parser is back in `STATE_IDLE`, if the next one is `0xAA`. -/
def Parser.resume (p : Parser) : Nat :=
  match p.state with
  | .idle => 0
  | .head1 => 1
  | .head2 => 0
  | .data => 15 - p.frameIdx
  | .check => 1

/-- Reading from `STATE_IDLE` through the rest of a frame: `none` if the parser
ends in `STATE_IDLE`, else how far into the next frame it is busy. -/
def hunt : List UInt8 → Option Nat
  | [] => none
  | [ch] => if ch = 0xAA then some 1 else none
  | ch :: x :: rest =>
    if ch = 0xAA then
      if x = 0x55 then some (15 - rest.length) else hunt rest
    else hunt (x :: rest)

/-- The parser is inside a frame, or what it takes for one, for `r` more bytes. -/
structure Busy (p : Parser) (r : Nat) : Prop where
  busy : p.state = .head1 ∨ p.state = .data ∨ p.state = .check
  resume : p.resume = r

theorem Busy.ne_idle {p : Parser} {r : Nat} (h : Busy p r) : p.state ≠ .idle := by
  rintro hidle
  rcases h.busy with h | h | h <;> rw [hidle] at h <;> cases h

theorem Busy.finish {p : Parser} {r : Nat} (h : Busy p r) (f : Frame) :
    1 ≤ r ∧ r ≤ 15 ∧ (after p (f.bytes.take r)).state = .idle := by
  obtain ⟨hbusy, rfl⟩ := h
  rcases hbusy with hs | hs | hs
  · have hr : p.resume = 1 := by rw [Parser.resume, hs]
    rw [hr]
    refine ⟨by omega, by omega, ?_⟩
    show (feed p 0xAA).1.state = .idle
    rw [feed_head1 hs (by decide)]
    rfl
  · have hr : p.resume = 15 - p.frameIdx := by rw [Parser.resume, hs]
    have hlt := p.idx_lt hs
    rw [hr]
    refine ⟨by omega, by omega, ?_⟩
    obtain ⟨d, ch, hd⟩ : ∃ d ch, f.bytes.take (15 - p.frameIdx) = d ++ [ch] := by
      rcases List.eq_nil_or_concat (f.bytes.take (15 - p.frameIdx)) with hnil | ⟨d, ch, hd⟩
      · have hlen := congrArg List.length hnil
        rw [List.length_take, f.bytes_length, List.length_nil] at hlen
        omega
      · exact ⟨d, ch, by rw [hd, List.concat_eq_append]⟩
    have hlen := congrArg List.length hd
    rw [List.length_take, f.bytes_length, List.length_append, List.length_singleton] at hlen
    obtain ⟨-, -, -, hstate⟩ := outputs_data d hs (by omega)
    rw [if_pos (by omega)] at hstate
    rw [hd, after_append]
    show (feed (after p d) ch).1.state = .idle
    rw [feed_check hstate]
    rfl
  · have hr : p.resume = 1 := by rw [Parser.resume, hs]
    rw [hr]
    refine ⟨by omega, by omega, ?_⟩
    show (feed p 0xAA).1.state = .idle
    rw [feed_check hs]
    rfl

/-- Locked onto a pair, the parser takes what follows as data. -/
theorem busy_of_pair {p : Parser} (h : p.state = .idle) (rest : List UInt8)
    (hlen : rest.length ≤ 13) : Busy (after p (0xAA :: 0x55 :: rest)) (15 - rest.length) := by
  obtain ⟨-, hidx, -, hstate⟩ := outputs_data rest
    (p := (p.goto .head1 head1_ne_data).expectData) rfl (by show 0 + rest.length ≤ 14; omega)
  rw [if_neg (by show 0 + rest.length ≠ 14; omega)] at hstate
  rw [(outputs_header h rest).2]
  refine ⟨.inr (.inl hstate), ?_⟩
  rw [Parser.resume, hstate]
  show 15 - _ = _
  rw [hidx]
  show 15 - (0 + rest.length) = _
  rw [Nat.zero_add]

/-- What `hunt` says is what the parser does. -/
theorem hunt_spec (l : List UInt8) {p : Parser} (h : p.state = .idle) (hlen : l.length ≤ 15) :
    (hunt l = none → (after p l).state = .idle) ∧
      ∀ r, hunt l = some r → Busy (after p l) r := by
  induction l using hunt.induct generalizing p with
  | case1 => exact ⟨fun _ => h, fun r hr => by cases hr⟩
  | case2 =>
    have hafter : after p [0xAA] = p.goto .head1 head1_ne_data :=
      congrArg Prod.fst (feed_idle_head h)
    refine ⟨fun hn => by simp [hunt] at hn, fun r hr => ?_⟩
    obtain rfl : 1 = r := by simpa [hunt] using hr
    exact ⟨.inl (by rw [hafter]; rfl), by rw [hafter]; rfl⟩
  | case3 ch hch =>
    have hafter : after p [ch] = p := congrArg Prod.fst (feed_idle_other h hch)
    refine ⟨fun _ => by rw [hafter]; exact h, fun r hr => ?_⟩
    simp [hunt, hch] at hr
  | case4 rest =>
    simp only [List.length_cons] at hlen
    refine ⟨fun hn => by simp [hunt] at hn, fun r hr => ?_⟩
    obtain rfl : 15 - rest.length = r := by simpa [hunt] using hr
    exact busy_of_pair h rest (by omega)
  | case5 x rest hx ih =>
    have hafter : after p (0xAA :: x :: rest) =
        after ((p.goto .head1 head1_ne_data).goto .idle idle_ne_data) rest := by
      show after (feed (feed p 0xAA).1 x).1 rest = _
      rw [feed_idle_head h, feed_head1 (p := p.goto .head1 head1_ne_data) rfl hx]
    have hhunt : hunt (0xAA :: x :: rest) = hunt rest := by simp [hunt, hx]
    simp only [List.length_cons] at hlen
    rw [hafter, hhunt]
    exact ih rfl (by omega)
  | case6 ch x rest hch ih =>
    have hafter : after p (ch :: x :: rest) = after p (x :: rest) := by
      show after (feed p ch).1 (x :: rest) = _
      rw [feed_idle_other h hch]
    have hhunt : hunt (ch :: x :: rest) = hunt (x :: rest) := by simp [hunt, hch]
    simp only [List.length_cons] at hlen
    rw [hafter, hhunt]
    exact ih h (by rw [List.length_cons]; omega)

/-- **One frame** seen by a parser that is busy at its start. -/
theorem Busy.frame {p : Parser} {r : Nat} (h : Busy p r) (f : Frame) :
    (hunt (f.bytes.drop r) = none → (after p f.bytes).state = .idle) ∧
      ∀ r', hunt (f.bytes.drop r) = some r' → Busy (after p f.bytes) r' := by
  obtain ⟨hpos, hle, hidle⟩ := h.finish f
  have hafter : after p f.bytes = after (after p (f.bytes.take r)) (f.bytes.drop r) := by
    rw [← after_append, List.take_append_drop]
  rw [hafter]
  by_cases hr : r = 1
  · -- the header's second byte is skipped first
    subst hr
    have hdrop : f.bytes.drop 1 = 0x55 :: (f.payload.toList ++ [checksum f.payload]) := rfl
    have hne : f.payload.toList ++ [checksum f.payload] ≠ [] :=
      List.append_ne_nil_of_right_ne_nil _ (List.cons_ne_nil _ _)
    obtain ⟨x, rest, hrest⟩ := List.exists_cons_of_ne_nil hne
    have hlen : (x :: rest).length = 15 := by
      rw [← hrest, List.length_append, Vector.length_toList]
      rfl
    have hhunt : hunt (f.bytes.drop 1) = hunt (x :: rest) := by
      rw [hdrop, hrest]
      simp [hunt]
    have hskip : after (after p (f.bytes.take 1)) (f.bytes.drop 1) =
        after (after p (f.bytes.take 1)) (x :: rest) := by
      rw [hdrop, hrest]
      show after (feed _ 0x55).1 _ = _
      rw [feed_idle_other hidle (by decide)]
    rw [hhunt, hskip]
    exact hunt_spec (x :: rest) hidle hlen.le
  · exact hunt_spec _ hidle (by rw [List.length_drop, f.bytes_length]; omega)

/-! ## Many frames -/

/-- In each of the frames the parser, busy for the first `r` bytes, locks onto
something before the frame ends. -/
def Phantom : Nat → List Frame → Prop
  | _, [] => True
  | r, f :: fs => ∃ r', hunt (f.bytes.drop r) = some r' ∧ Phantom r' fs

theorem phantom_iff (fs : List Frame) {p : Parser} {r : Nat} (h : Busy p r) :
    Phantom r fs ↔ ∀ j ≤ fs.length, (after p (stream (fs.take j))).state ≠ .idle := by
  induction fs generalizing p r with
  | nil =>
    refine iff_of_true trivial fun j _ => ?_
    rw [List.take_nil]
    exact h.ne_idle
  | cons f fs ih =>
    have hstep (j : Nat) : after p (stream ((f :: fs).take (j + 1))) =
        after (after p f.bytes) (stream (fs.take j)) := after_append p _ _
    obtain ⟨hnone, hsome⟩ := h.frame f
    constructor
    · rintro ⟨r', hhunt, hphantom⟩ j hj
      cases j with
      | zero => exact h.ne_idle
      | succ j =>
        rw [hstep]
        exact (ih (hsome r' hhunt)).mp hphantom j (Nat.le_of_succ_le_succ hj)
    · intro hbusy
      cases hhunt : hunt (f.bytes.drop r) with
      | none =>
        have := hbusy 1 (Nat.succ_le_succ (Nat.zero_le _))
        rw [hstep] at this
        exact absurd (hnone hhunt) this
      | some r' =>
        refine ⟨r', hhunt, (ih (hsome r' hhunt)).mpr fun j hj => ?_⟩
        rw [← hstep]
        exact hbusy (j + 1) (Nat.succ_le_succ hj)

/-- Within the first `bound` frames the parser is in `STATE_IDLE` at a frame
boundary, and from there it reports exactly the frames that follow. -/
def Regains (K : Type) [Field K] (p : Parser) (fs : List Frame) (bound : Nat) : Prop :=
  ∃ j ≤ bound, (after p (stream (fs.take j))).state = .idle ∧
    ∀ clock, (poll clock 0 (after p (stream (fs.take j))) (stream (fs.drop j)) :
        List (RadarDetection K)) =
      (fs.drop j).mapIdx fun i f => f.detection (clock i)

theorem regains_iff_idle {p : Parser} {fs : List Frame} {bound : Nat} :
    Regains K p fs bound ↔ ∃ j ≤ bound, (after p (stream (fs.take j))).state = .idle := by
  constructor
  · rintro ⟨j, hj, hidle, -⟩
    exact ⟨j, hj, hidle⟩
  · rintro ⟨j, hj, hidle⟩
    refine ⟨j, hj, hidle, fun clock => ?_⟩
    rw [poll_stream clock 0 hidle]
    simp only [Nat.zero_add]

theorem Busy.regains_iff {p : Parser} {r : Nat} (h : Busy p r) {fs : List Frame} {bound : Nat}
    (hlen : bound < fs.length) : Regains K p fs bound ↔ ¬Phantom r (fs.take bound) := by
  rw [regains_iff_idle, phantom_iff _ h, List.length_take, Nat.min_eq_left hlen.le]
  simp only [not_forall, not_not, exists_prop]
  refine exists_congr fun j => and_congr_right fun hj => ?_
  rw [List.take_take, Nat.min_eq_left hj]

theorem feed_ne_head2 {p : Parser} (h : p.state ≠ .head2) (ch : UInt8) :
    (feed p ch).1.state ≠ .head2 := by
  cases hs : p.state with
  | idle =>
    rw [feed_idle hs]
    by_cases hch : ch = 0xAA
    · simp [hch]
    · simp [hch, hs]
  | head1 =>
    by_cases hch : ch = 0x55
    · subst hch
      rw [feed_head1_sync hs]
      simp [Parser.expectData]
    · rw [feed_head1 hs hch]
      simp
  | head2 => exact absurd hs h
  | data =>
    rw [(feed_data hs ch).2.2.2]
    split <;> simp
  | check =>
    rw [feed_check hs]
    simp

theorem Parser.Reachable.ne_head2 {p : Parser} (h : p.Reachable) : p.state ≠ .head2 := by
  obtain ⟨bytes, rfl⟩ := h
  suffices ∀ q : Parser, q.state ≠ .head2 → (after q bytes).state ≠ .head2 from
    this .start (by decide)
  induction bytes with
  | nil => exact fun q hq => hq
  | cons ch bytes ih => exact fun q hq => ih _ (feed_ne_head2 hq ch)

theorem Parser.Reachable.busy {p : Parser} (h : p.Reachable) (hne : p.state ≠ .idle) :
    Busy p p.resume := by
  refine ⟨?_, rfl⟩
  cases hs : p.state with
  | idle => exact absurd hs hne
  | head1 => exact .inl rfl
  | head2 => exact absurd hs h.ne_head2
  | data => exact .inr (.inl rfl)
  | check => exact .inr (.inr rfl)

/-- **When alignment is regained.** A reachable parser is back in `STATE_IDLE`
within the first `bound` frames, and then reports every following frame,
exactly if it starts there or one of these frames holds nothing for it to lock
onto. -/
theorem regains_alignment_iff {p : Parser} (h : p.Reachable) (fs : List Frame) (bound : Nat)
    (hlen : bound < fs.length) :
    Regains K p fs bound ↔ p.state = .idle ∨ ¬Phantom p.resume (fs.take bound) := by
  by_cases hidle : p.state = .idle
  · exact iff_of_true (regains_iff_idle.mpr ⟨0, Nat.zero_le _, hidle⟩) (.inl hidle)
  · rw [(h.busy hidle).regains_iff hlen, or_iff_right hidle]

def echoFrame : Frame := ⟨#v[0, 0, 0xAA, 0x55, 0, 0, 0, 0, 0, 0, 0, 0, 0, 0]⟩

def lockedParser : Parser := after .start ([0xAA, 0x55] ++ List.replicate 11 0)

theorem lockedParser_busy : Busy lockedParser 4 := ⟨.inr (.inl (by decide)), by decide⟩

theorem phantom_echo (n : Nat) : Phantom 4 (List.replicate n echoFrame) := by
  induction n with
  | zero => trivial
  | succ n ih => exact ⟨4, by decide, ih⟩

theorem regains_alignment_iff_zero :
    Regains ℚ lockedParser [echoFrame, zeroFrame, zeroFrame] 2 ↔
      lockedParser.state = .idle ∨
        ¬Phantom lockedParser.resume ([echoFrame, zeroFrame, zeroFrame].take 2) :=
  regains_alignment_iff ⟨_, rfl⟩ _ 2 (by decide)

/-- Frames that repeat the header in their data keep the parser misaligned for ever. -/
theorem misaligned_for_ever :
    ¬∃ bound, ∀ p : Parser, p.Reachable → ∀ fs : List Frame, bound < fs.length →
      Regains ℚ p fs bound := by
  rintro ⟨bound, h⟩
  have hregains := h lockedParser ⟨_, rfl⟩ (List.replicate (bound + 1) echoFrame) (by simp)
  rw [lockedParser_busy.regains_iff (by simp), List.take_replicate,
    Nat.min_eq_left (Nat.le_succ bound)] at hregains
  exact hregains (phantom_echo bound)

end Mec
