import Mathlib.Algebra.Group.Even
import Mathlib.Algebra.Group.Nat.Even
import Mathlib.Data.List.Induction
import Mec.Radar.Parser

/-!
# Noise before a frame

What the parser makes of bytes that hold no header pair. Between frames it is
in `STATE_IDLE` or `STATE_HEAD1`; a mismatch in `STATE_HEAD1` returns to
`STATE_IDLE` without looking at the mismatching byte again, so in a run of
`0xAA` bytes the two states alternate. A frame after the noise is decoded
exactly if that alternation ends in `STATE_IDLE`.
-/

namespace Mec

variable {K : Type} [Field K]

def trailingAA (N : List UInt8) : Nat := (N.reverse.takeWhile (· == 0xAA)).length

theorem trailingAA_concat (N : List UInt8) (x : UInt8) :
    trailingAA (N ++ [x]) = if x = 0xAA then trailingAA N + 1 else 0 := by
  unfold trailingAA
  rw [List.reverse_append, List.reverse_singleton, List.singleton_append, List.takeWhile_cons]
  by_cases h : x = 0xAA
  · rw [if_pos (beq_iff_eq.mpr h), if_pos h, List.length_cons]
  · rw [if_neg (by simpa using h), if_neg h, List.length_nil]

theorem getLast_of_trailingAA {N : List UInt8} (h : trailingAA N ≠ 0) :
    N[N.length - 1]? = some 0xAA := by
  rcases List.eq_nil_or_concat N with rfl | ⟨M, x, rfl⟩
  · exact absurd rfl h
  · rw [List.concat_eq_append] at h ⊢
    rw [trailingAA_concat] at h
    split at h
    · next hx =>
      subst hx
      simp
    · exact absurd rfl h

/-- The state noise leaves behind. -/
def noiseState (N : List UInt8) : ParseState := if Even (trailingAA N) then .idle else .head1

theorem feed_noise {M : List UInt8} {x : UInt8} {q : Parser} (hq : q.state = noiseState M)
    (hx55 : trailingAA M ≠ 0 → x ≠ 0x55) :
    (feed q x).1.state = noiseState (M ++ [x]) ∧ (feed q x).2 = none := by
  unfold noiseState at hq ⊢
  rw [trailingAA_concat]
  by_cases heven : Even (trailingAA M)
  · rw [if_pos heven] at hq
    rw [feed_idle hq]
    refine ⟨?_, rfl⟩
    by_cases hx : x = 0xAA
    · rw [if_pos hx, if_pos hx, if_neg (Nat.not_even_iff_odd.mpr heven.add_one)]
      rfl
    · rw [if_neg hx, if_neg hx, if_pos Even.zero]
      exact hq
  · rw [if_neg heven] at hq
    have hne : trailingAA M ≠ 0 := fun h0 => heven (by rw [h0]; exact Even.zero)
    rw [feed_head1 hq (hx55 hne)]
    refine ⟨?_, rfl⟩
    by_cases hx : x = 0xAA
    · rw [if_pos hx, if_pos (Nat.not_even_iff_odd.mp heven).add_one]
      rfl
    · rw [if_neg hx, if_pos Even.zero]
      rfl

/-- A list holds no header pair. -/
def NoPair (N : List UInt8) : Prop :=
  ∀ i, i + 1 < N.length → ¬(N[i]? = some 0xAA ∧ N[i + 1]? = some 0x55)

theorem NoPair.init {M : List UInt8} {x : UInt8} (h : NoPair (M ++ [x])) : NoPair M := by
  intro i hi
  have := h i (by rw [List.length_append]; omega)
  rwa [List.getElem?_append_left (by omega), List.getElem?_append_left hi] at this

theorem NoPair.concat_ne {M : List UInt8} {x : UInt8} (h : NoPair (M ++ [x]))
    (hne : trailingAA M ≠ 0) : x ≠ 0x55 := by
  rintro rfl
  have hlast := getLast_of_trailingAA hne
  have hpos : M.length ≠ 0 := by
    rintro h0
    rw [List.eq_nil_of_length_eq_zero h0] at hlast
    cases hlast
  have hlt : M.length - 1 + 1 < (M ++ [(0x55 : UInt8)]).length := by
    rw [List.length_append, List.length_singleton]; omega
  refine h (M.length - 1) hlt ⟨?_, ?_⟩
  · rw [List.getElem?_append_left (by omega)]
    exact hlast
  · rw [Nat.sub_add_cancel (by omega), List.getElem?_append_right (Nat.le_refl _), Nat.sub_self]
    rfl

theorem radarReadData_noise (now : Timeval) {p : Parser} (h : p.state = .idle) (N : List UInt8)
    (line : List UInt8) (hpair : NoPair N) :
    ∃ q : Parser, q.state = noiseState N ∧
      (radarReadData now p (N ++ line) : ReadResult K) = radarReadData now q line := by
  induction N using List.reverseRecOn generalizing line with
  | nil => exact ⟨p, h, rfl⟩
  | append_singleton M x ih =>
    obtain ⟨q, hq, hread⟩ := ih (x :: line) hpair.init
    obtain ⟨hstate, hnone⟩ := feed_noise hq hpair.concat_ne
    rw [List.append_assoc, List.singleton_append, hread]
    exact ⟨_, hstate, radarReadData_none hnone⟩

/-! ## Too few bytes for a frame -/

/-- A lower bound on the bytes before the next detection. -/
def Parser.need (p : Parser) : Nat :=
  match p.state with
  | .idle => 17
  | .head1 => 16
  | .head2 => 17
  | .data => 15 - p.frameIdx
  | .check => 1

theorem need_feed (p : Parser) (ch : UInt8) :
    p.need ≤ (feed p ch).1.need + 1 ∧ ((feed p ch).2 ≠ none → p.need = 1) := by
  cases h : p.state with
  | idle =>
    rw [feed_idle h]
    by_cases hch : ch = 0xAA
    · simp [hch, Parser.need, h]
    · simp [hch, Parser.need, h]
  | head1 =>
    by_cases hch : ch = 0x55
    · subst hch
      rw [feed_head1_sync h]
      simp [Parser.need, h, Parser.expectData]
    · rw [feed_head1 h hch]
      simp [Parser.need, h]
  | head2 =>
    rw [feed_head2 h]
    exact ⟨Nat.le_succ _, fun hne => absurd rfl hne⟩
  | data =>
    obtain ⟨hnone, hidx, -, hstate⟩ := feed_data h ch
    refine ⟨?_, fun hne => absurd hnone hne⟩
    have hlt := p.idx_lt h
    unfold Parser.need
    rw [h, hstate, hidx]
    by_cases hlast : p.frameIdx + 1 = 14
    · simp only [if_pos hlast]
      omega
    · simp only [if_neg hlast]
      omega
  | check =>
    rw [feed_check h]
    simp [Parser.need, h]

theorem radarReadData_short (now : Timeval) (line : List UInt8) {p : Parser}
    (h : line.length < p.need) :
    (radarReadData now p line : ReadResult K).code = -1 ∧
      (radarReadData now p line : ReadResult K).detection = none := by
  induction line generalizing p with
  | nil => exact ⟨rfl, rfl⟩
  | cons ch line ih =>
    obtain ⟨hstep, hlast⟩ := need_feed p ch
    rw [List.length_cons] at h
    have hnone : (feed p ch).2 = none := by
      by_contra hne
      have := hlast hne
      omega
    rw [radarReadData_none hnone]
    exact ih (by omega)

/-! ## A frame after noise -/

/-- Read from `STATE_HEAD1`, a frame's header is taken apart and too little is
left for another. -/
theorem radarReadData_head1_frame (now : Timeval) {q : Parser} (h : q.state = .head1) (f : Frame) :
    (radarReadData now q f.bytes : ReadResult K).code = -1 := by
  have hAA : feed q 0xAA = (q.goto .idle idle_ne_data, none) := feed_head1 h (by decide)
  have h55 := feed_idle (p := q.goto .idle idle_ne_data) rfl 0x55
  rw [if_neg (by decide)] at h55
  rw [Frame.bytes, radarReadData_none (by rw [hAA]), hAA, radarReadData_none (by rw [h55]), h55]
  refine (radarReadData_short now _ ?_).1
  rw [List.length_append, Vector.length_toList]
  show 14 + 1 < 17
  omega

/-- **When noise does not lose the frame.** The noise and the frame hold no
header pair before the frame's own. A call from `STATE_IDLE` then returns the
frame's detection exactly if the noise ends in an even number of `0xAA`
bytes. -/
theorem frame_after_noise_iff (now : Timeval) {p : Parser} (h : p.state = .idle)
    (N : List UInt8) (f : Frame)
    (hfirst : ∀ i < N.length,
      ¬((N ++ f.bytes)[i]? = some 0xAA ∧ (N ++ f.bytes)[i + 1]? = some 0x55)) :
    ((radarReadData now p (N ++ f.bytes) : ReadResult K).code = 0 ∧
        (radarReadData now p (N ++ f.bytes) : ReadResult K).detection =
          some (f.detection now)) ↔
      Even (trailingAA N) := by
  obtain ⟨q, hq, hread⟩ := radarReadData_noise (K := K) now h N f.bytes (by
    intro i hi
    have := hfirst i (by omega)
    rwa [List.getElem?_append_left (by omega), List.getElem?_append_left hi] at this)
  rw [hread]
  unfold noiseState at hq
  by_cases heven : Even (trailingAA N)
  · rw [if_pos heven] at hq
    obtain ⟨q', -, hframe⟩ := radarReadData_frame (K := K) now hq f []
    rw [List.append_nil] at hframe
    rw [hframe]
    exact iff_of_true ⟨rfl, rfl⟩ heven
  · rw [if_neg heven] at hq
    refine iff_of_false (fun hcode => ?_) heven
    rw [radarReadData_head1_frame now hq f] at hcode
    exact absurd hcode.1 (by decide)

theorem frame_after_noise_iff_two :
    ((radarReadData ⟨5, 0⟩ .start ([0x01, 0xAA, 0xAA] ++ zeroFrame.bytes) : ReadResult ℚ).code = 0 ∧
        (radarReadData ⟨5, 0⟩ .start ([0x01, 0xAA, 0xAA] ++ zeroFrame.bytes) :
          ReadResult ℚ).detection = some (zeroFrame.detection ⟨5, 0⟩)) ↔
      Even (trailingAA [0x01, 0xAA, 0xAA]) :=
  frame_after_noise_iff ⟨5, 0⟩ rfl [0x01, 0xAA, 0xAA] zeroFrame (by decide)

/-- One stray `0xAA` loses the frame. -/
theorem stray_head_loses_frame :
    ¬∀ (now : Timeval) (p : Parser) (N : List UInt8) (f : Frame), p.state = .idle →
      (∀ i < N.length,
        ¬((N ++ f.bytes)[i]? = some 0xAA ∧ (N ++ f.bytes)[i + 1]? = some 0x55)) →
      (radarReadData now p (N ++ f.bytes) : ReadResult ℚ).code = 0 ∧
        (radarReadData now p (N ++ f.bytes) : ReadResult ℚ).detection =
          some (f.detection now) := by
  intro h
  have hcode := (h ⟨5, 0⟩ .start [0xAA] zeroFrame rfl (by decide)).1
  exact absurd hcode (by decide)

end Mec
