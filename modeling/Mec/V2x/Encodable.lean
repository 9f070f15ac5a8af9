import Mec.Radar.Convert
import Mec.Fusion.Pass
import Mec.V2x.Codec
import Mathlib.Data.Rat.Sqrt

/-!
# Radar targets on the wire

A frame's range and angle become metres, the metres are read as degrees, and
the encoder multiplies them by `10 ^ 7` for a 32-bit field: a target can be some
214 metres away. The velocity field holds up to 1310.7 m/s of the 6553.5 that a
frame can say.
-/

namespace Mec

variable {K : Type} [Field K] [LinearOrder K] [FloorRing K]

/-- The conversion to `int32_t` is defined. -/
def FitsInt32 (x : K) : Prop := -2 ^ 31 ≤ truncate x ∧ truncate x < 2 ^ 31

/-- The conversion to `uint16_t` is defined. -/
def FitsUInt16 (x : K) : Prop := 0 ≤ truncate x ∧ truncate x < 2 ^ 16

/-- The position and the speed of a track are in range of their conversions. -/
structure Encodable (t : TargetTrack K) : Prop where
  lat : FitsInt32 (t.position.latitude * 10000000.0)
  lon : FitsInt32 (t.position.longitude * 10000000.0)
  speed : FitsUInt16 (t.velocity / 0.02)

omit [FloorRing K] in
/-- A detection as the fusion processor sends it on: converted to a track,
started as a fused track in the slot `old`, and written out. -/
def sentOn (libm : Libm K) (detection : RadarDetection K) (config : RadarConfig)
    (track : TargetTrack K) (old : FusedTrack K) (globalId : Int) (now : Timeval)
    (out : TargetTrack K) : TargetTrack K :=
  toOutput libm now out (newTrack libm old globalId
    (radarConvertToTrack libm detection config track).2 config.radarId)

omit [LinearOrder K] [FloorRing K] in
/-- The direction of a payload's target, in radians, whenever it arrives. -/
def bearing (payload : Vector UInt8 14) : K :=
  (decode ⟨0, 0⟩ payload : RadarDetection K).angle * mPi / 180.0

/-- A distance of `x` decimetres fits the 32-bit field. -/
def InSpan (x : K) : Prop := -2147.483649 < x ∧ x < 2147.483648

section Encodable

variable [IsStrictOrderedRing K] {libm : Libm K}

theorem fitsInt32_iff (x : K) : FitsInt32 (x * 1000000) ↔ InSpan x := by
  have h31 : ((2 ^ 31 : Int) : K) = 2147483648 := by norm_num
  have hlow : (-2147.483649 : K) = -2147483649 / 1000000 := by norm_num
  have hhigh : (2147.483648 : K) = 2147483648 / 1000000 := by norm_num
  rw [FitsInt32, InSpan, le_truncate_iff (by decide), truncate_lt_iff (by decide), hlow, hhigh,
    Int.cast_neg, h31, div_lt_iff₀ (by norm_num), lt_div_iff₀ (by norm_num)]
  exact and_congr_left' (by norm_num)

theorem fitsUInt16_iff (n : Nat) : FitsUInt16 (5 * n : K) ↔ n ≤ 13107 := by
  have hcast : (5 * n : K) = ((5 * n : Nat) : K) := by push_cast; rfl
  rw [FitsUInt16, hcast, truncate_natCast]
  omega

omit [FloorRing K] [IsStrictOrderedRing K] in
theorem sentOn_position (libm : Libm K) (detection : RadarDetection K) (config : RadarConfig)
    (track : TargetTrack K) (old : FusedTrack K) (globalId : Int) (now : Timeval)
    (out : TargetTrack K) :
    (sentOn libm detection config track old globalId now out).position.latitude =
        detection.range * libm.sin (detection.angle * mPi / 180.0) ∧
      (sentOn libm detection config track old globalId now out).position.longitude =
        detection.range * libm.cos (detection.angle * mPi / 180.0) :=
  ⟨rfl, rfl⟩

omit [FloorRing K] [IsStrictOrderedRing K] in
theorem sentOn_velocity (hcircle : ∀ a, libm.cos a * libm.cos a + libm.sin a * libm.sin a = 1)
    (hsqrt : ∀ a, 0 ≤ a → libm.sqrt (a * a) = a) {detection : RadarDetection K}
    (hspeed : 0 ≤ detection.velocity) (config : RadarConfig) (track : TargetTrack K)
    (old : FusedTrack K) (globalId : Int) (now : Timeval) (out : TargetTrack K) :
    (sentOn libm detection config track old globalId now out).velocity = detection.velocity := by
  have hcomponents (v a : K) :
      v * libm.cos a * (v * libm.cos a) + v * libm.sin a * (v * libm.sin a) = v * v := by
    calc _ = v * v * (libm.cos a * libm.cos a + libm.sin a * libm.sin a) := by ring
      _ = v * v := by rw [hcircle, mul_one]
  show libm.sqrt _ = _
  exact (congrArg libm.sqrt (hcomponents _ _)).trans (hsqrt _ hspeed)

/-- **Radar targets on the wire.** The parser decodes every frame whose
checksum is right; position and speed of the target are in range of the
encoder's conversions exactly when its velocity field is at most 13107 and it
is less than 214.7483648 m away along either axis. Then a machine sends its
position to less than a unit, and its speed. -/
theorem radar_encodable_iff
    (hcircle : ∀ a, libm.cos a * libm.cos a + libm.sin a * libm.sin a = 1)
    (hsqrt : ∀ a, 0 ≤ a → libm.sqrt (a * a) = a) (f : Frame) (tv : Timeval) {p : Parser}
    (hp : p.state = .idle) (line : List UInt8) (config : RadarConfig) (track : TargetTrack K)
    (old : FusedTrack K) (globalId : Int) (now : Timeval) (out : TargetTrack K) :
    ∃ q detection, radarReadData tv p (f.bytes ++ line) = ⟨0, q, some detection, line⟩ ∧
      (Encodable (sentOn libm detection config track old globalId now out) ↔
        word f.payload 6 ≤ 13107 ∧ InSpan (word f.payload 2 * libm.cos (bearing f.payload)) ∧
          InSpan (word f.payload 2 * libm.sin (bearing f.payload))) ∧
      (Encodable (sentOn libm detection config track old globalId now out) →
        ∀ host : Host K, host.Lawful →
          let sent := sentOn libm detection config track old globalId now out
          |detection.range * libm.sin (bearing f.payload) * 10000000.0 -
              (host.toInt32 (sent.position.latitude * 10000000.0)).toInt| < 1 ∧
            |detection.range * libm.cos (bearing f.payload) * 10000000.0 -
              (host.toInt32 (sent.position.longitude * 10000000.0)).toInt| < 1 ∧
            (host.toUInt16 (sent.velocity / 0.02)).toNat = 5 * word f.payload 6) := by
  obtain ⟨q, -, hread⟩ := radarReadData_frame (K := K) tv hp f line
  have hspeed : 0 ≤ (decode tv f.payload : RadarDetection K).velocity := by
    show (0 : K) ≤ word f.payload 6 * 0.1
    positivity
  obtain ⟨hlat, hlon⟩ := sentOn_position libm (decode tv f.payload) config track old
    globalId now out
  have hvel := sentOn_velocity hcircle hsqrt hspeed config track old globalId now out
  have hscale (s : K) : (decode tv f.payload : RadarDetection K).range * s * 10000000.0 =
      word f.payload 2 * s * 1000000 := by
    show (word f.payload 2 : K) * 0.1 * s * 10000000.0 = _
    rw [show (0.1 : K) = 1 / 10 by norm_num, show (10000000.0 : K) = 10000000 by norm_num]
    ring
  have hfive : (decode tv f.payload : RadarDetection K).velocity / 0.02 =
      5 * word f.payload 6 := by
    show (word f.payload 6 : K) * 0.1 / 0.02 = _
    rw [show (0.1 : K) = 1 / 10 by norm_num, show (0.02 : K) = 1 / 50 by norm_num]
    ring
  have hangle : (decode tv f.payload : RadarDetection K).angle * mPi / 180.0 =
      bearing f.payload := rfl
  rw [hangle] at hlat hlon
  have hspeed_iff : FitsUInt16 ((sentOn libm (decode tv f.payload) config track old globalId now
      out).velocity / 0.02) ↔ word f.payload 6 ≤ 13107 := by
    rw [hvel, hfive, fitsUInt16_iff]
  have hlon_iff : FitsInt32 ((sentOn libm (decode tv f.payload) config track old globalId now
      out).position.longitude * 10000000.0) ↔
      InSpan (word f.payload 2 * libm.cos (bearing f.payload)) := by
    rw [hlon, hscale, fitsInt32_iff]
  have hlat_iff : FitsInt32 ((sentOn libm (decode tv f.payload) config track old globalId now
      out).position.latitude * 10000000.0) ↔
      InSpan (word f.payload 2 * libm.sin (bearing f.payload)) := by
    rw [hlat, hscale, fitsInt32_iff]
  refine ⟨q, decode tv f.payload, hread, ⟨fun henc => ?_, fun ⟨hv, hx, hy⟩ => ?_⟩,
    fun henc host hhost => ⟨?_, ?_, ?_⟩⟩
  · exact ⟨hspeed_iff.mp henc.speed, hlon_iff.mp henc.lon, hlat_iff.mp henc.lat⟩
  · exact ⟨hlat_iff.mpr hy, hlon_iff.mpr hx, hspeed_iff.mpr hv⟩
  · have h := henc.lat
    rw [hhost.toInt32 _ h.1 h.2, hlat]
    exact abs_sub_truncate_lt _
  · have h := henc.lon
    rw [hhost.toInt32 _ h.1 h.2, hlon]
    exact abs_sub_truncate_lt _
  · have h := henc.speed
    have hword := hhost.toUInt16 _ h.1 h.2
    have hcast : (5 * word f.payload 6 : K) = ((5 * word f.payload 6 : Nat) : K) := by
      push_cast
      rfl
    rw [hvel, hfive, hcast, truncate_natCast] at hword
    rw [hvel, hfive, hcast]
    exact_mod_cast hword

omit [FloorRing K] in
/-- Up to 214.7 m the direction does not matter. -/
theorem inSpan_near (hcircle : ∀ a, libm.cos a * libm.cos a + libm.sin a * libm.sin a = 1)
    {n : Nat} (hn : n ≤ 2147) (a : K) :
    InSpan (n * libm.cos a) ∧ InSpan (n * libm.sin a) := by
  have hn0 : (0 : K) ≤ n := Nat.cast_nonneg n
  have hn' : (n : K) ≤ 2147 := by exact_mod_cast hn
  have hspan {c s : K} (h : c * c + s * s = 1) : InSpan (n * c) := by
    have hc : |c| ≤ 1 := by
      rw [← sq_le_one_iff_abs_le_one]
      nlinarith [mul_self_nonneg s]
    have hle : |n * c| ≤ 2147 := by
      rw [abs_mul, abs_of_nonneg hn0]
      calc (n : K) * |c| ≤ n * 1 := mul_le_mul_of_nonneg_left hc hn0
        _ ≤ 2147 := by rw [mul_one]; exact hn'
    obtain ⟨hlow, hhigh⟩ := abs_le.mp hle
    constructor
    · norm_num
      linarith
    · norm_num
      linarith
  exact ⟨hspan (hcircle a), hspan ((add_comm _ _).trans (hcircle a))⟩

omit [FloorRing K] in
/-- From 303.8 m on no direction is left. -/
theorem not_inSpan_far (hcircle : ∀ a, libm.cos a * libm.cos a + libm.sin a * libm.sin a = 1)
    {n : Nat} (hn : 3038 ≤ n) (a : K) :
    ¬ (InSpan (n * libm.cos a) ∧ InSpan (n * libm.sin a)) := by
  rintro ⟨⟨hx, hx'⟩, hy, hy'⟩
  have hn' : (3038 : K) ≤ n := by exact_mod_cast hn
  have hsq {x : K} (h : -2147.483649 < x) (h' : x < 2147.483648) :
      x * x < 2147.483649 * 2147.483649 := by
    have habs : |x| < 2147.483649 := abs_lt.mpr ⟨h, by norm_num at h' ⊢; linarith⟩
    rw [← abs_mul_abs_self x]
    exact mul_self_lt_mul_self (abs_nonneg x) habs
  have hsum : n * libm.cos a * (n * libm.cos a) + n * libm.sin a * (n * libm.sin a) =
      (n : K) * n := by
    calc _ = n * n * (libm.cos a * libm.cos a + libm.sin a * libm.sin a) := by ring
      _ = (n : K) * n := by rw [hcircle, mul_one]
  have hfar : (3038 : K) * 3038 ≤ n * n := mul_self_le_mul_self (by norm_num) hn'
  have hx2 := hsq hx hx'
  have hy2 := hsq hy hy'
  norm_num at hx2 hy2 hfar
  linarith

end Encodable

/-! ## A target 300 m ahead -/

/-- `Libm.rat` with the roots of all rational squares. -/
def Libm.ratSqrt : Libm ℚ := { Libm.rat with sqrt := Rat.sqrt }

theorem ratSqrt_circle (a : ℚ) :
    Libm.ratSqrt.cos a * Libm.ratSqrt.cos a + Libm.ratSqrt.sin a * Libm.ratSqrt.sin a = 1 := by
  show (1 : ℚ) * 1 + 0 * 0 = 1
  norm_num

theorem ratSqrt_sqrt (a : ℚ) (ha : 0 ≤ a) : Libm.ratSqrt.sqrt (a * a) = a :=
  (Rat.sqrt_eq a).trans (abs_of_nonneg ha)

theorem radar_encodable_iff_zeroFrame :
    ∃ q detection, radarReadData ⟨0, 0⟩ .start (zeroFrame.bytes ++ []) =
        (⟨0, q, some detection, []⟩ : ReadResult ℚ) ∧
      (Encodable (sentOn .ratSqrt detection ⟨2⟩ (rollingCar ⟨0, 0⟩) .zero 1 ⟨0, 0⟩
          (rollingCar ⟨0, 0⟩)) ↔
        word zeroFrame.payload 6 ≤ 13107 ∧
          InSpan (word zeroFrame.payload 2 * Libm.ratSqrt.cos (bearing zeroFrame.payload)) ∧
          InSpan (word zeroFrame.payload 2 * Libm.ratSqrt.sin (bearing zeroFrame.payload))) := by
  obtain ⟨q, detection, hread, hiff, -⟩ := radar_encodable_iff ratSqrt_circle ratSqrt_sqrt
    zeroFrame ⟨0, 0⟩ (p := .start) rfl [] ⟨2⟩ (rollingCar ⟨0, 0⟩) .zero 1 ⟨0, 0⟩
    (rollingCar ⟨0, 0⟩)
  exact ⟨q, detection, hread, hiff⟩

/-- Range 3000, angle 0: a target standing 300 m ahead. -/
def farFrame : Frame :=
  ⟨#v[0, 1, 0x0B, 0xB8, 0x07, 0x08, 0, 0, 0, 0, 0, 0, 0, 0]⟩

/-- Its longitude is 300 "degrees". -/
theorem far_target_overflows :
    ∃ q detection, radarReadData ⟨0, 0⟩ .start farFrame.bytes =
        (⟨0, q, some detection, []⟩ : ReadResult ℚ) ∧
      (sentOn .ratSqrt detection ⟨2⟩ (rollingCar ⟨0, 0⟩) .zero 1 ⟨0, 0⟩
        (rollingCar ⟨0, 0⟩)).position.longitude = 300 ∧
      ¬ Encodable (sentOn .ratSqrt detection ⟨2⟩ (rollingCar ⟨0, 0⟩) .zero 1 ⟨0, 0⟩
        (rollingCar ⟨0, 0⟩)) := by
  obtain ⟨q, -, hread⟩ := radarReadData_frame (K := ℚ) ⟨0, 0⟩ (p := .start) rfl farFrame []
  rw [List.append_nil] at hread
  have hlon : (sentOn .ratSqrt (farFrame.detection ⟨0, 0⟩) ⟨2⟩ (rollingCar ⟨0, 0⟩) .zero 1 ⟨0, 0⟩
      (rollingCar ⟨0, 0⟩)).position.longitude = 300 := by
    decide +kernel
  refine ⟨q, _, hread, hlon, fun henc => ?_⟩
  have hover := henc.lon.2
  rw [hlon, truncate_lt_iff (by decide)] at hover
  norm_num at hover

end Mec
