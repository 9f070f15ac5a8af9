import Mec.V2x.Codec

/-!
# What a record says

A receiver reads a record with the code table and the units of
`v2x_rsm_participant_t`. The class is copied from `target_type_t`, whose codes
mean something else there; the heading comes from `atan2` and is negative for
half of all directions, which the unsigned field cannot hold; the target id is
the low half of the track's.
-/

namespace Mec

open Lib.Bytes Lib.Stores

section Reading

variable {K : Type} [Field K] {host : Host K} {tv : Timeval} {l : TrackList K} {rsuId : UInt32}
  {maxLen : Int} {e : Encoded} {i : Nat} {t : TargetTrack K}

theorem wireType_eq (h : v2xEncodeRsm host tv (some l) rsuId maxLen = some e) (h0 : e.ret = 0)
    (outBuf : Nat → UInt8) (hi : i < serialised l.count maxLen) (ht : l.contents[i]? = some t) :
    wireField (e.buffer outBuf) i 2 1 = (UInt8.ofInt t.type.code).toNat := by
  have hfield : ((participantCells host t).drop 2).take 1 =
      (beBytes 1 (UInt8.ofInt t.type.code).toNat).map some := by
    have hone : beBytes 1 (UInt8.ofInt t.type.code).toNat = [UInt8.ofInt t.type.code] := by
      show [UInt8.ofNat (UInt8.ofInt t.type.code).toNat] = _
      rw [UInt8.ofNat_toNat]
    rw [participantCells_eq, hone]
    rfl
  rw [wireField_buffer h h0 outBuf hi ht hfield]
  exact Nat.mod_eq_of_lt (UInt8.toNat_lt _)

theorem wireHeading_eq (h : v2xEncodeRsm host tv (some l) rsuId maxLen = some e) (h0 : e.ret = 0)
    (outBuf : Nat → UInt8) (hi : i < serialised l.count maxLen) (ht : l.contents[i]? = some t) :
    wireField (e.buffer outBuf) i 14 2 = (host.toUInt16 (t.heading / 0.0125)).toNat := by
  have hfield : ((participantCells host t).drop 14).take 2 =
      (beBytes 2 (host.toUInt16 (t.heading / 0.0125)).toNat).map some := by
    rw [participantCells_eq]
    rfl
  rw [wireField_buffer h h0 outBuf hi ht hfield]
  exact Nat.mod_eq_of_lt (UInt16.toNat_lt _)

theorem wireTargetId_eq (h : v2xEncodeRsm host tv (some l) rsuId maxLen = some e) (h0 : e.ret = 0)
    (outBuf : Nat → UInt8) (hi : i < serialised l.count maxLen) (ht : l.contents[i]? = some t) :
    (wireField (e.buffer outBuf) i 0 2 : Int) = t.id % 65536 := by
  have hfield : ((participantCells host t).drop 0).take 2 =
      (beBytes 2 (UInt16.ofInt t.id).toNat).map some := by
    rw [participantCells_eq]
    rfl
  rw [wireField_buffer h h0 outBuf hi ht hfield, UInt16.ofInt, UInt16.toNat_ofNat']
  omega

end Reading

/-! ## Class -/

/-- The code table of `v2x_rsm_participant_t.type`. -/
inductive RoadUser where
  | unknown
  | smallCar
  | largeCar
  | pedestrian
  | nonMotor
  deriving DecidableEq, Repr

def RoadUser.ofCode : Nat → Option RoadUser
  | 0 => some .unknown
  | 1 => some .smallCar
  | 2 => some .largeCar
  | 3 => some .pedestrian
  | 4 => some .nonMotor
  | _ => none

/-- The classes of road user that are the same as a track's type. The table
has no obstacles; they may at best be unknown. -/
def TargetType.roadUsers : TargetType → List RoadUser
  | .vehicle => [.smallCar, .largeCar]
  | .nonVehicle => [.nonMotor]
  | .pedestrian => [.pedestrian]
  | .obstacle => [.unknown]
  | .other _ => []

section Meaning

variable {K : Type} [Field K] [LinearOrder K]

/-- Record `i` of the packet `m` denotes the class of `t`. -/
def ClassKept (m : Nat → UInt8) (i : Nat) (t : TargetTrack K) : Prop :=
  ∃ u ∈ t.type.roadUsers, RoadUser.ofCode (wireField m i 2 1) = some u

/-- Record `i` of the packet `m` gives the direction of `t`, in `[0, 360)`. -/
def HeadingKept (m : Nat → UInt8) (i : Nat) (t : TargetTrack K) : Prop :=
  0 ≤ (wireField m i 14 2 : K) * 0.0125 ∧ (wireField m i 14 2 : K) * 0.0125 < 360.0 ∧
    ∃ turns : Int,
      |(wireField m i 14 2 : K) * 0.0125 - (t.heading + turns * 360.0)| ≤ 0.0125

/-- A track as the fusion loop outputs it: one of the four types, and the
heading in degrees from `atan2`. -/
structure FusionOutput (t : TargetTrack K) : Prop where
  type : t.type ∈ [TargetType.vehicle, .nonVehicle, .pedestrian, .obstacle]
  heading_gt : -180.0 < t.heading
  heading_le : t.heading ≤ 180.0

variable {host : Host K} {tv : Timeval} {l : TrackList K} {rsuId : UInt32} {maxLen : Int}
  {e : Encoded} {i : Nat} {t : TargetTrack K}

omit [LinearOrder K] in
theorem not_classKept (h : v2xEncodeRsm host tv (some l) rsuId maxLen = some e) (h0 : e.ret = 0)
    (outBuf : Nat → UInt8) (hi : i < serialised l.count maxLen) (ht : l.contents[i]? = some t)
    (htype : t.type ∈ [TargetType.vehicle, .nonVehicle, .pedestrian, .obstacle]) :
    ¬ ClassKept (e.buffer outBuf) i t := by
  rintro ⟨u, hu, hcode⟩
  rw [wireType_eq h h0 outBuf hi ht] at hcode
  have htable : ∀ ty ∈ [TargetType.vehicle, .nonVehicle, .pedestrian, .obstacle],
      ∀ u ∈ ty.roadUsers, RoadUser.ofCode (UInt8.ofInt ty.code).toNat ≠ some u := by
    decide
  exact htable t.type htype u hu hcode

variable [IsStrictOrderedRing K] [FloorRing K]

/-- A heading above `-0.0125` is sent to within a unit, on every machine. -/
theorem headingKept_of_gt (hhost : host.Lawful)
    (h : v2xEncodeRsm host tv (some l) rsuId maxLen = some e) (h0 : e.ret = 0)
    (outBuf : Nat → UInt8) (hi : i < serialised l.count maxLen) (ht : l.contents[i]? = some t)
    (hle : t.heading ≤ 180.0) (hgt : -0.0125 < t.heading) :
    HeadingKept (e.buffer outBuf) i t := by
  have hunit : (0.0125 : K) = 1 / 80 := by norm_num
  have hscale : t.heading / 0.0125 = t.heading * 80 := by rw [hunit]; ring
  have hlow : -1 < t.heading / 0.0125 := by rw [hscale]; norm_num at hgt; linarith
  have hhigh : t.heading / 0.0125 ≤ (14400 : Int) := by
    rw [hscale]
    norm_num at hle
    push_cast
    linarith
  have hn0 := (truncate_nonneg_iff _).mpr hlow
  have hn1 := truncate_le hhigh
  have hword := hhost.toUInt16 (t.heading / 0.0125) hn0 (by omega)
  have hcast : (wireField (e.buffer outBuf) i 14 2 : K) = truncate (t.heading / 0.0125) := by
    rw [wireHeading_eq h h0 outBuf hi ht, ← hword, Int.cast_natCast]
  have herr := abs_sub_truncate_lt (t.heading / 0.0125)
  have hn0' : (0 : K) ≤ truncate (t.heading / 0.0125) := by exact_mod_cast hn0
  have hn1' : (truncate (t.heading / 0.0125) : K) ≤ 14400 := by exact_mod_cast hn1
  rw [hscale] at hcast herr hn0' hn1'
  refine ⟨?_, ?_, 0, ?_⟩
  · rw [hcast, hunit]
    linarith
  · rw [hcast, hunit]
    norm_num
    linarith
  · rw [hcast, hunit, abs_le]
    rw [abs_lt] at herr
    constructor
    · push_cast
      linarith
    · push_cast
      linarith

/-- A heading from `-0.0125` down wraps around to more than a full turn. -/
theorem not_headingKept_wrapping {order : Order}
    (h : v2xEncodeRsm (Host.wrapping order) tv (some l) rsuId maxLen = some e) (h0 : e.ret = 0)
    (outBuf : Nat → UInt8) (hi : i < serialised l.count maxLen) (ht : l.contents[i]? = some t)
    (hgt : -180.0 < t.heading) (hle : t.heading ≤ -0.0125) :
    ¬ HeadingKept (e.buffer outBuf) i t := by
  have hunit : (0.0125 : K) = 1 / 80 := by norm_num
  have hscale : t.heading / 0.0125 = t.heading * 80 := by rw [hunit]; ring
  have hhigh : t.heading / 0.0125 ≤ (-1 : Int) := by
    rw [hscale]
    norm_num at hle
    push_cast
    linarith
  have hlow : ((-14400 : Int) : K) - 1 < t.heading / 0.0125 := by
    rw [hscale]
    norm_num at hgt
    push_cast
    linarith
  have hn1 := truncate_le hhigh
  have hn0 := (le_truncate_iff (by decide)).mpr hlow
  have hword : 51136 ≤ ((Host.wrapping order : Host K).toUInt16 (t.heading / 0.0125)).toNat := by
    show 51136 ≤ (UInt16.ofInt (truncate (t.heading / 0.0125))).toNat
    rw [UInt16.ofInt, UInt16.toNat_ofNat']
    omega
  rintro ⟨-, hturn, -⟩
  have hword' : (51136 : K) ≤
      ((Host.wrapping order : Host K).toUInt16 (t.heading / 0.0125)).toNat := by
    exact_mod_cast hword
  rw [wireHeading_eq h h0 outBuf hi ht, hscale, hunit] at hturn
  rw [hscale] at hword'
  norm_num at hturn
  linarith

/-- **Class and direction.** For tracks as the fusion loop outputs them, both
survive for every record only when the packet has none: the class of a record is
never its track's. The direction survives on every machine exactly where the
heading is above `-0.0125` degrees. -/
theorem class_direction_iff (h : v2xEncodeRsm host tv (some l) rsuId maxLen = some e)
    (h0 : e.ret = 0) (outBuf : Nat → UInt8) (hout : ∀ t ∈ l.contents, FusionOutput t) :
    ((∀ (i : Nat) (t : TargetTrack K), i < serialised l.count maxLen → l.contents[i]? = some t →
        ClassKept (e.buffer outBuf) i t ∧ HeadingKept (e.buffer outBuf) i t) ↔
      serialised l.count maxLen = 0) ∧
    ∀ (i : Nat) (t : TargetTrack K), i < serialised l.count maxLen → l.contents[i]? = some t →
      ¬ ClassKept (e.buffer outBuf) i t ∧
        ((∀ (host' : Host K) (e' : Encoded), host'.Lawful →
          v2xEncodeRsm host' tv (some l) rsuId maxLen = some e' →
            HeadingKept (e'.buffer outBuf) i t) ↔ -0.0125 < t.heading) := by
  obtain ⟨h17, -⟩ := v2xEncodeRsm_ok h h0
  have hclass (i : Nat) (t : TargetTrack K) (hi : i < serialised l.count maxLen)
      (ht : l.contents[i]? = some t) : ¬ ClassKept (e.buffer outBuf) i t :=
    not_classKept h h0 outBuf hi ht (hout t (List.mem_of_getElem? ht)).type
  -- what a call returns does not depend on the machine
  have hcall (host' : Host K) : v2xEncodeRsm host' tv (some l) rsuId maxLen =
      some ⟨0, (17 + 20 * serialised l.count maxLen : Nat),
        packetStores host' tv l rsuId maxLen⟩ := by
    have heq := h
    rw [v2xEncodeRsm_eq host tv l rsuId maxLen h17] at heq
    rw [v2xEncodeRsm_eq host' tv l rsuId maxLen h17]
    split at heq
    · cases heq
    · next hno => exact if_neg hno
  refine ⟨⟨fun hkept => ?_, fun hzero i t hi => by omega⟩, fun i t hi ht => ⟨hclass i t hi ht, ?_⟩⟩
  · by_contra hpos
    have hlt : 0 < l.contents.length := by
      rw [l.contents_length]
      unfold serialised at hpos
      omega
    have hget := List.getElem?_eq_getElem hlt
    exact hclass 0 _ (by omega) hget (hkept 0 _ (by omega) hget).1
  · have hrange := hout t (List.mem_of_getElem? ht)
    constructor
    · intro hall
      by_contra hneg
      exact not_headingKept_wrapping (hcall (.wrapping .little)) rfl outBuf hi ht hrange.heading_gt
        (not_lt.mp hneg) (hall _ _ (Host.wrapping_lawful .little) (hcall (.wrapping .little)))
    · intro hgt host' e' hhost' h'
      have h0' : e'.ret = 0 := by
        rw [hcall host'] at h'
        obtain rfl := Option.some.inj h'
        rfl
      exact headingKept_of_gt hhost' h' h0' outBuf hi ht hrange.heading_le hgt

end Meaning

theorem class_direction_iff_cars :
    (∀ (i : Nat) (t : TargetTrack ℚ), i < serialised (listOf twoCars).count 2048 →
      (listOf twoCars).contents[i]? = some t →
      ClassKept ((sentPacket .little twoCars 2048).buffer fun _ => 0) i t ∧
        HeadingKept ((sentPacket .little twoCars 2048).buffer fun _ => 0) i t) ↔
      serialised (listOf twoCars).count 2048 = 0 := by
  have hout : ∀ t ∈ (listOf twoCars).contents, FusionOutput t := by
    intro t ht
    have hmem : t = parkedCar 1 ∨ t = parkedCar 2 := by
      simpa [listOf, TrackList.contents, twoCars] using ht
    rcases hmem with rfl | rfl
    · exact ⟨by decide, by norm_num [parkedCar], by norm_num [parkedCar]⟩
    · exact ⟨by decide, by norm_num [parkedCar], by norm_num [parkedCar]⟩
  exact (class_direction_iff (sentPacket_eq .little twoCars 2048 (by decide) (by decide)) rfl _ hout).1

def walkingSouth : TargetTrack ℚ := { parkedCar 1 with type := .pedestrian, heading := -90 }

/-- It is sent as a large car with a heading of 729.2 degrees. -/
theorem pedestrian_sent_as_largeCar :
    v2xEncodeRsm (Host.wrapping .little) ⟨1, 0⟩ (some (listOf [walkingSouth])) 0xABCD 2048 =
        some (sentPacket .little [walkingSouth] 2048) ∧
      (sentPacket .little [walkingSouth] 2048).ret = 0 ∧ FusionOutput walkingSouth ∧
      RoadUser.ofCode (wireField ((sentPacket .little [walkingSouth] 2048).buffer fun _ => 0)
        0 2 1) = some .largeCar ∧
      wireField ((sentPacket .little [walkingSouth] 2048).buffer fun _ => 0) 0 14 2 = 58336 ∧
      ¬ ClassKept ((sentPacket .little [walkingSouth] 2048).buffer fun _ => 0) 0 walkingSouth ∧
      ¬ HeadingKept ((sentPacket .little [walkingSouth] 2048).buffer fun _ => 0) 0
        walkingSouth := by
  have hcall := sentPacket_eq .little [walkingSouth] 2048 (by decide) (by decide)
  have hget : (listOf [walkingSouth]).contents[0]? = some walkingSouth := rfl
  have hheading : walkingSouth.heading = -90 := rfl
  have hout : FusionOutput walkingSouth :=
    ⟨by decide, by rw [hheading]; norm_num, by rw [hheading]; norm_num⟩
  refine ⟨hcall, rfl, hout, ?_, ?_, ?_, ?_⟩
  · rw [wireType_eq hcall rfl _ (by decide) hget]
    rfl
  · rw [wireHeading_eq hcall rfl _ (by decide) hget]
    decide +kernel
  · exact not_classKept hcall rfl _ (by decide) hget hout.type
  · exact not_headingKept_wrapping hcall rfl _ (by decide) hget hout.heading_gt
      (by rw [hheading]; norm_num)

end Mec
