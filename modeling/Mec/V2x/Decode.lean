import Mec.V2x.Fields

/-!
# A record decodes to its track

For tracks in the ranges the fields are made for, every numeric field of a
record, read in network order and multiplied by its unit, is the track's value
truncated toward zero (`TruncatedTo`). The coordinates are stored through
unsigned conversions and read as signed 32-bit values.
-/

namespace Mec

open Lib.Bytes Lib.Stores

def wireInt32 (m : Nat → UInt8) (i off : Nat) : Int :=
  (UInt32.ofNat (wireField m i off 4)).toInt32.toInt

section Truncated

variable {K : Type} [Field K] [LinearOrder K]

/-- `n` units are `x` truncated toward zero: nearer to it than a unit, not larger
in size, and of the same sign. -/
structure TruncatedTo (unit : K) (n : Int) (x : K) : Prop where
  near : |x - n * unit| < unit
  toward_zero : |n * unit| ≤ |x|
  nonneg : 0 ≤ x → 0 ≤ n
  nonpos : x ≤ 0 → n ≤ 0

variable [IsStrictOrderedRing K] [FloorRing K]

theorem truncatedTo_div {unit : K} (hunit : 0 < unit) (x : K) :
    TruncatedTo unit (truncate (x / unit)) x := by
  have hx : x = x / unit * unit := (div_mul_cancel₀ x hunit.ne').symm
  have hnear := abs_sub_truncate_lt (x / unit)
  generalize x / unit = y at hx hnear ⊢
  have hsize : |(truncate y : K)| ≤ |y| := by
    rcases le_or_gt 0 y with hy | hy
    · have hfloor : (0 : K) ≤ ⌊y⌋ := by exact_mod_cast Int.floor_nonneg.mpr hy
      rw [truncate_of_nonneg hy, abs_of_nonneg hfloor, abs_of_nonneg hy]
      exact Int.floor_le y
    · have hceil : (⌈y⌉ : K) ≤ 0 := by exact_mod_cast Int.ceil_le.mpr (by simpa using hy.le)
      rw [truncate_of_neg hy, abs_of_nonpos hceil, abs_of_neg hy]
      exact neg_le_neg (Int.le_ceil y)
  refine ⟨?_, ?_, fun h => ?_, fun h => ?_⟩
  · rw [hx, ← sub_mul, abs_mul, abs_of_pos hunit]
    exact mul_lt_of_lt_one_left hunit hnear
  · rw [hx, abs_mul, abs_mul]
    exact mul_le_mul_of_nonneg_right hsize (abs_nonneg unit)
  · have hy : 0 ≤ y := by
      rw [hx] at h
      exact nonneg_of_mul_nonneg_left h hunit
    exact (truncate_nonneg_iff y).mpr (lt_of_lt_of_le (by norm_num) hy)
  · have hy : y ≤ 0 := by
      rw [hx] at h
      exact nonpos_of_mul_nonpos_left h hunit
    exact truncate_le (by simpa using hy)

end Truncated

section Fields

variable {K : Type} [Field K] {host : Host K} {tv : Timeval} {l : TrackList K} {rsuId : UInt32}
  {maxLen : Int} {e : Encoded} {i : Nat} {t : TargetTrack K}

/-- A coordinate comes back as it went into `htonl`. -/
theorem wireInt32_eq (h : v2xEncodeRsm host tv (some l) rsuId maxLen = some e) (h0 : e.ret = 0)
    (outBuf : Nat → UInt8) (hi : i < serialised l.count maxLen) (ht : l.contents[i]? = some t)
    {off : Nat} {v : Int32}
    (hfield : ((participantCells host t).drop off).take 4 =
      (beBytes 4 v.toUInt32.toNat).map some) :
    wireInt32 (e.buffer outBuf) i off = v.toInt := by
  have hlt : v.toUInt32.toNat < 256 ^ 4 := v.toUInt32.toNat_lt
  rw [wireInt32, wireField_buffer h h0 outBuf hi ht hfield, Nat.mod_eq_of_lt hlt,
    UInt32.ofNat_toNat, Int32.toInt32_toUInt32]

theorem wireLat_eq (h : v2xEncodeRsm host tv (some l) rsuId maxLen = some e) (h0 : e.ret = 0)
    (outBuf : Nat → UInt8) (hi : i < serialised l.count maxLen) (ht : l.contents[i]? = some t) :
    wireInt32 (e.buffer outBuf) i 4 =
      (host.toInt32 (t.position.latitude * 10000000.0)).toInt := by
  refine wireInt32_eq h h0 outBuf hi ht ?_
  rw [participantCells_eq]
  rfl

theorem wireLon_eq (h : v2xEncodeRsm host tv (some l) rsuId maxLen = some e) (h0 : e.ret = 0)
    (outBuf : Nat → UInt8) (hi : i < serialised l.count maxLen) (ht : l.contents[i]? = some t) :
    wireInt32 (e.buffer outBuf) i 8 =
      (host.toInt32 (t.position.longitude * 10000000.0)).toInt := by
  refine wireInt32_eq h h0 outBuf hi ht ?_
  rw [participantCells_eq]
  rfl

theorem wireSpeed_eq (h : v2xEncodeRsm host tv (some l) rsuId maxLen = some e) (h0 : e.ret = 0)
    (outBuf : Nat → UInt8) (hi : i < serialised l.count maxLen) (ht : l.contents[i]? = some t) :
    wireField (e.buffer outBuf) i 12 2 = (host.toUInt16 (t.velocity / 0.02)).toNat := by
  have hfield : ((participantCells host t).drop 12).take 2 =
      (beBytes 2 (host.toUInt16 (t.velocity / 0.02)).toNat).map some := by
    rw [participantCells_eq]
    rfl
  rw [wireField_buffer h h0 outBuf hi ht hfield]
  exact Nat.mod_eq_of_lt (UInt16.toNat_lt _)

theorem wireConfidence_eq (h : v2xEncodeRsm host tv (some l) rsuId maxLen = some e)
    (h0 : e.ret = 0) (outBuf : Nat → UInt8) (hi : i < serialised l.count maxLen)
    (ht : l.contents[i]? = some t) :
    wireField (e.buffer outBuf) i 16 1 = (host.toUInt8 (t.confidence * 200.0)).toNat := by
  have hone : beBytes 1 (host.toUInt8 (t.confidence * 200.0)).toNat =
      [host.toUInt8 (t.confidence * 200.0)] := by
    show [UInt8.ofNat _] = _
    rw [UInt8.ofNat_toNat]
  have hfield : ((participantCells host t).drop 16).take 1 =
      (beBytes 1 (host.toUInt8 (t.confidence * 200.0)).toNat).map some := by
    rw [participantCells_eq, hone]
    rfl
  rw [wireField_buffer h h0 outBuf hi ht hfield]
  exact Nat.mod_eq_of_lt (UInt8.toNat_lt _)

end Fields

/-! ## In range -/

section InRange

variable {K : Type} [Field K] [LinearOrder K]

/-- A track whose numbers the record's fields are made for. -/
structure InRange (t : TargetTrack K) : Prop where
  id : 0 ≤ t.id ∧ t.id ≤ 65535
  latitude : |t.position.latitude| ≤ 90
  longitude : |t.position.longitude| ≤ 180
  velocity : 0 ≤ t.velocity ∧ t.velocity < 1310.7
  confidence : 0 ≤ t.confidence ∧ t.confidence ≤ 1

variable [IsStrictOrderedRing K] [FloorRing K]

theorem truncate_coordinate {x : K} (h : |x| ≤ 180) :
    truncate (x * 10000000.0) = truncate (x / 0.0000001) ∧
      -2 ^ 31 ≤ truncate (x * 10000000.0) ∧ truncate (x * 10000000.0) < 2 ^ 31 := by
  have hscale : x * 10000000.0 = x * 10000000 := by norm_num
  obtain ⟨hlow, hhigh⟩ := abs_le.mp h
  rw [hscale]
  refine ⟨?_, ?_, ?_⟩
  · congr 1
    norm_num
    ring
  · have hneg : ((-1800000000 : Int) : K) - 1 < x * 10000000 := by
      push_cast
      linarith
    have := (le_truncate_iff (by decide)).mpr hneg
    omega
  · have hpos : x * 10000000 ≤ ((1800000000 : Int) : K) := by
      push_cast
      linarith
    have := truncate_le hpos
    omega

variable {host : Host K} {tv : Timeval} {l : TrackList K} {rsuId : UInt32} {maxLen : Int}
  {e : Encoded}

/-- **The numeric fields decode to the track.** On every machine, for tracks in
range, each serialised record gives its track's id, and its coordinates, speed
and confidence truncated toward zero in the field's unit. -/
theorem rsm_fields_decode (hhost : host.Lawful)
    (h : v2xEncodeRsm host tv (some l) rsuId maxLen = some e) (h0 : e.ret = 0)
    (outBuf : Nat → UInt8) (hrange : ∀ t ∈ l.contents, InRange t) :
    ∀ i < serialised l.count maxLen, ∃ t, l.contents[i]? = some t ∧
      (wireField (e.buffer outBuf) i 0 2 : Int) = t.id ∧
      TruncatedTo 0.0000001 (wireInt32 (e.buffer outBuf) i 4) t.position.latitude ∧
      TruncatedTo 0.0000001 (wireInt32 (e.buffer outBuf) i 8) t.position.longitude ∧
      TruncatedTo 0.02 (wireField (e.buffer outBuf) i 12 2) t.velocity ∧
      TruncatedTo (1 / 200) (wireField (e.buffer outBuf) i 16 1) t.confidence := by
  intro i hi
  have hlt : i < l.contents.length := by
    rw [l.contents_length]
    exact lt_of_lt_of_le hi (Nat.min_le_left _ _)
  have ht := List.getElem?_eq_getElem hlt
  generalize l.contents[i] = t at ht
  have hr := hrange t (List.mem_of_getElem? ht)
  refine ⟨t, ht, ?_, ?_, ?_, ?_, ?_⟩
  · rw [wireTargetId_eq h h0 outBuf hi ht]
    have := hr.id
    omega
  · obtain ⟨hunit, hlow, hhigh⟩ := truncate_coordinate
      (hr.latitude.trans (by norm_num : (90 : K) ≤ 180))
    rw [wireLat_eq h h0 outBuf hi ht, hhost.toInt32 _ hlow hhigh, hunit]
    exact truncatedTo_div (by norm_num) _
  · obtain ⟨hunit, hlow, hhigh⟩ := truncate_coordinate hr.longitude
    rw [wireLon_eq h h0 outBuf hi ht, hhost.toInt32 _ hlow hhigh, hunit]
    exact truncatedTo_div (by norm_num) _
  · have hlow : -1 < t.velocity / 0.02 :=
      lt_of_lt_of_le (by norm_num) (div_nonneg hr.velocity.1 (by norm_num))
    have hhigh : t.velocity / 0.02 < ((65535 : Int) : K) := by
      have hv := hr.velocity.2
      norm_num at hv ⊢
      linarith
    have hfit := (truncate_lt_iff (by decide)).mpr hhigh
    have hword := hhost.toUInt16 (t.velocity / 0.02) ((truncate_nonneg_iff _).mpr hlow) (by omega)
    rw [wireSpeed_eq h h0 outBuf hi ht, hword]
    exact truncatedTo_div (by norm_num) _
  · have hscale : t.confidence * 200.0 = t.confidence / (1 / 200) := by
      rw [div_div_eq_mul_div, div_one]
      norm_num
    have hlow : -1 < t.confidence * 200.0 :=
      lt_of_lt_of_le (by norm_num) (mul_nonneg hr.confidence.1 (by norm_num))
    have hhigh : t.confidence * 200.0 ≤ ((200 : Int) : K) := by
      have hc := hr.confidence.2
      norm_num
      linarith
    have hfit := truncate_le hhigh
    have hbyte := hhost.toUInt8 (t.confidence * 200.0) ((truncate_nonneg_iff _).mpr hlow)
      (by omega)
    rw [wireConfidence_eq h h0 outBuf hi ht, hbyte, hscale]
    exact truncatedTo_div (by norm_num) _

end InRange

def southWestCar : TargetTrack ℚ :=
  { parkedCar 7 with position := ⟨-1 / 3, -2 / 3, 0⟩, velocity := 10 / 3, confidence := 1 / 3 }

theorem rsm_fields_decode_southWest :
    ∃ t, (listOf [southWestCar]).contents[0]? = some t ∧
      TruncatedTo (0.0000001 : ℚ)
        (wireInt32 ((sentPacket .little [southWestCar] 2048).buffer fun _ => 0) 0 4)
        t.position.latitude := by
  have hrange : ∀ t ∈ (listOf [southWestCar]).contents, InRange t := by
    intro t ht
    obtain rfl : t = southWestCar := by simpa [listOf, TrackList.contents] using ht
    refine ⟨by decide, ?_, ?_, ?_, ?_⟩
    · norm_num [southWestCar, abs_le]
    · norm_num [southWestCar, abs_le]
    · norm_num [southWestCar]
    · norm_num [southWestCar]
  obtain ⟨t, ht, -, hlat, -⟩ := rsm_fields_decode (Host.wrapping_lawful .little)
    (sentPacket_eq .little [southWestCar] 2048 (by decide) (by decide)) rfl (fun _ => 0) hrange 0
    (by decide)
  exact ⟨t, ht, hlat⟩

end Mec
