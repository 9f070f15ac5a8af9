import Mec.V2x.Codec

/-!
# The encoder and the end of its buffer

Before each record the encoder tests `current_pos + 20 > max_len`, an `int`
sum. While it does not overflow no store reaches the end of the buffer. Within
a record of `INT_MAX` it does overflow, if there are tracks left by then:
`encoder_inside_iff` says for which buffers and counts.
-/

namespace Mec

open Lib.Bytes Lib.Stores

variable {K : Type} [Field K]

theorem within_rsmHeader (order : Order) (tv : Timeval) (rsuId : UInt32) :
    Within (structStores 0 ((rsmHeader order tv rsuId).fields order)) 16 := by
  have hsize : structSize (((rsmHeader order tv rsuId).fields order).map List.length) = 16 := by
    rw [← length_structCells]
    exact length_headerCells order tv rsuId
  have h := within_structStores 0 ((rsmHeader order tv rsuId).fields order)
  rwa [hsize] at h

theorem within_participantStores (host : Host K) (pos : Nat) (t : TargetTrack K) :
    Within (participantStores host pos t) (pos + 20) := by
  have hsize : structSize (((rsmParticipant host t).fields host.order).map List.length) = 20 := by
    rw [← length_structCells]
    exact length_participantCells host t
  have h := within_structStores pos ((rsmParticipant host t).fields host.order)
  rwa [hsize] at h

theorem within_recordStores (host : Host K) (pos : Nat) (ts : List (TargetTrack K)) :
    Within (recordStores host pos ts) (pos + 20 * ts.length) := by
  induction ts generalizing pos with
  | nil => exact .nil _
  | cons t ts ih =>
    rw [recordStores, List.length_cons]
    refine .append ((within_participantStores host pos t).mono (by omega)) ((ih (pos + 20)).mono ?_)
    omega

theorem within_packetStores (host : Host K) (tv : Timeval) (l : TrackList K) (rsuId : UInt32)
    (maxLen : Int) :
    Within (packetStores host tv l rsuId maxLen) (17 + 20 * serialised l.count maxLen) := by
  have hrecords := within_recordStores host 17 (l.contents.take (room maxLen 17))
  rw [List.length_take, l.contents_length] at hrecords
  refine .append ((within_rsmHeader host.order tv rsuId).mono (by omega)) (.cons ?_ (hrecords.mono ?_))
  · show 16 + 1 ≤ _
    omega
  · unfold serialised
    omega

theorem v2xEncodeRsm_small (host : Host K) (tv : Timeval) (l : TrackList K) (rsuId : UInt32)
    {maxLen : Int} (h : maxLen < 17) :
    ∃ S, v2xEncodeRsm host tv (some l) rsuId maxLen = some ⟨-1, maxLen, S⟩ ∧
      ∀ s ∈ S, ((s.pos + s.bytes.length : Nat) : Int) ≤ maxLen := by
  have h17 : maxLen < (16 + 1 : Nat) := by omega
  unfold v2xEncodeRsm
  rw [sizeofV2xHeader_eq]
  by_cases h16 : maxLen < (16 : Nat)
  · exact ⟨[], if_pos h16, fun s hs => absurd hs List.not_mem_nil⟩
  · refine ⟨_, (if_neg h16).trans (if_pos h17), fun s hs => ?_⟩
    have := within_rsmHeader host.order tv rsuId s hs
    omega

/-- A call on a list `l` with `*out_len = maxLen` keeps to its buffer: no `int`
expression overflows, all stores are inside `[0, *out_len)`, and the result is
-1 exactly for a buffer of less than 17 bytes and else the number of bytes up to
the last record that fits. -/
def KeepsInside (host : Host K) (tv : Timeval) (l : TrackList K) (rsuId : UInt32)
    (maxLen : Int) : Prop :=
  ∃ e, v2xEncodeRsm host tv (some l) rsuId maxLen = some e ∧
    (∀ s ∈ e.stores, ((s.pos + s.bytes.length : Nat) : Int) ≤ maxLen) ∧
    ((e.ret = -1 ∧ e.outLen = maxLen) ↔ maxLen < 17) ∧
    (17 ≤ maxLen → e.ret = 0 ∧ e.outLen = 17 + 20 * min (l.count : Int) ((maxLen - 17) / 20))

/-- Where the loop's sum overflows. -/
theorem sum_overflows_iff {count : Nat} {maxLen : Int} (h : 17 ≤ maxLen) :
    intMax < 17 + 20 * min count (room maxLen 17 + 1) ↔
      ¬(maxLen < 2147483637 ∨ count < 107374182) := by
  have hmax : intMax = 2147483647 := rfl
  rw [hmax]
  unfold room
  omega

/-- **When the encoder keeps inside its buffer**: unless the buffer ends within a
record of `INT_MAX` and there are as many tracks as it takes to get there. -/
theorem encoder_inside_iff (host : Host K) (tv : Timeval) (l : TrackList K) (rsuId : UInt32)
    (maxLen : Int) :
    KeepsInside host tv l rsuId maxLen ↔ maxLen < 2147483637 ∨ l.count < 107374182 := by
  by_cases hlen : 17 ≤ maxLen
  · have hcall := v2xEncodeRsm_eq host tv l rsuId maxLen hlen
    constructor
    · rintro ⟨e, he, -⟩
      by_contra hno
      rw [if_pos ((sum_overflows_iff hlen).mpr hno), he] at hcall
      cases hcall
    · intro hok
      rw [if_neg (mt (sum_overflows_iff hlen).mp (not_not.mpr hok))] at hcall
      have hroom : (room maxLen 17 : Int) = (maxLen - 17) / 20 := by
        unfold room
        omega
      refine ⟨_, hcall, fun s hs => ?_, ?_, fun _ => ⟨rfl, ?_⟩⟩
      · have := within_packetStores host tv l rsuId maxLen s hs
        unfold serialised at this
        omega
      · refine iff_of_false ?_ (by omega)
        rintro ⟨hret, -⟩
        cases hret
      · dsimp only
        unfold serialised
        omega
  · obtain ⟨S, hS, hin⟩ := v2xEncodeRsm_small host tv l rsuId (not_le.mp hlen)
    refine iff_of_true ⟨_, hS, hin, iff_of_true ⟨rfl, rfl⟩ (by omega), fun h => absurd h hlen⟩ ?_
    exact .inl (by omega)

/-- A buffer of `INT_MAX` bytes and more tracks than fit. -/
theorem last_sum_overflows :
    ¬∀ (l : TrackList ℚ) (maxLen : Int), maxLen ≤ intMax → l.count ≤ intMax →
      KeepsInside (Host.wrapping .little) ⟨1, 0⟩ l 0xABCD maxLen := by
  intro h
  have hcount : (listOf (List.replicate 107374182 (parkedCar 1))).count = 107374182 :=
    List.length_replicate
  have hkeeps := h (listOf (List.replicate 107374182 (parkedCar 1))) 2147483647 (by decide)
    (by rw [hcount]; decide)
  rw [encoder_inside_iff, hcount] at hkeeps
  omega

end Mec
