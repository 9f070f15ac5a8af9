import Mec.V2x.Codec
import Mathlib.Data.List.Palindrome

/-!
# What a packet says

Three properties of the bytes `v2x_encode_rsm` leaves in `[0, *out_len)`: which
of them still show what the buffer held before, when two machines of different
byte order send the same ones, and when the count byte is the number of records
that follow.
-/

namespace Mec

open Lib.Bytes Lib.Stores

variable {K : Type} [Field K] {host : Host K} {tv : Timeval} {l : TrackList K} {rsuId : UInt32}
  {maxLen : Int} {e : Encoded}

/-! ## Padding -/

/-- The offsets no field of the header or of a record covers. -/
def Padding (i : Nat) : Prop :=
  i = 3 ∨ 17 ≤ i ∧ ((i - 17) % 20 = 3 ∨ 17 ≤ (i - 17) % 20)

theorem offset_cases {n i : Nat} (hi : i < 17 + 20 * n) :
    i < 16 ∨ i = 16 ∨ ∃ k < n, ∃ j < 20, i = 17 + 20 * k + j := by
  by_cases hrec : 17 ≤ i
  · refine .inr (.inr ⟨(i - 17) / 20, by omega, (i - 17) % 20, by omega, by omega⟩)
  · omega

theorem headerCells_gap (order : Order) (tv : Timeval) (rsuId : UInt32) {i : Nat} (hi : i < 16) :
    (headerCells order tv rsuId)[i]?.join = none ↔ i = 3 := by
  have hmask : (headerCells order tv rsuId).map Option.isNone =
      [false, false, false, true] ++ List.replicate 12 false := by
    simp only [headerCells_eq, List.map_cons, List.map_append, map_isNone_some, length_beBytes,
      Order.length_bytes]
    rfl
  have htable : ∀ i < 16,
      ([false, false, false, true] ++ List.replicate 12 false)[i]? = some true ↔ i = 3 := by
    decide
  rw [join_getElem?_eq_none (by rw [length_headerCells]; exact hi), hmask]
  exact htable i hi

theorem participantCells_gap (host : Host K) (t : TargetTrack K) {j : Nat} (hj : j < 20) :
    (participantCells host t)[j]?.join = none ↔ j = 3 ∨ 17 ≤ j := by
  have hmask : (participantCells host t).map Option.isNone =
      [false, false, false, true] ++ (List.replicate 13 false ++ List.replicate 3 true) := by
    simp only [participantCells_eq, List.map_cons, List.map_append, map_isNone_some,
      length_beBytes]
    rfl
  have htable : ∀ j < 20,
      ([false, false, false, true] ++ (List.replicate 13 false ++ List.replicate 3 true))[j]? =
        some true ↔ j = 3 ∨ 17 ≤ j := by
    decide
  rw [join_getElem?_eq_none (by rw [length_participantCells]; exact hj), hmask]
  exact htable j hj

theorem packetCells_gap (host : Host K) (tv : Timeval) (l : TrackList K) (rsuId : UInt32)
    (maxLen : Int) {i : Nat} (hi : i < 17 + 20 * serialised l.count maxLen) :
    (packetCells host tv l rsuId maxLen)[i]?.join = none ↔ Padding i := by
  unfold Padding
  rcases offset_cases hi with hh | rfl | ⟨k, hk, j, hj, rfl⟩
  · rw [packetCells_header host tv l rsuId maxLen hh, headerCells_gap host.order tv rsuId hh]
    omega
  · rw [packetCells_count]
    exact iff_of_false (Option.some_ne_none _) (by omega)
  · have hlt : k < l.contents.length := by
      rw [l.contents_length]
      exact lt_of_lt_of_le hk (Nat.min_le_left _ _)
    rw [packetCells_record host tv rsuId hk (List.getElem?_eq_getElem hlt) hj,
      participantCells_gap host _ hj]
    omega

/-- **What a packet leaks.** Two successful calls that differ in what the
buffer held send the same bytes exactly when the buffers agreed on the padding
of the packet. -/
theorem same_bytes_iff (h : v2xEncodeRsm host tv (some l) rsuId maxLen = some e)
    (h0 : e.ret = 0) (outBuf outBuf' : Nat → UInt8) :
    (∀ i : Nat, i < e.outLen → e.buffer outBuf i = e.buffer outBuf' i) ↔
      ∀ i : Nat, i < e.outLen → Padding i → outBuf i = outBuf' i := by
  have hlen := outLen_eq h h0
  constructor
  · intro hsame i hi hpad
    have hgap := (packetCells_gap host tv l rsuId maxLen (by omega)).mpr hpad
    have hbyte := hsame i hi
    rw [buffer_eq h h0, buffer_eq h h0, hgap] at hbyte
    exact hbyte
  · intro hpad i hi
    rw [buffer_eq h h0, buffer_eq h h0]
    cases hcell : (packetCells host tv l rsuId maxLen)[i]?.join with
    | some b => rfl
    | none => exact hpad i hi ((packetCells_gap host tv l rsuId maxLen (by omega)).mp hcell)

theorem same_bytes_iff_cars :
    (∀ i : Nat, i < (sentPacket .little twoCars 2048).outLen →
      (sentPacket .little twoCars 2048).buffer (fun _ => 0) i =
        (sentPacket .little twoCars 2048).buffer (fun i => if i = 4 then 7 else 0) i) ↔
      ∀ i : Nat, i < (sentPacket .little twoCars 2048).outLen → Padding i →
        (0 : UInt8) = if i = 4 then 7 else 0 :=
  same_bytes_iff (sentPacket_eq .little twoCars 2048 (by decide) (by decide)) rfl _ _

/-- The fourth byte of a packet is the buffer's. -/
theorem fourth_byte_leaks :
    v2xEncodeRsm (Host.wrapping .little) ⟨1, 0⟩ (some (listOf twoCars)) 0xABCD 2048 =
        some (sentPacket .little twoCars 2048) ∧
      (sentPacket .little twoCars 2048).ret = 0 ∧
      3 < (sentPacket .little twoCars 2048).outLen ∧
      (sentPacket .little twoCars 2048).buffer (fun _ => 0) 3 ≠
        (sentPacket .little twoCars 2048).buffer (fun _ => 1) 3 :=
  ⟨sentPacket_eq .little twoCars 2048 (by decide) (by decide), rfl, by decide, by decide +kernel⟩

/-! ## Byte order -/

/-- The header's fields of more than one byte: offset, size and value. -/
def headerWords (tv : Timeval) (rsuId : UInt32) : List (Nat × Nat × Nat) :=
  [(4, 4, rsuId.toNat), (8, 8, (unixMillis tv).toNat)]

/-- A record's fields of more than one byte. -/
def recordWords (host : Host K) (t : TargetTrack K) : List (Nat × Nat × Nat) :=
  [(0, 2, (UInt16.ofInt t.id).toNat),
    (4, 4, (host.toInt32 (t.position.latitude * 10000000.0)).toUInt32.toNat),
    (8, 4, (host.toInt32 (t.position.longitude * 10000000.0)).toUInt32.toNat),
    (12, 2, (host.toUInt16 (t.velocity / 0.02)).toNat),
    (14, 2, (host.toUInt16 (t.heading / 0.0125)).toNat)]

/-- In the packet `m` with `n` records every field of more than one byte is in
network order. -/
def InNetworkOrder (host : Host K) (tv : Timeval) (l : TrackList K) (rsuId : UInt32) (n : Nat)
    (m : Nat → UInt8) : Prop :=
  (∀ w ∈ headerWords tv rsuId, slice m w.1 w.2.1 = beBytes w.2.1 w.2.2) ∧
    ∀ i < n, ∀ t, l.contents[i]? = some t → ∀ w ∈ recordWords host t,
      slice m (17 + 20 * i + w.1) w.2.1 = beBytes w.2.1 w.2.2

theorem deviceId_slice (h : v2xEncodeRsm host tv (some l) rsuId maxLen = some e) (h0 : e.ret = 0)
    (outBuf : Nat → UInt8) : slice (e.buffer outBuf) 4 4 = beBytes 4 rsuId.toNat := by
  have hread := header_slice h h0 outBuf 4 (beBytes 4 rsuId.toNat)
    (by rw [headerCells_eq]; rfl)
  rwa [length_beBytes] at hread

theorem timestamp_slice (h : v2xEncodeRsm host tv (some l) rsuId maxLen = some e)
    (h0 : e.ret = 0) (outBuf : Nat → UInt8) :
    slice (e.buffer outBuf) 8 8 = host.order.bytes 8 (unixMillis tv).toNat := by
  have hlen := host.order.length_bytes 8 (unixMillis tv).toNat
  have hread := header_slice h h0 outBuf 8 (host.order.bytes 8 (unixMillis tv).toNat) (by
      rw [headerCells_eq]
      show List.take _ (List.map some _) = _
      rw [← List.map_take, List.take_length])
  rwa [hlen] at hread

theorem recordWords_slice (h : v2xEncodeRsm host tv (some l) rsuId maxLen = some e)
    (h0 : e.ret = 0) (outBuf : Nat → UInt8) {i : Nat} (hi : i < serialised l.count maxLen)
    {t : TargetTrack K} (ht : l.contents[i]? = some t) {w : Nat × Nat × Nat}
    (hw : w ∈ recordWords host t) :
    slice (e.buffer outBuf) (17 + 20 * i + w.1) w.2.1 = beBytes w.2.1 w.2.2 := by
  have hfield : ((participantCells host t).drop w.1).take (beBytes w.2.1 w.2.2).length =
      (beBytes w.2.1 w.2.2).map some := by
    rw [participantCells_eq]
    simp only [recordWords, List.mem_cons, List.not_mem_nil, or_false] at hw
    rcases hw with rfl | rfl | rfl | rfl | rfl <;> rfl
  have hread := record_slice h h0 outBuf hi ht hfield
  rwa [length_beBytes] at hread

theorem packetCells_withOrder {order order' : Order}
    (hms : order.bytes 8 (unixMillis tv).toNat = order'.bytes 8 (unixMillis tv).toNat) :
    packetCells (host.withOrder order) tv l rsuId maxLen =
      packetCells (host.withOrder order') tv l rsuId maxLen := by
  have hheader : headerCells order tv rsuId = headerCells order' tv rsuId := by
    rw [headerCells_eq, headerCells_eq, hms]
  have hrecord : participantCells (host.withOrder order) =
      participantCells (host.withOrder order') := by
    funext t
    rw [participantCells_eq, participantCells_eq]
    rfl
  show headerCells order tv rsuId ++ _ = headerCells order' tv rsuId ++ _
  rw [hheader, hrecord]

/-- **Byte order.** A little-endian and a big-endian machine send packets of
one length; byte for byte they are the same, and the little-endian one is in
network order, exactly when the eight bytes of the time in milliseconds read
the same in both directions. -/
theorem hosts_agree_iff {e' : Encoded}
    (h : v2xEncodeRsm (host.withOrder .little) tv (some l) rsuId maxLen = some e)
    (h' : v2xEncodeRsm (host.withOrder .big) tv (some l) rsuId maxLen = some e')
    (h0 : e.ret = 0) (outBuf : Nat → UInt8) :
    e'.ret = 0 ∧ e'.outLen = e.outLen ∧
      ((∀ i : Nat, i < e.outLen → e.buffer outBuf i = e'.buffer outBuf i) ↔
        (leBytes 8 (unixMillis tv).toNat).Palindrome) ∧
      (InNetworkOrder host tv l rsuId (serialised l.count maxLen) (e.buffer outBuf) ↔
        (leBytes 8 (unixMillis tv).toNat).Palindrome) ∧
      InNetworkOrder host tv l rsuId (serialised l.count maxLen) (e'.buffer outBuf) := by
  have hlen := outLen_eq h h0
  obtain ⟨h17, -⟩ := v2xEncodeRsm_ok h h0
  have h0' : e'.ret = 0 := by
    have heq := h
    rw [v2xEncodeRsm_eq _ tv l rsuId maxLen h17] at heq h'
    split at heq
    · cases heq
    · next hno =>
      rw [if_neg hno] at h'
      obtain rfl := Option.some.inj h'
      rfl
  have hlittle := timestamp_slice h h0 outBuf
  have hbig := timestamp_slice h' h0' outBuf
  refine ⟨h0', (outLen_eq h' h0').trans hlen.symm, ?_, ?_, ?_, ?_⟩
  · rw [List.Palindrome.iff_reverse_eq]
    constructor
    · intro hsame
      have heq : slice (e.buffer outBuf) 8 8 = slice (e'.buffer outBuf) 8 8 :=
        slice_congr fun j hj => hsame (8 + j) (by omega)
      exact (hlittle.symm.trans (heq.trans hbig)).symm
    · intro hpal i _
      have hms : Order.little.bytes 8 (unixMillis tv).toNat =
          Order.big.bytes 8 (unixMillis tv).toNat := hpal.symm
      rw [buffer_eq h h0, buffer_eq h' h0', packetCells_withOrder hms]
  · rw [List.Palindrome.iff_reverse_eq]
    constructor
    · intro hnet
      exact (hnet.1 (8, 8, (unixMillis tv).toNat) (by simp [headerWords])).symm.trans hlittle
    · intro hpal
      refine ⟨?_, fun i hi t ht w hw => recordWords_slice h h0 outBuf hi ht hw⟩
      simp only [headerWords, List.mem_cons, List.not_mem_nil, or_false]
      rintro w (rfl | rfl)
      · exact deviceId_slice h h0 outBuf
      · exact hlittle.trans hpal.symm
  · simp only [headerWords, List.mem_cons, List.not_mem_nil, or_false]
    rintro w (rfl | rfl)
    · exact deviceId_slice h' h0' outBuf
    · exact hbig
  · exact fun i hi t ht w hw => recordWords_slice h' h0' outBuf hi ht hw

theorem hosts_agree_iff_cars :
    (∀ i : Nat, i < (sentPacket .little twoCars 2048).outLen →
      (sentPacket .little twoCars 2048).buffer (fun _ => 0) i =
        (sentPacket .big twoCars 2048).buffer (fun _ => 0) i) ↔
      (leBytes 8 (unixMillis ⟨1, 0⟩).toNat).Palindrome := by
  have hlittle : v2xEncodeRsm ((Host.wrapping .little).withOrder .little) ⟨1, 0⟩
      (some (listOf twoCars)) 0xABCD 2048 = some (sentPacket .little twoCars 2048) :=
    sentPacket_eq .little twoCars 2048 (by decide) (by decide)
  have hbig : v2xEncodeRsm ((Host.wrapping .little).withOrder .big) ⟨1, 0⟩
      (some (listOf twoCars)) 0xABCD 2048 = some (sentPacket .big twoCars 2048) :=
    sentPacket_eq .big twoCars 2048 (by decide) (by decide)
  exact (hosts_agree_iff hlittle hbig rfl fun _ => 0).2.2.1

/-- One second into the epoch the first byte of the timestamp is `0xE8` or 0. -/
theorem timestamp_byte_differs :
    v2xEncodeRsm (Host.wrapping .little) ⟨1, 0⟩ (some (listOf twoCars)) 0xABCD 2048 =
        some (sentPacket .little twoCars 2048) ∧
      v2xEncodeRsm (Host.wrapping .big) ⟨1, 0⟩ (some (listOf twoCars)) 0xABCD 2048 =
        some (sentPacket .big twoCars 2048) ∧
      (sentPacket .little twoCars 2048).buffer (fun _ => 0) 8 = 0xE8 ∧
      (sentPacket .big twoCars 2048).buffer (fun _ => 0) 8 = 0 :=
  ⟨sentPacket_eq .little twoCars 2048 (by decide) (by decide),
    sentPacket_eq .big twoCars 2048 (by decide) (by decide), by decide +kernel, by decide +kernel⟩

/-! ## The count byte -/

/-- **The count byte** is the number of records sent exactly when the count
fits a byte and every record the buffer, or when the buffer happens to hold as
many records as are left of the count modulo 256. -/
theorem count_byte_iff (h : v2xEncodeRsm host tv (some l) rsuId maxLen = some e)
    (h0 : e.ret = 0) (outBuf : Nat → UInt8) :
    ((e.buffer outBuf 16).toNat : Int) = (e.outLen - 17) / 20 ↔
      l.count < 256 ∧ (l.count : Int) ≤ (maxLen - 17) / 20 ∨
        256 ≤ l.count ∧ (maxLen - 17) / 20 = (l.count % 256 : Nat) := by
  have hlen := outLen_eq h h0
  obtain ⟨h17, -⟩ := v2xEncodeRsm_ok h h0
  have hbyte : (e.buffer outBuf 16).toNat = l.count % 256 := by
    rw [buffer_eq h h0, packetCells_count]
    exact UInt8.toNat_ofNat'
  have hroom : (room maxLen 17 : Int) = (maxLen - 17) / 20 := by
    unfold room
    omega
  rw [hbyte, hlen, serialised, ← hroom]
  omega

theorem count_byte_iff_cars :
    (((sentPacket .little twoCars 2048).buffer (fun _ => 0) 16).toNat : Int) =
        ((sentPacket .little twoCars 2048).outLen - 17) / 20 ↔
      (listOf twoCars).count < 256 ∧ ((listOf twoCars).count : Int) ≤ (2048 - 17) / 20 ∨
        256 ≤ (listOf twoCars).count ∧
          ((2048 : Int) - 17) / 20 = ((listOf twoCars).count % 256 : Nat) :=
  count_byte_iff (sentPacket_eq .little twoCars 2048 (by decide) (by decide)) rfl _

/-- Two cars, 40 bytes: the packet announces two records and carries one. -/
theorem count_byte_overstates :
    v2xEncodeRsm (Host.wrapping .little) ⟨1, 0⟩ (some (listOf twoCars)) 0xABCD 40 =
        some (sentPacket .little twoCars 40) ∧
      (sentPacket .little twoCars 40).ret = 0 ∧
      ((sentPacket .little twoCars 40).buffer (fun _ => 0) 16).toNat = 2 ∧
      ((sentPacket .little twoCars 40).outLen - 17) / 20 = 1 :=
  ⟨sentPacket_eq .little twoCars 40 (by decide) (by decide), rfl, by decide +kernel, by decide⟩

end Mec
