import Mec.TrackList
import Mec.Lib.Bytes
import Mec.Lib.Stores
import Mathlib.Algebra.Order.Floor.Ring
import Mathlib.Data.Rat.Cast.Order
import Mathlib.Data.Rat.Floor

/-!
# The RSM encoder (`v2x_codec.c`)

`v2xEncodeRsm` reads the tracks and writes a packet through two structs laid
over the buffer: a header, one count byte, then a record per track while the
buffer has room. The encoder never reads the buffer, so a call is the list of
its stores; `v2xEncodeRsm_eq` gives the outcome of every call in closed form
and `spells_packetStores` the bytes it leaves.
-/

namespace Mec

open Lib.Bytes Lib.Stores

/-- The machine the encoder runs on: its byte order, and what it makes of a
double that is converted to an integer type. -/
structure Host (K : Type) where
  order : Order
  toUInt8 : K → UInt8
  toUInt16 : K → UInt16
  toInt32 : K → Int32

/-- The same machine with its bytes in the order `order`. -/
def Host.withOrder {K : Type} (host : Host K) (order : Order) : Host K := { host with order }

section Conversions

variable {K : Type} [Field K] [LinearOrder K] [FloorRing K]

def truncate (x : K) : Int := if 0 ≤ x then ⌊x⌋ else ⌈x⌉

theorem truncate_of_nonneg {x : K} (h : 0 ≤ x) : truncate x = ⌊x⌋ := if_pos h

theorem truncate_of_neg {x : K} (h : x < 0) : truncate x = ⌈x⌉ := if_neg (not_le.mpr h)

section Truncate

variable [IsStrictOrderedRing K]

theorem abs_sub_truncate_lt (x : K) : |x - truncate x| < 1 := by
  rw [abs_lt]
  rcases le_or_gt 0 x with h | h
  · rw [truncate_of_nonneg h]
    have hle := Int.floor_le x
    have hlt := Int.lt_floor_add_one x
    constructor <;> linarith
  · rw [truncate_of_neg h]
    have hle := Int.le_ceil x
    have hlt := Int.ceil_lt_add_one x
    constructor <;> linarith

theorem le_truncate_iff {x : K} {n : Int} (hn : n ≤ 0) : n ≤ truncate x ↔ (n : K) - 1 < x := by
  rcases le_or_gt 0 x with h | h
  · have hn' : (n : K) ≤ 0 := by exact_mod_cast hn
    rw [truncate_of_nonneg h]
    exact iff_of_true (hn.trans (Int.floor_nonneg.mpr h)) (by linarith)
  · rw [truncate_of_neg h, ← Int.sub_one_lt_iff, Int.lt_ceil, Int.cast_sub, Int.cast_one]

theorem truncate_lt_iff {x : K} {n : Int} (hn : 0 < n) : truncate x < n ↔ x < n := by
  have hn' : (0 : K) < n := by exact_mod_cast hn
  rcases le_or_gt 0 x with h | h
  · rw [truncate_of_nonneg h, Int.floor_lt]
  · rw [truncate_of_neg h]
    have hceil : ⌈x⌉ ≤ 0 := Int.ceil_le.mpr (by rw [Int.cast_zero]; exact h.le)
    exact iff_of_true (by omega) (h.trans hn')

theorem truncate_nonneg_iff (x : K) : 0 ≤ truncate x ↔ -1 < x := by
  rw [le_truncate_iff (le_refl 0), Int.cast_zero, zero_sub]

theorem truncate_natCast (n : Nat) : truncate (n : K) = n := by
  rw [truncate_of_nonneg (Nat.cast_nonneg n), Int.floor_natCast]

theorem truncate_le {x : K} {n : Int} (h : x ≤ n) : truncate x ≤ n := by
  rcases le_or_gt 0 x with h0 | h0
  · rw [truncate_of_nonneg h0]
    exact_mod_cast (Int.floor_le x).trans h
  · rw [truncate_of_neg h0]
    exact Int.ceil_le.mpr h

end Truncate

/-- The conversions are C's: toward zero where the result is a value of the
type, and undefined, that is anything, elsewhere. -/
structure Host.Lawful (host : Host K) : Prop where
  toUInt8 : ∀ x, 0 ≤ truncate x → truncate x < 2 ^ 8 →
    ((host.toUInt8 x).toNat : Int) = truncate x
  toUInt16 : ∀ x, 0 ≤ truncate x → truncate x < 2 ^ 16 →
    ((host.toUInt16 x).toNat : Int) = truncate x
  toInt32 : ∀ x, -2 ^ 31 ≤ truncate x → truncate x < 2 ^ 31 →
    (host.toInt32 x).toInt = truncate x

def Host.wrapping (order : Order) : Host K where
  order := order
  toUInt8 x := .ofInt (truncate x)
  toUInt16 x := .ofInt (truncate x)
  toInt32 x := .ofInt (truncate x)

theorem Host.wrapping_lawful (order : Order) : (Host.wrapping order : Host K).Lawful where
  toUInt8 x h0 h := by
    show ((UInt8.ofInt (truncate x)).toNat : Int) = truncate x
    rw [UInt8.ofInt, UInt8.toNat_ofNat']
    omega
  toUInt16 x h0 h := by
    show ((UInt16.ofInt (truncate x)).toNat : Int) = truncate x
    rw [UInt16.ofInt, UInt16.toNat_ofNat']
    omega
  toInt32 x h0 h := by
    show (Int32.ofInt (truncate x)).toInt = truncate x
    exact Int32.toInt_ofInt_of_le h0 h

end Conversions

def intMax : Nat := 2 ^ 31 - 1

def TargetType.code : TargetType → Int
  | .vehicle => 0
  | .nonVehicle => 1
  | .pedestrian => 2
  | .obstacle => 3
  | .other code => code

/-! ## The structs of `mec_v2x.h` -/

structure V2xHeader where
  magic : UInt8
  version : UInt8
  msgType : UInt8
  deviceId : UInt32
  timestamp : UInt64

structure V2xRsmParticipant where
  targetId : UInt16
  type : UInt8
  lat : Int32
  lon : Int32
  speed : UInt16
  heading : UInt16
  confidence : UInt8

/-- The fields in memory, in order. -/
def V2xHeader.fields (order : Order) (h : V2xHeader) : List (List UInt8) :=
  [[h.magic], [h.version], [h.msgType], order.bytes 4 h.deviceId.toNat,
    order.bytes 8 h.timestamp.toNat]

def V2xRsmParticipant.fields (order : Order) (p : V2xRsmParticipant) : List (List UInt8) :=
  [order.bytes 2 p.targetId.toNat, [p.type], order.bytes 4 p.lat.toUInt32.toNat,
    order.bytes 4 p.lon.toUInt32.toNat, order.bytes 2 p.speed.toNat,
    order.bytes 2 p.heading.toNat, [p.confidence]]

def sizeofV2xHeader : Nat := structSize [1, 1, 1, 4, 8]

def sizeofV2xRsmParticipant : Nat := structSize [2, 1, 4, 4, 2, 2, 1]

@[simp] theorem sizeofV2xHeader_eq : sizeofV2xHeader = 16 := rfl

@[simp] theorem sizeofV2xRsmParticipant_eq : sizeofV2xRsmParticipant = 20 := rfl

/-! ## The encoder -/

section Encoder

variable {K : Type} [Field K]

def htonl (order : Order) (v : UInt32) : UInt32 := .ofNat (order.hton 4 v.toNat)

def htons (order : Order) (v : UInt16) : UInt16 := .ofNat (order.hton 2 v.toNat)

/-- `(uint64_t)tv.tv_sec * 1000 + (tv.tv_usec / 1000)`. -/
def unixMillis (tv : Timeval) : UInt64 :=
  UInt64.ofInt tv.tvSec * 1000 + UInt64.ofInt (tv.tvUsec.tdiv 1000)

/-- The header. The timestamp is copied by `memcpy`, without a conversion. -/
def rsmHeader (order : Order) (tv : Timeval) (rsuId : UInt32) : V2xHeader where
  magic := 0x56
  version := 0x01
  msgType := 0x01
  deviceId := htonl order rsuId
  timestamp := unixMillis tv

/-- The record of a track. -/
def rsmParticipant (host : Host K) (t : TargetTrack K) : V2xRsmParticipant where
  targetId := htons host.order (.ofInt t.id)
  type := .ofInt t.type.code
  lat := (htonl host.order (host.toInt32 (t.position.latitude * 10000000.0)).toUInt32).toInt32
  lon := (htonl host.order (host.toInt32 (t.position.longitude * 10000000.0)).toUInt32).toInt32
  speed := htons host.order (host.toUInt16 (t.velocity / 0.02))
  heading := htons host.order (host.toUInt16 (t.heading / 0.0125))
  confidence := host.toUInt8 (t.confidence * 200.0)

/-- The stores of a record at `pos`. -/
def participantStores (host : Host K) (pos : Nat) (t : TargetTrack K) : List (Store UInt8) :=
  structStores pos ((rsmParticipant host t).fields host.order)

/-- The loop over the tracks from `current_pos` on: where it stops, and its
stores. `none` when `current_pos + sizeof` overflows an `int`, which is
undefined. -/
def encodeParticipants (host : Host K) (maxLen : Int) :
    Nat → List (TargetTrack K) → Option (Nat × List (Store UInt8))
  | pos, [] => some (pos, [])
  | pos, t :: ts =>
    if intMax < pos + sizeofV2xRsmParticipant then none
    else if maxLen < (pos + sizeofV2xRsmParticipant : Nat) then some (pos, [])
    else (encodeParticipants host maxLen (pos + sizeofV2xRsmParticipant) ts).map fun r =>
      (r.1, participantStores host pos t ++ r.2)

/-- What a call returns, what it leaves in `*out_len`, and its stores into
`out_buf`. -/
structure Encoded where
  ret : Int
  outLen : Int
  stores : List (Store UInt8)

/-- `v2x_encode_rsm` with `*out_len = maxLen`, at the time `tv`; `none` for
undefined behaviour. The pointers `out_buf` and `out_len` are not `NULL`. -/
def v2xEncodeRsm (host : Host K) (tv : Timeval) (tracks : Option (TrackList K)) (rsuId : UInt32)
    (maxLen : Int) : Option Encoded :=
  match tracks with
  | none => some ⟨-1, maxLen, []⟩
  | some tracks =>
    if maxLen < sizeofV2xHeader then some ⟨-1, maxLen, []⟩
    else
      let hdr := structStores 0 ((rsmHeader host.order tv rsuId).fields host.order)
      let pos := sizeofV2xHeader
      if maxLen < (pos + 1 : Nat) then some ⟨-1, maxLen, hdr⟩
      else
        let count : Store UInt8 := ⟨pos, [.ofNat tracks.count]⟩
        (encodeParticipants host maxLen (pos + 1) tracks.contents).map fun r =>
          ⟨0, r.1, hdr ++ (count :: r.2)⟩

def Encoded.buffer (e : Encoded) (outBuf : Nat → UInt8) : Nat → UInt8 :=
  applyStores outBuf e.stores

end Encoder

/-! ## The fields in memory -/

theorem bytes_htonl (order : Order) (v : UInt32) :
    order.bytes 4 (htonl order v).toNat = beBytes 4 v.toNat := by
  have hlt : order.hton 4 v.toNat < 2 ^ 32 := Order.hton_lt v.toNat_lt
  have h : (htonl order v).toNat = order.hton 4 v.toNat := by
    rw [htonl, UInt32.toNat_ofNat', Nat.mod_eq_of_lt hlt]
  rw [h, Order.bytes_hton]

theorem bytes_htons (order : Order) (v : UInt16) :
    order.bytes 2 (htons order v).toNat = beBytes 2 v.toNat := by
  have hlt : order.hton 2 v.toNat < 2 ^ 16 := Order.hton_lt v.toNat_lt
  have h : (htons order v).toNat = order.hton 2 v.toNat := by
    rw [htons, UInt16.toNat_ofNat', Nat.mod_eq_of_lt hlt]
  rw [h, Order.bytes_hton]

theorem rsmHeader_fields (order : Order) (tv : Timeval) (rsuId : UInt32) :
    (rsmHeader order tv rsuId).fields order =
      [[0x56], [0x01], [0x01], beBytes 4 rsuId.toNat, order.bytes 8 (unixMillis tv).toNat] := by
  simp only [V2xHeader.fields, rsmHeader, bytes_htonl]

def headerCells (order : Order) (tv : Timeval) (rsuId : UInt32) : List (Option UInt8) :=
  structCells ((rsmHeader order tv rsuId).fields order)

@[simp] theorem length_headerCells (order : Order) (tv : Timeval) (rsuId : UInt32) :
    (headerCells order tv rsuId).length = 16 := by
  rw [headerCells, length_structCells, rsmHeader_fields]
  simp only [List.map_cons, List.map_nil, length_beBytes, Order.length_bytes,
    List.length_singleton]
  rfl

theorem headerCells_eq (order : Order) (tv : Timeval) (rsuId : UInt32) :
    headerCells order tv rsuId =
      some 0x56 :: some 0x01 :: some 0x01 :: none :: ((beBytes 4 rsuId.toNat).map some ++
        (order.bytes 8 (unixMillis tv).toNat).map some) := by
  rw [headerCells, rsmHeader_fields]
  simp [structCells, fieldCells, padding, alignment]

section Fields

variable {K : Type} [Field K]

theorem rsmParticipant_fields (host : Host K) (t : TargetTrack K) :
    (rsmParticipant host t).fields host.order =
      [beBytes 2 (UInt16.ofInt t.id).toNat, [UInt8.ofInt t.type.code],
        beBytes 4 (host.toInt32 (t.position.latitude * 10000000.0)).toUInt32.toNat,
        beBytes 4 (host.toInt32 (t.position.longitude * 10000000.0)).toUInt32.toNat,
        beBytes 2 (host.toUInt16 (t.velocity / 0.02)).toNat,
        beBytes 2 (host.toUInt16 (t.heading / 0.0125)).toNat,
        [host.toUInt8 (t.confidence * 200.0)]] := by
  simp only [V2xRsmParticipant.fields, rsmParticipant, UInt32.toUInt32_toInt32, bytes_htonl,
    bytes_htons]

def participantCells (host : Host K) (t : TargetTrack K) : List (Option UInt8) :=
  structCells ((rsmParticipant host t).fields host.order)

@[simp] theorem length_participantCells (host : Host K) (t : TargetTrack K) :
    (participantCells host t).length = 20 := by
  rw [participantCells, length_structCells, rsmParticipant_fields]
  simp only [List.map_cons, List.map_nil, length_beBytes, List.length_singleton]
  rfl

theorem participantCells_eq (host : Host K) (t : TargetTrack K) :
    participantCells host t =
      (beBytes 2 (UInt16.ofInt t.id).toNat).map some ++ some (.ofInt t.type.code) :: none ::
        ((beBytes 4 (host.toInt32 (t.position.latitude * 10000000.0)).toUInt32.toNat).map some ++
        ((beBytes 4 (host.toInt32 (t.position.longitude * 10000000.0)).toUInt32.toNat).map some ++
        ((beBytes 2 (host.toUInt16 (t.velocity / 0.02)).toNat).map some ++
        ((beBytes 2 (host.toUInt16 (t.heading / 0.0125)).toNat).map some ++
        [some (host.toUInt8 (t.confidence * 200.0)), none, none, none])))) := by
  rw [participantCells, rsmParticipant_fields]
  simp [structCells, fieldCells, padding, alignment]

end Fields

/-! ## Every call -/

/-- How many records fit between `pos` and the end of the buffer. -/
def room (maxLen : Int) (pos : Nat) : Nat := ((maxLen - pos) / 20).toNat

/-- How many of `count` tracks are serialised. -/
def serialised (count : Nat) (maxLen : Int) : Nat := min count (room maxLen 17)

section Calls

variable {K : Type} [Field K]

def recordStores (host : Host K) : Nat → List (TargetTrack K) → List (Store UInt8)
  | _, [] => []
  | pos, t :: ts => participantStores host pos t ++ recordStores host (pos + 20) ts

theorem spells_recordStores (host : Host K) (pos : Nat) (ts : List (TargetTrack K)) :
    Spells (recordStores host pos ts) pos (ts.flatMap (participantCells host)) := by
  induction ts generalizing pos with
  | nil => exact Spells.nil pos
  | cons t ts ih =>
    have hrec : Spells (participantStores host pos t) pos (participantCells host t) :=
      spells_structStores pos _
    exact hrec.append (ih (pos + 20)) (by rw [length_participantCells])

/-- The loop writes the records that fit, unless the sum that finds the end of
the buffer overflows. -/
theorem encodeParticipants_eq (host : Host K) {maxLen : Int} {pos : Nat} (hlen : pos ≤ maxLen)
    (hint : pos ≤ intMax) (ts : List (TargetTrack K)) :
    encodeParticipants host maxLen pos ts =
      if intMax < pos + 20 * min ts.length (room maxLen pos + 1) then none
      else some (pos + 20 * min ts.length (room maxLen pos),
        recordStores host pos (ts.take (room maxLen pos))) := by
  induction ts generalizing pos with
  | nil =>
    have hno : ¬ intMax < pos + 20 * min 0 (room maxLen pos + 1) := by omega
    rw [List.length_nil, if_neg hno, List.take_nil, Nat.zero_min]
    rfl
  | cons t ts ih =>
    rw [encodeParticipants, sizeofV2xRsmParticipant_eq, List.length_cons]
    by_cases hover : intMax < pos + 20
    · have hyes : intMax < pos + 20 * min (ts.length + 1) (room maxLen pos + 1) := by omega
      rw [if_pos hover, if_pos hyes]
    · rw [if_neg hover]
      by_cases hend : maxLen < (pos + 20 : Nat)
      · have hroom : room maxLen pos = 0 := by unfold room; omega
        have hno : ¬ intMax < pos + 20 * min (ts.length + 1) (0 + 1) := by omega
        rw [if_pos hend, hroom, if_neg hno, Nat.min_zero]
        rfl
      · have hroom : room maxLen pos = room maxLen (pos + 20) + 1 := by unfold room; omega
        rw [if_neg hend, ih (by omega) (by omega), hroom, List.take_succ_cons, recordStores]
        by_cases hmore : intMax < pos + 20 + 20 * min ts.length (room maxLen (pos + 20) + 1)
        · have hyes : intMax <
              pos + 20 * min (ts.length + 1) (room maxLen (pos + 20) + 1 + 1) := by omega
          rw [if_pos hmore, if_pos hyes]
          rfl
        · have hno : ¬ intMax <
              pos + 20 * min (ts.length + 1) (room maxLen (pos + 20) + 1 + 1) := by omega
          have hpos : pos + 20 + 20 * min ts.length (room maxLen (pos + 20)) =
              pos + 20 * min (ts.length + 1) (room maxLen (pos + 20) + 1) := by omega
          rw [if_neg hmore, if_neg hno, Option.map_some, hpos]

def packetStores (host : Host K) (tv : Timeval) (l : TrackList K) (rsuId : UInt32)
    (maxLen : Int) : List (Store UInt8) :=
  structStores 0 ((rsmHeader host.order tv rsuId).fields host.order) ++
    (⟨16, [.ofNat l.count]⟩ :: recordStores host 17 (l.contents.take (room maxLen 17)))

/-- The packet; a cell that is `none` is padding. -/
def packetCells (host : Host K) (tv : Timeval) (l : TrackList K) (rsuId : UInt32)
    (maxLen : Int) : List (Option UInt8) :=
  headerCells host.order tv rsuId ++ (some (.ofNat l.count) ::
    (l.contents.take (room maxLen 17)).flatMap (participantCells host))

theorem spells_packetStores (host : Host K) (tv : Timeval) (l : TrackList K) (rsuId : UInt32)
    (maxLen : Int) :
    Spells (packetStores host tv l rsuId maxLen) 0 (packetCells host tv l rsuId maxLen) := by
  have hheader : Spells (structStores 0 ((rsmHeader host.order tv rsuId).fields host.order)) 0
      (headerCells host.order tv rsuId) := spells_structStores 0 _
  have hcount := (Spells.single 16 [UInt8.ofNat l.count]).append
    (spells_recordStores host 17 (l.contents.take (room maxLen 17))) rfl
  exact hheader.append hcount (by rw [length_headerCells])

/-- A buffer of at least 17 bytes: the packet, unless the loop's sum overflows. -/
theorem v2xEncodeRsm_eq (host : Host K) (tv : Timeval) (l : TrackList K) (rsuId : UInt32)
    (maxLen : Int) (h : 17 ≤ maxLen) :
    v2xEncodeRsm host tv (some l) rsuId maxLen =
      if intMax < 17 + 20 * min l.count (room maxLen 17 + 1) then none
      else some ⟨0, (17 + 20 * serialised l.count maxLen : Nat),
        packetStores host tv l rsuId maxLen⟩ := by
  have h16 : ¬ maxLen < (16 : Nat) := by omega
  have h17 : ¬ maxLen < (16 + 1 : Nat) := by omega
  rw [v2xEncodeRsm, sizeofV2xHeader_eq, if_neg h16, if_neg h17,
    encodeParticipants_eq host (by omega) (by decide), l.contents_length]
  split
  · rfl
  · rfl

theorem v2xEncodeRsm_short (host : Host K) (tv : Timeval) (tracks : Option (TrackList K))
    (rsuId : UInt32) {maxLen : Int} (h : maxLen < 17) :
    ∃ S, v2xEncodeRsm host tv tracks rsuId maxLen = some ⟨-1, maxLen, S⟩ := by
  unfold v2xEncodeRsm
  rw [sizeofV2xHeader_eq]
  cases tracks with
  | none => exact ⟨_, rfl⟩
  | some l =>
    have h17 : maxLen < (16 + 1 : Nat) := by omega
    by_cases h16 : maxLen < (16 : Nat)
    · exact ⟨_, if_pos h16⟩
    · exact ⟨_, (if_neg h16).trans (if_pos h17)⟩

/-- What a call that returns 0 has done. -/
theorem v2xEncodeRsm_ok {host : Host K} {tv : Timeval} {l : TrackList K} {rsuId : UInt32}
    {maxLen : Int} {e : Encoded} (h : v2xEncodeRsm host tv (some l) rsuId maxLen = some e)
    (h0 : e.ret = 0) :
    17 ≤ maxLen ∧ e = ⟨0, (17 + 20 * serialised l.count maxLen : Nat),
      packetStores host tv l rsuId maxLen⟩ := by
  by_cases hlen : 17 ≤ maxLen
  · rw [v2xEncodeRsm_eq host tv l rsuId maxLen hlen] at h
    split at h
    · cases h
    · exact ⟨hlen, (Option.some.inj h).symm⟩
  · obtain ⟨S, hS⟩ := v2xEncodeRsm_short host tv (some l) rsuId (not_le.mp hlen)
    rw [hS] at h
    obtain rfl := Option.some.inj h
    cases h0

/-! ## Reading a packet -/

/-- The buffer after a successful call, byte by byte. -/
theorem buffer_eq {host : Host K} {tv : Timeval} {l : TrackList K} {rsuId : UInt32}
    {maxLen : Int} {e : Encoded} (h : v2xEncodeRsm host tv (some l) rsuId maxLen = some e)
    (h0 : e.ret = 0) (outBuf : Nat → UInt8) (i : Nat) :
    e.buffer outBuf i = (packetCells host tv l rsuId maxLen)[i]?.join.getD (outBuf i) := by
  obtain ⟨-, rfl⟩ := v2xEncodeRsm_ok h h0
  have hi := (spells_packetStores host tv l rsuId maxLen).applyStores outBuf i
  rw [Nat.zero_add] at hi
  exact hi

theorem outLen_eq {host : Host K} {tv : Timeval} {l : TrackList K} {rsuId : UInt32}
    {maxLen : Int} {e : Encoded} (h : v2xEncodeRsm host tv (some l) rsuId maxLen = some e)
    (h0 : e.ret = 0) : e.outLen = (17 + 20 * serialised l.count maxLen : Nat) := by
  obtain ⟨-, rfl⟩ := v2xEncodeRsm_ok h h0
  rfl

/-- A packet's record `i` read at offset `off`, `n` bytes in network order. -/
def wireField (m : Nat → UInt8) (i off n : Nat) : Nat := ofBe (slice m (17 + 20 * i + off) n)

theorem packetCells_drop (host : Host K) (tv : Timeval) (l : TrackList K) (rsuId : UInt32)
    (maxLen : Int) :
    (packetCells host tv l rsuId maxLen).drop 17 =
      (l.contents.take (room maxLen 17)).flatMap (participantCells host) := by
  have hlen := length_headerCells host.order tv rsuId
  rw [packetCells, List.drop_append, List.drop_eq_nil_of_le (by omega), hlen]
  rfl

theorem packetCells_drop_record (host : Host K) (tv : Timeval) {l : TrackList K} (rsuId : UInt32)
    {maxLen : Int} {i : Nat} {t : TargetTrack K} (hi : i < serialised l.count maxLen)
    (ht : l.contents[i]? = some t) :
    ∃ rest, (packetCells host tv l rsuId maxLen).drop (17 + 20 * i) =
      participantCells host t ++ rest := by
  have hroom : i < room maxLen 17 := lt_of_lt_of_le hi (Nat.min_le_right _ _)
  have hget : (l.contents.take (room maxLen 17))[i]? = some t := by
    rw [List.getElem?_take_of_lt hroom, ht]
  obtain ⟨hlt, heq⟩ := List.getElem?_eq_some_iff.mp hget
  refine ⟨((l.contents.take (room maxLen 17)).drop (i + 1)).flatMap (participantCells host), ?_⟩
  rw [← List.drop_drop, packetCells_drop, drop_flatMap_const (length_participantCells host),
    List.drop_eq_getElem_cons hlt, heq, List.flatMap_cons]

theorem packetCells_record (host : Host K) (tv : Timeval) {l : TrackList K} (rsuId : UInt32)
    {maxLen : Int} {i j : Nat} {t : TargetTrack K} (hi : i < serialised l.count maxLen)
    (ht : l.contents[i]? = some t) (hj : j < 20) :
    (packetCells host tv l rsuId maxLen)[17 + 20 * i + j]? = (participantCells host t)[j]? := by
  obtain ⟨rest, hrest⟩ := packetCells_drop_record host tv rsuId hi ht
  rw [← List.getElem?_drop, hrest, List.getElem?_append_left]
  rw [length_participantCells]
  exact hj

theorem packetCells_header (host : Host K) (tv : Timeval) (l : TrackList K) (rsuId : UInt32)
    (maxLen : Int) {i : Nat} (hi : i < 16) :
    (packetCells host tv l rsuId maxLen)[i]? = (headerCells host.order tv rsuId)[i]? :=
  List.getElem?_append_left (by rw [length_headerCells]; exact hi)

theorem packetCells_count (host : Host K) (tv : Timeval) (l : TrackList K) (rsuId : UInt32)
    (maxLen : Int) :
    (packetCells host tv l rsuId maxLen)[16]? = some (some (.ofNat l.count)) := by
  have hlen := length_headerCells host.order tv rsuId
  rw [packetCells, List.getElem?_append_right (by omega), hlen]
  rfl

theorem header_slice {host : Host K} {tv : Timeval} {l : TrackList K} {rsuId : UInt32}
    {maxLen : Int} {e : Encoded} (h : v2xEncodeRsm host tv (some l) rsuId maxLen = some e)
    (h0 : e.ret = 0) (outBuf : Nat → UInt8) (off : Nat) (bs : List UInt8)
    (hbs : ((headerCells host.order tv rsuId).drop off).take bs.length = bs.map some) :
    slice (e.buffer outBuf) off bs.length = bs := by
  obtain ⟨-, rfl⟩ := v2xEncodeRsm_ok h h0
  have hblock : (packetCells host tv l rsuId maxLen).drop 0 =
      headerCells host.order tv rsuId ++ _ := rfl
  have hread := (spells_packetStores host tv l rsuId maxLen).slice_block outBuf hblock hbs
  rw [Nat.zero_add, Nat.zero_add] at hread
  exact hread

theorem record_slice {host : Host K} {tv : Timeval} {l : TrackList K} {rsuId : UInt32}
    {maxLen : Int} {e : Encoded} (h : v2xEncodeRsm host tv (some l) rsuId maxLen = some e)
    (h0 : e.ret = 0) (outBuf : Nat → UInt8) {i : Nat} (hi : i < serialised l.count maxLen)
    {t : TargetTrack K} (ht : l.contents[i]? = some t) {off : Nat} {bs : List UInt8}
    (hbs : ((participantCells host t).drop off).take bs.length = bs.map some) :
    slice (e.buffer outBuf) (17 + 20 * i + off) bs.length = bs := by
  obtain ⟨-, rfl⟩ := v2xEncodeRsm_ok h h0
  obtain ⟨rest, hrest⟩ := packetCells_drop_record host tv rsuId hi ht
  have hread := (spells_packetStores host tv l rsuId maxLen).slice_block outBuf hrest hbs
  rw [Nat.zero_add] at hread
  exact hread

theorem wireField_buffer {host : Host K} {tv : Timeval} {l : TrackList K} {rsuId : UInt32}
    {maxLen : Int} {e : Encoded} (h : v2xEncodeRsm host tv (some l) rsuId maxLen = some e)
    (h0 : e.ret = 0) (outBuf : Nat → UInt8) {i : Nat} (hi : i < serialised l.count maxLen)
    {t : TargetTrack K} (ht : l.contents[i]? = some t) {off n v : Nat}
    (hfield : ((participantCells host t).drop off).take n = (beBytes n v).map some) :
    wireField (e.buffer outBuf) i off n = v % 256 ^ n := by
  have hlen := length_beBytes n v
  have hread : slice (e.buffer outBuf) (17 + 20 * i + off) (beBytes n v).length = beBytes n v :=
    record_slice h h0 outBuf hi ht (by rw [hlen]; exact hfield)
  rw [hlen] at hread
  rw [wireField, hread, ofBe_beBytes]

end Calls

/-! ## A packet over the rationals -/

def listOf {K : Type} (ts : List (TargetTrack K)) : TrackList K where
  tracks := ts
  count := ts.length
  capacity := ts.length
  refCount := 1
  tracks_length := rfl
  count_le := Nat.le_refl _

/-- What a call leaves for a buffer of `maxLen` bytes, one second into the epoch. -/
def sentPacket (order : Order) (ts : List (TargetTrack ℚ)) (maxLen : Int) : Encoded :=
  ⟨0, (17 + 20 * serialised ts.length maxLen : Nat),
    packetStores (Host.wrapping order) ⟨1, 0⟩ (listOf ts) 0xABCD maxLen⟩

theorem sentPacket_eq (order : Order) (ts : List (TargetTrack ℚ)) (maxLen : Int)
    (h : 17 ≤ maxLen) (hint : 17 + 20 * ts.length ≤ intMax) :
    v2xEncodeRsm (Host.wrapping order) ⟨1, 0⟩ (some (listOf ts)) 0xABCD maxLen =
      some (sentPacket order ts maxLen) := by
  have hcount : (listOf ts).count = ts.length := rfl
  have hno : ¬ intMax < 17 + 20 * min ts.length (room maxLen 17 + 1) := by omega
  rw [v2xEncodeRsm_eq _ _ _ _ _ h, hcount, if_neg hno]
  rfl

def parkedCar (id : Int) : TargetTrack ℚ where
  id := id
  type := .vehicle
  position := ⟨0, 0, 0⟩
  velocity := 0
  heading := 0
  confidence := 1
  timestamp := ⟨0, 0⟩
  sensorId := 1

def twoCars : List (TargetTrack ℚ) := [parkedCar 1, parkedCar 2]

end Mec
