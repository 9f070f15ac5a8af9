import Mathlib.Algebra.Group.Nat.Defs

/-!
# Integers as bytes

A fixed number of bytes of an integer, least or most significant first, the two
byte orders of a machine, and the conversion to network order.
-/

namespace Lib.Bytes

/-- The low `n` bytes of `v`, least significant first. -/
def leBytes : Nat → Nat → List UInt8
  | 0, _ => []
  | n + 1, v => UInt8.ofNat v :: leBytes n (v / 256)

def ofLe : List UInt8 → Nat
  | [] => 0
  | b :: bs => b.toNat + 256 * ofLe bs

/-- The low `n` bytes of `v`, most significant first: network order. -/
def beBytes (n v : Nat) : List UInt8 := (leBytes n v).reverse

def ofBe (bs : List UInt8) : Nat := ofLe bs.reverse

@[simp] theorem length_leBytes (n v : Nat) : (leBytes n v).length = n := by
  induction n generalizing v with
  | zero => rfl
  | succ n ih => rw [leBytes, List.length_cons, ih]

@[simp] theorem length_beBytes (n v : Nat) : (beBytes n v).length = n := by
  rw [beBytes, List.length_reverse, length_leBytes]

theorem ofLe_leBytes (n v : Nat) : ofLe (leBytes n v) = v % 256 ^ n := by
  induction n generalizing v with
  | zero => rw [Nat.pow_zero, Nat.mod_one]; rfl
  | succ n ih =>
    have hlow : (UInt8.ofNat v).toNat = v % 256 := UInt8.toNat_ofNat'
    rw [leBytes, ofLe, ih, hlow, Nat.pow_succ, Nat.mul_comm (256 ^ n) 256, Nat.mod_mul]

theorem ofBe_beBytes (n v : Nat) : ofBe (beBytes n v) = v % 256 ^ n := by
  rw [ofBe, beBytes, List.reverse_reverse, ofLe_leBytes]

theorem leBytes_ofLe (bs : List UInt8) : leBytes bs.length (ofLe bs) = bs := by
  induction bs with
  | nil => rfl
  | cons b bs ih =>
    have hb : b.toNat < 256 := b.toNat_lt
    have hlow : UInt8.ofNat (b.toNat + 256 * ofLe bs) = b := by
      apply UInt8.toNat.inj
      rw [UInt8.toNat_ofNat']
      omega
    have hhigh : (b.toNat + 256 * ofLe bs) / 256 = ofLe bs := by omega
    rw [List.length_cons, leBytes, ofLe, hlow, hhigh, ih]

theorem ofLe_lt (bs : List UInt8) : ofLe bs < 256 ^ bs.length := by
  rw [← leBytes_ofLe bs, ofLe_leBytes, length_leBytes]
  exact Nat.mod_lt _ (Nat.pow_pos (by decide))

/-- The byte order of a machine. -/
inductive Order where
  | little
  | big
  deriving DecidableEq, Repr

namespace Order

/-- The `n` bytes of `v` in memory. -/
def bytes : Order → Nat → Nat → List UInt8
  | .little => leBytes
  | .big => beBytes

/-- The `n`-byte integer whose bytes in memory are those of `v` in network
order. -/
def hton : Order → Nat → Nat → Nat
  | .little, n, v => ofLe (beBytes n v)
  | .big, _, v => v

@[simp] theorem length_bytes (o : Order) (n v : Nat) : (o.bytes n v).length = n := by
  cases o with
  | little => exact length_leBytes n v
  | big => exact length_beBytes n v

theorem bytes_hton (o : Order) (n v : Nat) : o.bytes n (o.hton n v) = beBytes n v := by
  cases o with
  | little =>
    have h := leBytes_ofLe (beBytes n v)
    rw [length_beBytes] at h
    exact h
  | big => rfl

theorem hton_lt {o : Order} {n v : Nat} (hv : v < 256 ^ n) : o.hton n v < 256 ^ n := by
  cases o with
  | little =>
    have h := ofLe_lt (beBytes n v)
    rw [length_beBytes] at h
    exact h
  | big => exact hv

end Order

end Lib.Bytes
