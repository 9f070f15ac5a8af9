import Mathlib.Algebra.Group.Nat.Defs
import Mec.Lib.Prefix

/-!
# The memory manager (`memory_new.c`)

Two pools of equal blocks, each with a stack of free block indices, in front of
the C library's heap. Pointers are addresses, `none` is `NULL`. The heap is
modelled by the list of the blocks callers hold and by the answers it gives:
`sys` is what the one `malloc` or `realloc` a call may make returns. `fault` records a
`free` or `realloc` of a pointer the heap did not hand out. The two counters
are `size_t`.
-/

namespace Mec

open Lib.Prefix

/-- An allocated range: its pointer and the size that was asked for. -/
structure Block where
  ptr : Nat
  size : Nat
  deriving DecidableEq, Repr

namespace Block

/-- The bytes a block occupies; even an empty one has an address of its own. -/
def extent (b : Block) : Nat := max b.size 1

def Apart (b c : Block) : Prop := b.ptr + b.extent ≤ c.ptr ∨ c.ptr + c.extent ≤ b.ptr

instance (b c : Block) : Decidable (b.Apart c) := inferInstanceAs (Decidable (_ ∨ _))

theorem Apart.symm {b c : Block} (h : b.Apart c) : c.Apart b := Or.symm h

theorem Apart.ptr_ne {b c : Block} (h : b.Apart c) : b.ptr ≠ c.ptr := by
  unfold Apart extent at h
  omega

/-- Blocks that do not overlap are told apart by their pointers. -/
theorem find_block {l : List Block} (h : l.Pairwise Apart) {b : Block} (hb : b ∈ l) :
    l.find? (·.ptr == b.ptr) = some b := by
  induction l with
  | nil => cases hb
  | cons c l ih =>
    obtain ⟨hc, hl⟩ := List.pairwise_cons.mp h
    rcases List.mem_cons.mp hb with rfl | hb
    · exact List.find?_cons_of_pos (beq_self_eq_true _)
    · have hne := (hc b hb).ptr_ne
      rw [List.find?_cons_of_neg (by simpa using hne)]
      exact ih hl hb

end Block

/-- `mem_pool_t` without its lock. -/
structure MemPool where
  blocks : Nat
  freeList : List Nat
  freeCount : Nat
  totalCount : Nat
  blockSize : Nat
  freeList_length : freeList.length = totalCount
  free_le : freeCount ≤ totalCount

namespace MemPool

def free (p : MemPool) : List Nat := p.freeList.take p.freeCount

theorem free_length (p : MemPool) : p.free.length = p.freeCount := by
  rw [free, List.length_take, p.freeList_length, Nat.min_eq_left p.free_le]

def stop (p : MemPool) : Nat := p.blocks + p.totalCount * p.blockSize

/-- The range check on a pointer. -/
def contains (p : MemPool) (ptr : Nat) : Bool := decide (p.blocks ≤ ptr ∧ ptr < p.stop)

/-- The check that a pointer is the start of a block. -/
def owns (p : MemPool) (ptr : Nat) : Bool :=
  p.contains ptr && decide ((ptr - p.blocks) % p.blockSize = 0)

/-- `(block_start - blocks) / block_size`. -/
def index (p : MemPool) (ptr : Nat) : Nat := (ptr - p.blocks) / p.blockSize

/-- The static initialiser. -/
def zero : MemPool := ⟨0, [], 0, 0, 0, rfl, Nat.le_refl 0⟩

/-- The pop in `mec_malloc`: the address of a block. -/
def take (p : MemPool) : Option (Nat × MemPool) :=
  if h : 0 < p.freeCount then
    let idx := p.freeList.get ⟨p.freeCount - 1, by
      rw [p.freeList_length]
      exact Nat.lt_of_lt_of_le (Nat.sub_one_lt_of_lt h) p.free_le⟩
    some (p.blocks + idx * p.blockSize,
      { p with
        freeCount := p.freeCount - 1
        free_le := Nat.le_trans (Nat.sub_le _ _) p.free_le })
  else none

/-- The push in `mec_free`; `none` when the pointer goes to the next check. -/
def give (p : MemPool) (ptr : Nat) : Option MemPool :=
  if p.owns ptr then
    if h : p.freeCount < p.totalCount then
      some
        { p with
          freeList := p.freeList.set p.freeCount (p.index ptr)
          freeCount := p.freeCount + 1
          freeList_length := by rw [List.length_set, p.freeList_length]
          free_le := h }
    else none
  else none

end MemPool

/-- `init_pool`: `blocks` and `freeList` are the answers of `calloc` and `malloc`. -/
def initPool (pool : MemPool) (blocks freeList : Option Nat) (count blockSize : Nat) :
    Int × MemPool :=
  match blocks, freeList with
  | none, _ => (-1, { pool with blocks := 0 })
  | some blocks, none => (-1, { pool with blocks := blocks })
  | some blocks, some _ =>
    (0, ⟨blocks, List.range count, count, count, blockSize, List.length_range, Nat.le_refl count⟩)

/-- The static variables of the module, the bytes of memory, and the C library's
heap. -/
structure Memory where
  small : MemPool
  medium : MemPool
  bytes : Nat → UInt8
  heap : List Block
  fault : Bool
  currentAllocated : BitVec 64
  peakAllocated : BitVec 64

def poolSmallSize : Nat := 256
def poolMediumSize : Nat := 4096
def poolSmallCount : Nat := 64
def poolMediumCount : Nat := 32

def memset (bytes : Nat → UInt8) (ptr : Nat) (ch : UInt8) (n : Nat) : Nat → UInt8 :=
  fun a => if ptr ≤ a ∧ a < ptr + n then ch else bytes a

def memcpy (bytes : Nat → UInt8) (dst src n : Nat) : Nat → UInt8 :=
  fun a => if dst ≤ a ∧ a < dst + n then bytes (src + (a - dst)) else bytes a

/-- The bytes after a `calloc` of `n` bytes with this answer. -/
def zeroed (bytes : Nat → UInt8) (answer : Option Nat) (n : Nat) : Nat → UInt8 :=
  match answer with
  | none => bytes
  | some ptr => memset bytes ptr 0 n

/-- `mec_memory_init` on the static state. The answers are those of the `calloc`
and the `malloc` of either pool. -/
def mecMemoryInit (smallBlocks smallList mediumBlocks mediumList : Option Nat)
    (bytes : Nat → UInt8) : Memory where
  small := (initPool .zero smallBlocks smallList poolSmallCount poolSmallSize).2
  medium := (initPool .zero mediumBlocks mediumList poolMediumCount poolMediumSize).2
  bytes := zeroed (zeroed bytes smallBlocks (poolSmallCount * poolSmallSize)) mediumBlocks
    (poolMediumCount * poolMediumSize)
  heap := []
  fault := false
  currentAllocated := 0
  peakAllocated := 0

/-! ## The C library -/

def sysMalloc (sys : Option Nat) (m : Memory) (size : Nat) : Option Nat × Memory :=
  match sys with
  | none => (none, m)
  | some ptr => (some ptr, { m with heap := ⟨ptr, size⟩ :: m.heap })

def sysFree (m : Memory) (ptr : Nat) : Memory :=
  match m.heap.find? (·.ptr == ptr) with
  | none => { m with fault := true }
  | some b => { m with heap := m.heap.erase b }

/-- `realloc` to a positive size: on success the block moves with its contents. -/
def sysRealloc (sys : Option Nat) (m : Memory) (ptr size : Nat) : Option Nat × Memory :=
  match m.heap.find? (·.ptr == ptr) with
  | none => (none, { m with fault := true })
  | some b =>
    match sys with
    | none => (none, m)
    | some new =>
      (some new,
        { m with
          heap := ⟨new, size⟩ :: m.heap.erase b
          bytes := memcpy m.bytes new ptr (min b.size size) })

/-! ## The interface -/

/-- The pool part of `mec_malloc`; a block is marked by the `int` -1. -/
def poolMalloc (m : Memory) (size : Nat) : Option Nat × Memory :=
  if size ≤ poolSmallSize then
    match m.small.take with
    | some (ptr, small) => (some ptr, { m with small, bytes := memset m.bytes ptr 0xFF 4 })
    | none => (none, m)
  else if size ≤ poolMediumSize then
    match m.medium.take with
    | some (ptr, medium) => (some ptr, { m with medium, bytes := memset m.bytes ptr 0xFF 4 })
    | none => (none, m)
  else (none, m)

/-- The statistics of a successful allocation. -/
def Memory.count (m : Memory) (size : Nat) : Memory :=
  let current := m.currentAllocated + BitVec.ofNat 64 size
  { m with
    currentAllocated := current
    peakAllocated := if m.peakAllocated < current then current else m.peakAllocated }

def counted (size : Nat) : Option Nat × Memory → Option Nat × Memory
  | (some ptr, m) => (some ptr, m.count size)
  | (none, m) => (none, m)

def mecMalloc (sys : Option Nat) (m : Memory) (size : Nat) : Option Nat × Memory :=
  counted size <|
    match poolMalloc m size with
    | (some ptr, m) => (some ptr, m)
    | (none, m) => sysMalloc sys m size

/-- `mec_free` on a pointer that is not `NULL`. -/
def freeBlock (m : Memory) (ptr : Nat) : Memory :=
  match m.small.give ptr with
  | some small =>
    { m with
      small
      currentAllocated := m.currentAllocated - BitVec.ofNat 64 small.blockSize }
  | none =>
    match m.medium.give ptr with
    | some medium =>
      { m with
        medium
        currentAllocated := m.currentAllocated - BitVec.ofNat 64 medium.blockSize }
    | none => sysFree m ptr

def mecFree (m : Memory) : Option Nat → Memory
  | none => m
  | some ptr => freeBlock m ptr

/-- `mec_calloc`; the product is a `size_t`. -/
def mecCalloc (sys : Option Nat) (m : Memory) (nmemb size : Nat) : Option Nat × Memory :=
  let totalSize := nmemb * size % 2 ^ 64
  match mecMalloc sys m totalSize with
  | (some ptr, m) => (some ptr, { m with bytes := memset m.bytes ptr 0 totalSize })
  | (none, m) => (none, m)

def copySize (m : Memory) (ptr size : Nat) : Nat :=
  if m.small.contains ptr then min size m.small.blockSize
  else if m.medium.blocks ≤ ptr then min size m.medium.blockSize
  else size

def mecRealloc (sys : Option Nat) (m : Memory) (ptr : Option Nat) (size : Nat) :
    Option Nat × Memory :=
  match ptr with
  | none => mecMalloc sys m size
  | some ptr =>
    if size = 0 then (none, freeBlock m ptr)
    else if m.small.owns ptr || m.medium.owns ptr then
      match mecMalloc sys m size with
      | (some new, m) =>
        (some new, freeBlock { m with bytes := memcpy m.bytes new ptr (copySize m ptr size) } ptr)
      | (none, m) => (none, m)
    else sysRealloc sys m ptr size

end Mec
