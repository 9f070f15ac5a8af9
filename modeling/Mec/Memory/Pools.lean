import Mec.Lib.FreeStack
import Mec.Lib.Lts
import Mec.Memory.Basic

/-!
# The pools never hand out a block twice

Runs of the memory manager by callers that free and reallocate live pointers
only. `PoolOk` says of one pool that its free stack and the live blocks inside
it are a partition of its slots, and that each of these blocks starts at a slot
and fits it; `AllocOk` adds the heap. Taking and giving back a block of either
pool are `Partition.pop` and `Partition.push`.
-/

namespace Mec

open Lib.FreeStack Lib.Lts Lib.Prefix

/-! ## One pool -/

namespace MemPool

/-- The slots of the pool that the blocks occupy. -/
def inUse (p : MemPool) (live : List Block) : List Nat :=
  (live.filter fun b => p.contains b.ptr).map fun b => p.index b.ptr

/-- A block outside the pool. A pool that could not be set up has no block, and
its `blocks` may point anywhere. -/
def ApartFrom (p : MemPool) (b : Block) : Prop :=
  p.totalCount = 0 ∨ b.ptr + b.extent ≤ p.blocks ∨ p.stop ≤ b.ptr

instance (p : MemPool) (b : Block) : Decidable (p.ApartFrom b) :=
  inferInstanceAs (Decidable (_ ∨ _))

/-- Blocks of `size` bytes, if there are any. -/
def Sized (p : MemPool) (size : Nat) : Prop := 0 < p.totalCount → p.blockSize = size

/-- The two ranges do not overlap. -/
def Disjoint (p q : MemPool) : Prop :=
  p.totalCount = 0 ∨ q.totalCount = 0 ∨ p.stop ≤ q.blocks ∨ q.stop ≤ p.blocks

/-- Same addresses, perhaps another free stack. -/
structure SameShape (q p : MemPool) : Prop where
  blocks : q.blocks = p.blocks
  totalCount : q.totalCount = p.totalCount
  blockSize : q.blockSize = p.blockSize

variable {p q : MemPool} {b : Block} {live rest : List Block}

theorem SameShape.stop (h : q.SameShape p) : q.stop = p.stop := by
  rw [MemPool.stop, MemPool.stop, h.blocks, h.totalCount, h.blockSize]

theorem SameShape.contains (h : q.SameShape p) (ptr : Nat) : q.contains ptr = p.contains ptr := by
  rw [MemPool.contains, MemPool.contains, h.blocks, h.stop]

theorem SameShape.inUse (h : q.SameShape p) (live : List Block) : q.inUse live = p.inUse live := by
  unfold MemPool.inUse MemPool.index
  simp only [h.contains, h.blocks, h.blockSize]

theorem SameShape.apartFrom (h : q.SameShape p) (b : Block) : q.ApartFrom b ↔ p.ApartFrom b := by
  rw [ApartFrom, ApartFrom, h.totalCount, h.blocks, h.stop]

theorem SameShape.disjoint {r : MemPool} (h : q.SameShape p) : q.Disjoint r ↔ p.Disjoint r := by
  rw [Disjoint, Disjoint, h.totalCount, h.blocks, h.stop]

theorem SameShape.sized {size : Nat} (h : q.SameShape p) : q.Sized size ↔ p.Sized size := by
  rw [Sized, Sized, h.totalCount, h.blockSize]

theorem Disjoint.symm (h : p.Disjoint q) : q.Disjoint p := by
  unfold Disjoint at h ⊢
  omega

theorem contains_iff {ptr : Nat} : p.contains ptr ↔ p.blocks ≤ ptr ∧ ptr < p.stop := by
  rw [contains, decide_eq_true_iff]

theorem totalCount_pos {ptr : Nat} (h : p.contains ptr) : 0 < p.totalCount := by
  rw [contains_iff] at h
  unfold stop at h
  apply Nat.pos_of_ne_zero
  intro hzero
  rw [hzero] at h
  omega

theorem not_contains_of_apart (h : p.ApartFrom b) : ¬p.contains b.ptr := by
  intro hc
  have hpos := totalCount_pos hc
  rw [contains_iff] at hc
  unfold ApartFrom Block.extent at h
  omega

theorem inUse_cons_of_contains (h : p.contains b.ptr) :
    p.inUse (b :: live) = p.index b.ptr :: p.inUse live := by
  rw [inUse, List.filter_cons_of_pos (p := fun b : Block => p.contains b.ptr) h]
  rfl

theorem inUse_cons_of_not (h : ¬p.contains b.ptr) : p.inUse (b :: live) = p.inUse live := by
  rw [inUse, List.filter_cons_of_neg (p := fun b : Block => p.contains b.ptr) h]
  rfl

end MemPool

/-- A pool and the live blocks. -/
structure PoolOk (p : MemPool) (live : List Block) : Prop where
  size_pos : 0 < p.totalCount → 0 < p.blockSize
  partition : Partition p.free (p.inUse live) p.totalCount
  served : ∀ b ∈ live, p.contains b.ptr → (b.ptr - p.blocks) % p.blockSize = 0 ∧
    b.extent ≤ p.blockSize

section PoolOk

variable {p q : MemPool} {b c : Block} {live rest : List Block}

theorem PoolOk.perm (h : PoolOk p live) (hperm : live.Perm rest) : PoolOk p rest := by
  refine ⟨h.size_pos, h.partition.perm ((hperm.filter _).map _), fun b hb => ?_⟩
  exact h.served b (hperm.symm.subset hb)

theorem PoolOk.cons_iff (hc : ¬p.contains b.ptr) : PoolOk p (b :: live) ↔ PoolOk p live := by
  constructor
  · intro h
    refine ⟨h.size_pos, ?_, fun c hmem => h.served c (List.mem_cons_of_mem b hmem)⟩
    have := h.partition
    rwa [MemPool.inUse_cons_of_not hc] at this
  · intro h
    refine ⟨h.size_pos, ?_, fun c hmem hcc => ?_⟩
    · rw [MemPool.inUse_cons_of_not hc]
      exact h.partition
    rcases List.mem_cons.mp hmem with rfl | hmem
    · exact absurd hcc hc
    · exact h.served c hmem hcc

/-- A live block of the pool starts at its slot. -/
theorem PoolOk.ptr_eq (h : PoolOk p live) (hb : b ∈ live) (hc : p.contains b.ptr) :
    b.ptr = p.blocks + p.index b.ptr * p.blockSize := by
  have hle := (MemPool.contains_iff.mp hc).1
  have hmod := (h.served b hb hc).1
  have hdiv := Nat.div_add_mod' (b.ptr - p.blocks) p.blockSize
  rw [hmod] at hdiv
  show b.ptr = p.blocks + (b.ptr - p.blocks) / p.blockSize * p.blockSize
  omega

theorem PoolOk.index_mem (hb : b ∈ live) (hc : p.contains b.ptr) :
    p.index b.ptr ∈ p.inUse live :=
  List.mem_map_of_mem (List.mem_filter.mpr ⟨hb, hc⟩)

theorem PoolOk.within (h : PoolOk p live) (hb : b ∈ live) (hc : p.contains b.ptr) :
    p.blocks ≤ b.ptr ∧ b.ptr + b.extent ≤ p.stop := by
  have hptr := h.ptr_eq hb hc
  have hlt := h.partition.lt (List.mem_append_right _ (PoolOk.index_mem hb hc))
  have hsize := (h.served b hb hc).2
  have hmul := Nat.mul_le_mul_right p.blockSize (Nat.succ_le_of_lt hlt)
  rw [Nat.succ_mul] at hmul
  unfold MemPool.stop
  omega

theorem apart_of_slots {base size i j : Nat} (hij : i ≠ j) (hb : b.ptr = base + i * size)
    (hc : c.ptr = base + j * size) (hbs : b.extent ≤ size) (hcs : c.extent ≤ size) :
    b.Apart c := by
  unfold Block.Apart
  rcases Nat.lt_or_gt_of_ne hij with hlt | hlt
  · have hmul := Nat.mul_le_mul_right size (Nat.succ_le_of_lt hlt)
    rw [Nat.succ_mul] at hmul
    omega
  · have hmul := Nat.mul_le_mul_right size (Nat.succ_le_of_lt hlt)
    rw [Nat.succ_mul] at hmul
    omega

theorem take_eq {ptr : Nat} (htake : p.take = some (ptr, q)) :
    ∃ i, p.free = q.free ++ [i] ∧ ptr = p.blocks + i * p.blockSize ∧ q.SameShape p := by
  unfold MemPool.take at htake
  split at htake
  · next hpos =>
    have hlt : p.freeCount - 1 < p.freeList.length := by
      have := p.free_le
      rw [p.freeList_length]
      omega
    obtain ⟨rfl, rfl⟩ := Prod.mk.inj (Option.some.inj htake)
    refine ⟨p.freeList.get ⟨p.freeCount - 1, hlt⟩, ?_, rfl, rfl, rfl, rfl⟩
    have hsucc := take_succ_get hlt
    rwa [Nat.sub_add_cancel hpos] at hsucc
  · cases htake

theorem take_pos {ptr : Nat} (htake : p.take = some (ptr, q)) : 0 < p.totalCount := by
  unfold MemPool.take at htake
  split at htake
  · next hpos => exact hpos.trans_le p.free_le
  · cases htake

/-- **Taking a block**: it is a block of the pool and apart from the live ones. -/
theorem PoolOk.take (h : PoolOk p live) {ptr : Nat} (htake : p.take = some (ptr, q)) {size : Nat}
    (hsize : (Block.mk ptr size).extent ≤ p.blockSize) :
    q.SameShape p ∧ p.contains ptr ∧ PoolOk q (⟨ptr, size⟩ :: live) ∧
      ∀ b ∈ live, p.contains b.ptr → Block.Apart ⟨ptr, size⟩ b := by
  obtain ⟨i, hfree, rfl, hshape⟩ := take_eq htake
  have hpart := h.partition
  rw [hfree] at hpart
  have hlt : i < p.totalCount := hpart.lt (by simp)
  have hpos : 0 < p.blockSize := h.size_pos (Nat.zero_lt_of_lt hlt)
  have hcontains : p.contains (p.blocks + i * p.blockSize) := by
    have hmul := Nat.mul_le_mul_right p.blockSize (Nat.succ_le_of_lt hlt)
    rw [Nat.succ_mul] at hmul
    rw [MemPool.contains_iff]
    unfold MemPool.stop
    omega
  have hindex : p.index (p.blocks + i * p.blockSize) = i := by
    unfold MemPool.index
    rw [Nat.add_sub_cancel_left, Nat.mul_div_cancel i hpos]
  refine ⟨hshape, hcontains, ⟨?_, ?_, fun b hb hc => ?_⟩, fun b hb hc => ?_⟩
  · rw [hshape.blockSize, hshape.totalCount]
    exact h.size_pos
  · rw [hshape.inUse, hshape.totalCount, MemPool.inUse_cons_of_contains hcontains, hindex]
    exact hpart.pop
  · rw [hshape.contains] at hc
    rw [hshape.blocks, hshape.blockSize]
    rcases List.mem_cons.mp hb with rfl | hb
    · refine ⟨?_, hsize⟩
      rw [Nat.add_sub_cancel_left, Nat.mul_mod_left]
    · exact h.served b hb hc
  · -- the popped slot is not in use
    have hne : i ≠ p.index b.ptr := by
      rintro rfl
      have hdisj := (List.nodup_append.mp hpart.nodup).2.2
      exact hdisj _ (List.mem_append_right _ (List.mem_singleton_self _)) _
        (PoolOk.index_mem hb hc) rfl
    exact apart_of_slots hne rfl (h.ptr_eq hb hc) hsize (h.served b hb hc).2

theorem give_eq {ptr : Nat} (howns : p.owns ptr) (hroom : p.freeCount < p.totalCount) :
    ∃ q, p.give ptr = some q ∧ q.free = p.free ++ [p.index ptr] ∧ q.SameShape p := by
  have hlt : p.freeCount < p.freeList.length := by rw [p.freeList_length]; exact hroom
  unfold MemPool.give
  rw [if_pos howns, dif_pos hroom]
  exact ⟨_, rfl, take_succ_set hlt (p.index ptr), rfl, rfl, rfl⟩

/-- **Giving a block back**: the stack has room, and the slot is free again. -/
theorem PoolOk.give (h : PoolOk p (b :: rest)) (hc : p.contains b.ptr) :
    p.freeCount < p.totalCount ∧
      ∃ q, p.give b.ptr = some q ∧ q.SameShape p ∧ PoolOk q rest := by
  have hpart := h.partition
  rw [MemPool.inUse_cons_of_contains hc] at hpart
  have hroom : p.freeCount < p.totalCount := by
    rw [← p.free_length]
    exact hpart.room List.mem_cons_self
  have howns : p.owns b.ptr := by
    rw [MemPool.owns, hc, decide_eq_true (h.served b List.mem_cons_self hc).1]
    rfl
  obtain ⟨q, hgive, hfree, hshape⟩ := give_eq howns hroom
  refine ⟨hroom, q, hgive, hshape, ?_, ?_, fun c hmem hcc => ?_⟩
  · rw [hshape.blockSize, hshape.totalCount]
    exact h.size_pos
  · rw [hshape.inUse, hshape.totalCount, hfree]
    exact hpart.push
  · rw [hshape.contains] at hcc
    rw [hshape.blocks, hshape.blockSize]
    exact h.served c (List.mem_cons_of_mem b hmem) hcc

theorem give_eq_none {ptr : Nat} (hc : ¬p.contains ptr) : p.give ptr = none := by
  rw [MemPool.give, if_neg]
  rw [MemPool.owns, Bool.and_eq_true]
  exact fun h => hc h.1

end PoolOk

/-! ## Two pools and the heap -/

/-- Two pools apart from each other and from the heap, which holds the live
blocks that are in neither. -/
structure PoolsOk (p q : MemPool) (heap live : List Block) : Prop where
  fst : PoolOk p live
  snd : PoolOk q live
  pools_apart : p.Disjoint q
  heap_live : heap.Perm (live.filter fun b => !(p.contains b.ptr || q.contains b.ptr))
  heap_apart : ∀ b ∈ heap, p.ApartFrom b ∧ q.ApartFrom b
  live_apart : live.Pairwise Block.Apart

section PoolsOk

variable {p q : MemPool} {b c : Block} {heap live rest : List Block}

theorem PoolsOk.symm (h : PoolsOk p q heap live) : PoolsOk q p heap live where
  fst := h.snd
  snd := h.fst
  pools_apart := h.pools_apart.symm
  heap_live := by
    have hheap := h.heap_live
    simp only [Bool.or_comm (p.contains _)] at hheap
    exact hheap
  heap_apart b hb := (h.heap_apart b hb).symm
  live_apart := h.live_apart

theorem PoolsOk.perm (h : PoolsOk p q heap live) (hperm : live.Perm rest) :
    PoolsOk p q heap rest where
  fst := h.fst.perm hperm
  snd := h.snd.perm hperm
  pools_apart := h.pools_apart
  heap_live := h.heap_live.trans (hperm.filter _)
  heap_apart := h.heap_apart
  live_apart := (hperm.pairwise_iff fun hbc => hbc.symm).mp h.live_apart

theorem PoolsOk.head_apart (h : PoolsOk p q heap (b :: rest)) (hc : c ∈ rest) : b.Apart c :=
  (List.pairwise_cons.mp h.live_apart).1 c hc

theorem PoolsOk.not_snd (h : PoolsOk p q heap live) {ptr : Nat} (hp : p.contains ptr) :
    ¬q.contains ptr := by
  intro hq
  have hapart := h.pools_apart
  have hpos := MemPool.totalCount_pos hp
  have hpos' := MemPool.totalCount_pos hq
  rw [MemPool.contains_iff] at hp hq
  unfold MemPool.Disjoint at hapart
  omega

theorem apart_of_within (hb : p.blocks ≤ b.ptr ∧ b.ptr + b.extent ≤ p.stop)
    (hc : p.ApartFrom c) : b.Apart c := by
  have hcontains : p.contains b.ptr := by
    rw [MemPool.contains_iff]
    unfold Block.extent at hb
    omega
  have hpos := MemPool.totalCount_pos hcontains
  unfold MemPool.ApartFrom at hc
  unfold Block.Apart
  omega

theorem PoolsOk.mem_cases (h : PoolsOk p q heap live) (hb : b ∈ live) :
    p.contains b.ptr ∨ q.contains b.ptr ∨
      (b ∈ heap ∧ ¬p.contains b.ptr ∧ ¬q.contains b.ptr) := by
  by_cases hp : p.contains b.ptr
  · exact .inl hp
  · by_cases hq : q.contains b.ptr
    · exact .inr (.inl hq)
    · have hmem := h.heap_live.symm.subset (List.mem_filter.mpr ⟨hb, by simp [hp, hq]⟩)
      exact .inr (.inr ⟨hmem, hp, hq⟩)

theorem PoolsOk.take (h : PoolsOk p q heap live) {ptr size : Nat} {p' : MemPool}
    (htake : p.take = some (ptr, p')) (hsize : (Block.mk ptr size).extent ≤ p.blockSize) :
    p'.SameShape p ∧ PoolsOk p' q heap (⟨ptr, size⟩ :: live) := by
  obtain ⟨hshape, hptr, hfst, hslots⟩ := h.fst.take htake hsize
  have hnot := h.not_snd hptr
  have hwithin := hfst.within List.mem_cons_self (by rw [hshape.contains]; exact hptr)
  rw [hshape.blocks, hshape.stop] at hwithin
  refine ⟨hshape, hfst, (PoolOk.cons_iff hnot).mpr h.snd, ?_, ?_, fun b hb => ?_,
    List.pairwise_cons.mpr ⟨fun b hb => ?_, h.live_apart⟩⟩
  · rw [hshape.disjoint]
    exact h.pools_apart
  · simp only [hshape.contains]
    rw [List.filter_cons_of_neg (by simp [hptr])]
    exact h.heap_live
  · exact ⟨(hshape.apartFrom b).mpr (h.heap_apart b hb).1, (h.heap_apart b hb).2⟩
  · rcases h.mem_cases hb with hp | hq | ⟨hheap, -, -⟩
    · exact hslots b hb hp
    · have hb' := h.snd.within hb hq
      refine apart_of_within hwithin ?_
      have hapart := h.pools_apart
      have hpos := MemPool.totalCount_pos hq
      have hpos' := MemPool.totalCount_pos hptr
      unfold MemPool.Disjoint at hapart
      unfold MemPool.ApartFrom
      omega
    · exact apart_of_within hwithin (h.heap_apart b hheap).1

theorem PoolsOk.give (h : PoolsOk p q heap (b :: rest)) (hp : p.contains b.ptr) :
    ∃ p', p.give b.ptr = some p' ∧ p'.SameShape p ∧ PoolsOk p' q heap rest := by
  obtain ⟨-, p', hgive, hshape, hfst⟩ := h.fst.give hp
  refine ⟨p', hgive, hshape, hfst, (PoolOk.cons_iff (h.not_snd hp)).mp h.snd, ?_, ?_,
    fun c hc => ?_, (List.pairwise_cons.mp h.live_apart).2⟩
  · rw [hshape.disjoint]
    exact h.pools_apart
  · have hheap := h.heap_live
    rw [List.filter_cons_of_neg (by simp [hp])] at hheap
    simp only [hshape.contains]
    exact hheap
  · exact ⟨(hshape.apartFrom c).mpr (h.heap_apart c hc).1, (h.heap_apart c hc).2⟩

theorem PoolsOk.addHeap (h : PoolsOk p q heap live) (hp : p.ApartFrom b) (hq : q.ApartFrom b)
    (hlive : ∀ c ∈ live, b.Apart c) : PoolsOk p q (b :: heap) (b :: live) where
  fst := (PoolOk.cons_iff (MemPool.not_contains_of_apart hp)).mpr h.fst
  snd := (PoolOk.cons_iff (MemPool.not_contains_of_apart hq)).mpr h.snd
  pools_apart := h.pools_apart
  heap_live := by
    rw [List.filter_cons_of_pos (by simp [MemPool.not_contains_of_apart hp,
      MemPool.not_contains_of_apart hq])]
    exact h.heap_live.cons b
  heap_apart c hc := by
    rcases List.mem_cons.mp hc with rfl | hc
    · exact ⟨hp, hq⟩
    · exact h.heap_apart c hc
  live_apart := List.pairwise_cons.mpr ⟨hlive, h.live_apart⟩

theorem PoolsOk.dropHeap (h : PoolsOk p q heap (b :: rest)) (hp : ¬p.contains b.ptr)
    (hq : ¬q.contains b.ptr) : PoolsOk p q (heap.erase b) rest where
  fst := (PoolOk.cons_iff hp).mp h.fst
  snd := (PoolOk.cons_iff hq).mp h.snd
  pools_apart := h.pools_apart
  heap_live := by
    have hheap := h.heap_live
    rw [List.filter_cons_of_pos (by simp [hp, hq])] at hheap
    have herase := hheap.erase b
    rwa [List.erase_cons_head] at herase
  heap_apart c hc := h.heap_apart c (List.mem_of_mem_erase hc)
  live_apart := (List.pairwise_cons.mp h.live_apart).2

theorem PoolsOk.heap_pairwise (h : PoolsOk p q heap live) : heap.Pairwise Block.Apart :=
  (h.heap_live.pairwise_iff fun hbc => hbc.symm).mpr (h.live_apart.filter _)

theorem PoolsOk.find_heap (h : PoolsOk p q heap live) (hb : b ∈ live) (hp : ¬p.contains b.ptr)
    (hq : ¬q.contains b.ptr) : heap.find? (·.ptr == b.ptr) = some b := by
  rcases h.mem_cases hb with hc | hc | ⟨hmem, -, -⟩
  · exact absurd hc hp
  · exact absurd hc hq
  · exact Block.find_block h.heap_pairwise hmem

end PoolsOk

/-! ## The whole state -/

structure AllocOk (m : Memory) (live : List Block) : Prop where
  pools : PoolsOk m.small m.medium m.heap live
  small_size : m.small.Sized poolSmallSize
  medium_size : m.medium.Sized poolMediumSize
  fault : m.fault = false

/-- The answers a system `malloc` or `realloc` can give: memory apart from the
pools and from the blocks that stay live. -/
def SysOk (m : Memory) (live : List Block) (size : Nat) (sys : Option Nat) : Prop :=
  ∀ ptr ∈ sys, m.small.ApartFrom ⟨ptr, size⟩ ∧ m.medium.ApartFrom ⟨ptr, size⟩ ∧
    ∀ b ∈ live, Block.Apart ⟨ptr, size⟩ b

instance (m : Memory) (live : List Block) (size : Nat) (sys : Option Nat) :
    Decidable (SysOk m live size sys) := inferInstanceAs (Decidable (∀ ptr ∈ sys, _))

theorem SysOk.none {m : Memory} {live : List Block} {size : Nat} : SysOk m live size none :=
  fun _ h => nomatch h

/-- The live blocks after an allocation of `size` bytes returned `ptr`. -/
def withNew (ptr : Option Nat) (size : Nat) (live : List Block) : List Block :=
  match ptr with
  | none => live
  | some ptr => ⟨ptr, size⟩ :: live

section AllocOk

variable {m : Memory} {b c : Block} {live rest : List Block} {sys : Option Nat} {size : Nat}

theorem AllocOk.perm (h : AllocOk m live) (hperm : live.Perm rest) : AllocOk m rest :=
  { h with pools := h.pools.perm hperm }

theorem AllocOk.bytes (h : AllocOk m live) (bytes : Nat → UInt8) :
    AllocOk { m with bytes := bytes } live := { h with }

theorem poolMalloc_ok (h : AllocOk m live) (size : Nat) :
    AllocOk (poolMalloc m size).2 (withNew (poolMalloc m size).1 size live) ∧
      ((poolMalloc m size).1 = none → (poolMalloc m size).2 = m) := by
  unfold poolMalloc
  split
  · next hsize =>
    split
    · next ptr small htake =>
      have hfits : (Block.mk ptr size).extent ≤ m.small.blockSize := by
        rw [h.small_size (take_pos htake)]
        have hle : size ≤ 256 := hsize
        show max size 1 ≤ 256
        omega
      obtain ⟨hshape, hpools⟩ := h.pools.take htake hfits
      exact ⟨⟨hpools, hshape.sized.mpr h.small_size, h.medium_size, h.fault⟩, nofun⟩
    · exact ⟨h, fun _ => rfl⟩
  · split
    · next hsize =>
      split
      · next ptr medium htake =>
        have hfits : (Block.mk ptr size).extent ≤ m.medium.blockSize := by
          rw [h.medium_size (take_pos htake)]
          have hle : size ≤ 4096 := hsize
          show max size 1 ≤ 4096
          omega
        obtain ⟨hshape, hpools⟩ := h.pools.symm.take htake hfits
        exact ⟨⟨hpools.symm, h.small_size, hshape.sized.mpr h.medium_size, h.fault⟩, nofun⟩
      · exact ⟨h, fun _ => rfl⟩
    · exact ⟨h, fun _ => rfl⟩

theorem sysMalloc_ok (h : AllocOk m live) (hsys : SysOk m live size sys) :
    AllocOk (sysMalloc sys m size).2 (withNew (sysMalloc sys m size).1 size live) := by
  cases sys with
  | none => exact h
  | some ptr =>
    obtain ⟨hsmall, hmedium, hlive⟩ := hsys ptr rfl
    exact ⟨h.pools.addHeap hsmall hmedium hlive, h.small_size, h.medium_size, h.fault⟩

theorem counted_ok {r : Option Nat × Memory} (h : AllocOk r.2 (withNew r.1 size live)) :
    AllocOk (counted size r).2 (withNew (counted size r).1 size live) := by
  rcases r with ⟨_ | ptr, m⟩
  · exact h
  · exact { h with }

theorem mecMalloc_ok (h : AllocOk m live) (hsys : SysOk m live size sys) :
    AllocOk (mecMalloc sys m size).2 (withNew (mecMalloc sys m size).1 size live) := by
  obtain ⟨hpool, hsame⟩ := poolMalloc_ok h size
  unfold mecMalloc
  refine counted_ok ?_
  split
  · next hres =>
    rw [hres] at hpool
    exact hpool
  · next hres =>
    rw [hres] at hsame
    obtain rfl := hsame rfl
    exact sysMalloc_ok h hsys

/-- **Freeing a live block** gives it back to where it came from. -/
theorem freeBlock_ok (h : AllocOk m (b :: rest)) : AllocOk (freeBlock m b.ptr) rest := by
  unfold freeBlock
  by_cases hs : m.small.contains b.ptr
  · obtain ⟨small, hgive, hshape, hpools⟩ := h.pools.give hs
    rw [hgive]
    exact ⟨hpools, hshape.sized.mpr h.small_size, h.medium_size, h.fault⟩
  · rw [give_eq_none hs]
    by_cases hm : m.medium.contains b.ptr
    · obtain ⟨medium, hgive, hshape, hpools⟩ := h.pools.symm.give hm
      rw [hgive]
      exact ⟨hpools.symm, h.small_size, hshape.sized.mpr h.medium_size, h.fault⟩
    · rw [give_eq_none hm]
      simp only [sysFree, h.pools.find_heap List.mem_cons_self hs hm]
      exact ⟨h.pools.dropHeap hs hm, h.small_size, h.medium_size, h.fault⟩

/-- The live blocks after `b` was reallocated to `size` bytes at `ptr`. -/
def withMoved (ptr : Option Nat) (size : Nat) (b : Block) (rest : List Block) : List Block :=
  match ptr with
  | none => if size = 0 then rest else b :: rest
  | some ptr => ⟨ptr, size⟩ :: rest

theorem sysRealloc_ok (h : AllocOk m (b :: rest)) (hs : ¬m.small.contains b.ptr)
    (hm : ¬m.medium.contains b.ptr) (hsys : SysOk m rest size sys) (hsize : size ≠ 0) :
    AllocOk (sysRealloc sys m b.ptr size).2
      (withMoved (sysRealloc sys m b.ptr size).1 size b rest) := by
  unfold sysRealloc
  simp only [h.pools.find_heap List.mem_cons_self hs hm]
  cases sys with
  | none =>
    show AllocOk m (if size = 0 then rest else b :: rest)
    rw [if_neg hsize]
    exact h
  | some ptr =>
    obtain ⟨hsmall, hmedium, hlive⟩ := hsys ptr rfl
    have hdrop := h.pools.dropHeap hs hm
    exact ⟨hdrop.addHeap hsmall hmedium hlive, h.small_size, h.medium_size, h.fault⟩

theorem SysOk.cons (hsys : SysOk m rest size sys) (h : AllocOk m (b :: rest))
    (hb : m.small.contains b.ptr ∨ m.medium.contains b.ptr) : SysOk m (b :: rest) size sys := by
  intro ptr hptr
  obtain ⟨hsmall, hmedium, hrest⟩ := hsys ptr hptr
  refine ⟨hsmall, hmedium, fun c hc => ?_⟩
  rcases List.mem_cons.mp hc with rfl | hc
  · rcases hb with hb | hb
    · exact (apart_of_within (h.pools.fst.within List.mem_cons_self hb) hsmall).symm
    · exact (apart_of_within (h.pools.snd.within List.mem_cons_self hb) hmedium).symm
  · exact hrest c hc

theorem PoolOk.owns_iff {p : MemPool} (h : PoolOk p live) (hb : b ∈ live) :
    p.owns b.ptr ↔ p.contains b.ptr := by
  rw [MemPool.owns, Bool.and_eq_true, decide_eq_true_iff]
  exact and_iff_left_of_imp fun hc => (h.served b hb hc).1

theorem AllocOk.owns_iff (h : AllocOk m (b :: rest)) :
    (m.small.owns b.ptr || m.medium.owns b.ptr) ↔
      m.small.contains b.ptr ∨ m.medium.contains b.ptr := by
  rw [Bool.or_eq_true, h.pools.fst.owns_iff List.mem_cons_self,
    h.pools.snd.owns_iff List.mem_cons_self]

theorem mecRealloc_ok (h : AllocOk m (b :: rest)) (hsys : SysOk m rest size sys) :
    AllocOk (mecRealloc sys m (some b.ptr) size).2
      (withMoved (mecRealloc sys m (some b.ptr) size).1 size b rest) := by
  have howns := h.owns_iff
  simp only [mecRealloc]
  by_cases hsize : size = 0
  · rw [if_pos hsize]
    show AllocOk (freeBlock m b.ptr) (if size = 0 then rest else b :: rest)
    rw [if_pos hsize]
    exact freeBlock_ok h
  · rw [if_neg hsize]
    by_cases hpool : m.small.contains b.ptr ∨ m.medium.contains b.ptr
    · rw [if_pos (howns.mpr hpool)]
      have hnew := mecMalloc_ok h (hsys.cons h hpool)
      split
      · next new m' hres =>
        rw [hres] at hnew
        have hswap := hnew.perm (List.Perm.swap b ⟨new, size⟩ rest)
        exact freeBlock_ok (hswap.bytes _)
      · next m' hres =>
        rw [hres] at hnew
        show AllocOk m' (if size = 0 then rest else b :: rest)
        rw [if_neg hsize]
        exact hnew
    · rw [if_neg (mt howns.mp hpool)]
      exact sysRealloc_ok h (fun hs => hpool (.inl hs)) (fun hm => hpool (.inr hm)) hsys hsize

end AllocOk

/-! ## Runs -/

structure AllocState where
  memory : Memory
  live : List Block

/-- The calls, with the C library's answer. -/
inductive AllocAct where
  | malloc (size : Nat) (sys : Option Nat)
  | calloc (nmemb size : Nat) (sys : Option Nat)
  | realloc (ptr : Option Nat) (size : Nat) (sys : Option Nat)
  | free (ptr : Option Nat)

/-- A call and what it returns. A pointer passed to `mec_free` or `mec_realloc`
is `NULL` or live. -/
def allocStep (s : AllocState) : AllocAct → Option (AllocState × Option Nat)
  | .malloc size sys =>
    if SysOk s.memory s.live size sys then
      let r := mecMalloc sys s.memory size
      some (⟨r.2, withNew r.1 size s.live⟩, r.1)
    else none
  | .calloc nmemb size sys =>
    let totalSize := nmemb * size % 2 ^ 64
    if SysOk s.memory s.live totalSize sys then
      let r := mecCalloc sys s.memory nmemb size
      some (⟨r.2, withNew r.1 totalSize s.live⟩, r.1)
    else none
  | .realloc none size sys =>
    if SysOk s.memory s.live size sys then
      let r := mecRealloc sys s.memory none size
      some (⟨r.2, withNew r.1 size s.live⟩, r.1)
    else none
  | .realloc (some ptr) size sys =>
    match s.live.find? (·.ptr == ptr) with
    | none => none
    | some b =>
      if SysOk s.memory (s.live.erase b) size sys then
        let r := mecRealloc sys s.memory (some ptr) size
        some (⟨r.2, withMoved r.1 size b (s.live.erase b)⟩, r.1)
      else none
  | .free none => some (⟨mecFree s.memory none, s.live⟩, none)
  | .free (some ptr) =>
    match s.live.find? (·.ptr == ptr) with
    | none => none
    | some b => some (⟨mecFree s.memory (some ptr), s.live.erase b⟩, none)

section Runs

variable {s t : AllocState} {r : Option Nat}

theorem mecCalloc_ok {m : Memory} {live : List Block} {sys : Option Nat} {nmemb size : Nat}
    (h : AllocOk m live) (hsys : SysOk m live (nmemb * size % 2 ^ 64) sys) :
    AllocOk (mecCalloc sys m nmemb size).2
      (withNew (mecCalloc sys m nmemb size).1 (nmemb * size % 2 ^ 64) live) := by
  have hnew := mecMalloc_ok h hsys
  simp only [mecCalloc]
  split
  · next hres =>
    rw [hres] at hnew
    exact hnew.bytes _
  · next hres =>
    rw [hres] at hnew
    exact hnew

theorem find_live {ptr : Nat} {b : Block} {live : List Block}
    (h : live.find? (·.ptr == ptr) = some b) : b.ptr = ptr ∧ live.Perm (b :: live.erase b) :=
  ⟨by simpa using List.find?_some h, List.perm_cons_erase (List.mem_of_find?_eq_some h)⟩

theorem allocStep_cases {a : AllocAct} (hstep : allocStep s a = some (t, r)) :
    (∃ size sys, (a = .malloc size sys ∨ a = .realloc none size sys) ∧
      SysOk s.memory s.live size sys ∧ r = (mecMalloc sys s.memory size).1 ∧
      t = ⟨(mecMalloc sys s.memory size).2, withNew (mecMalloc sys s.memory size).1 size s.live⟩) ∨
    (∃ nmemb size sys, a = .calloc nmemb size sys ∧
      SysOk s.memory s.live (nmemb * size % 2 ^ 64) sys ∧
      r = (mecCalloc sys s.memory nmemb size).1 ∧
      t = ⟨(mecCalloc sys s.memory nmemb size).2,
        withNew (mecCalloc sys s.memory nmemb size).1 (nmemb * size % 2 ^ 64) s.live⟩) ∨
    (∃ b size sys, a = .realloc (some b.ptr) size sys ∧ s.live.Perm (b :: s.live.erase b) ∧
      SysOk s.memory (s.live.erase b) size sys ∧
      r = (mecRealloc sys s.memory (some b.ptr) size).1 ∧
      t = ⟨(mecRealloc sys s.memory (some b.ptr) size).2,
        withMoved (mecRealloc sys s.memory (some b.ptr) size).1 size b (s.live.erase b)⟩) ∨
    (a = .free none ∧ r = none ∧ t = s) ∨
    (∃ b, a = .free (some b.ptr) ∧ s.live.Perm (b :: s.live.erase b) ∧ r = none ∧
      t = ⟨freeBlock s.memory b.ptr, s.live.erase b⟩) := by
  cases a with
  | malloc size sys =>
    simp only [allocStep] at hstep
    split at hstep
    · next hsys =>
      cases hstep
      exact .inl ⟨size, sys, .inl rfl, hsys, rfl, rfl⟩
    · cases hstep
  | calloc nmemb size sys =>
    simp only [allocStep] at hstep
    split at hstep
    · next hsys =>
      cases hstep
      exact .inr (.inl ⟨nmemb, size, sys, rfl, hsys, rfl, rfl⟩)
    · cases hstep
  | realloc ptr size sys =>
    cases ptr with
    | none =>
      simp only [allocStep] at hstep
      split at hstep
      · next hsys =>
        cases hstep
        exact .inl ⟨size, sys, .inr rfl, hsys, rfl, rfl⟩
      · cases hstep
    | some ptr =>
      simp only [allocStep] at hstep
      split at hstep
      · cases hstep
      · next b hfind =>
        obtain ⟨rfl, hperm⟩ := find_live hfind
        split at hstep
        · next hsys =>
          cases hstep
          exact .inr (.inr (.inl ⟨b, size, sys, rfl, hperm, hsys, rfl, rfl⟩))
        · cases hstep
  | free ptr =>
    cases ptr with
    | none =>
      cases hstep
      exact .inr (.inr (.inr (.inl ⟨rfl, rfl, rfl⟩)))
    | some ptr =>
      simp only [allocStep] at hstep
      split at hstep
      · cases hstep
      · next b hfind =>
        obtain ⟨rfl, hperm⟩ := find_live hfind
        cases hstep
        exact .inr (.inr (.inr (.inr ⟨b, rfl, hperm, rfl, rfl⟩)))

/-- **Every call keeps the invariant.** -/
theorem allocStep_ok {a : AllocAct} (h : AllocOk s.memory s.live)
    (hstep : allocStep s a = some (t, r)) : AllocOk t.memory t.live := by
  obtain ⟨size, sys, -, hsys, -, rfl⟩ | ⟨nmemb, size, sys, -, hsys, -, rfl⟩ |
    ⟨b, size, sys, -, hperm, hsys, -, rfl⟩ | ⟨-, -, rfl⟩ | ⟨b, -, hperm, -, rfl⟩ :=
      allocStep_cases hstep
  · exact mecMalloc_ok h hsys
  · exact mecCalloc_ok h hsys
  · exact mecRealloc_ok (h.perm hperm) hsys
  · exact h
  · exact freeBlock_ok (h.perm hperm)

/-- The module's state after a successful `mec_memory_init`, nothing allocated. -/
def memoryStart (smallBlocks smallList mediumBlocks mediumList : Nat) (bytes : Nat → UInt8) :
    AllocState :=
  { memory :=
      mecMemoryInit (some smallBlocks) (some smallList) (some mediumBlocks) (some mediumList) bytes
    live := [] }

theorem initPool_ok (blocks freeList : Option Nat) {count size : Nat} (hsize : 0 < size) :
    PoolOk (initPool .zero blocks freeList count size).2 [] ∧
      (initPool .zero blocks freeList count size).2.Sized size := by
  match blocks, freeList with
  | none, _ => exact ⟨⟨fun h => absurd h (Nat.lt_irrefl 0), .start 0, nofun⟩,
      fun h => absurd h (Nat.lt_irrefl 0)⟩
  | some _, none => exact ⟨⟨fun h => absurd h (Nat.lt_irrefl 0), .start 0, nofun⟩,
      fun h => absurd h (Nat.lt_irrefl 0)⟩
  | some _, some _ =>
    refine ⟨⟨fun _ => hsize, ?_, nofun⟩, fun _ => rfl⟩
    show Partition ((List.range count).take count) [] count
    rw [List.take_of_length_le (List.length_range).le]
    exact .start count

/-- `mec_memory_init` may fail for either pool. Two pools that are there do not
overlap. -/
theorem mecMemoryInit_ok {smallBlocks smallList mediumBlocks mediumList : Option Nat}
    (bytes : Nat → UInt8)
    (hapart : smallList.isSome → mediumList.isSome → ∀ a ∈ smallBlocks, ∀ b ∈ mediumBlocks,
      a + 64 * 256 ≤ b ∨ b + 32 * 4096 ≤ a) :
    AllocOk (mecMemoryInit smallBlocks smallList mediumBlocks mediumList bytes) [] where
  pools :=
    { fst := (initPool_ok smallBlocks smallList (by decide)).1
      snd := (initPool_ok mediumBlocks mediumList (by decide)).1
      pools_apart := by
        match smallBlocks, smallList, mediumBlocks, mediumList, hapart with
        | none, _, _, _, _ => exact .inl rfl
        | some _, none, _, _, _ => exact .inl rfl
        | some _, some _, none, _, _ => exact .inr (.inl rfl)
        | some _, some _, some _, none, _ => exact .inr (.inl rfl)
        | some a, some _, some b, some _, hapart => exact .inr (.inr (hapart rfl rfl a rfl b rfl))
      heap_live := .nil
      heap_apart := nofun
      live_apart := .nil }
  small_size := (initPool_ok smallBlocks smallList (by decide)).2
  medium_size := (initPool_ok mediumBlocks mediumList (by decide)).2
  fault := rfl

theorem memoryStart_ok {smallBlocks mediumBlocks : Nat} (smallList mediumList : Nat)
    (bytes : Nat → UInt8)
    (hapart : smallBlocks + 64 * 256 ≤ mediumBlocks ∨ mediumBlocks + 32 * 4096 ≤ smallBlocks) :
    AllocOk (memoryStart smallBlocks smallList mediumBlocks mediumList bytes).memory [] := by
  apply mecMemoryInit_ok bytes
  rintro - - _ ⟨⟩ _ ⟨⟩
  exact hapart

/-- **The pools never hand out a block twice.** After any run of calls on live
pointers, in either pool the free stack and the slots of the live blocks are
together every slot once; a live block of the pool starts at its slot, fits it,
and giving it back finds room; no two live blocks overlap, and `free` was never
called on anything but a heap block. -/
theorem pools_exclusive {smallBlocks mediumBlocks : Nat} (smallList mediumList : Nat)
    (bytes : Nat → UInt8)
    (hapart : smallBlocks + 64 * 256 ≤ mediumBlocks ∨ mediumBlocks + 32 * 4096 ≤ smallBlocks)
    {tr : List (AllocAct × Option Nat)}
    (h : Run allocStep (memoryStart smallBlocks smallList mediumBlocks mediumList bytes) tr s) :
    (∀ p, p = s.memory.small ∨ p = s.memory.medium →
      (p.free ++ p.inUse s.live).Nodup ∧
      (p.free ++ p.inUse s.live).Perm (List.range p.totalCount) ∧
      ∀ b ∈ s.live, p.contains b.ptr →
        b.ptr = p.blocks + p.index b.ptr * p.blockSize ∧ b.size ≤ p.blockSize ∧
        p.freeCount < p.totalCount ∧ p.give b.ptr ≠ none) ∧
      s.live.Pairwise Block.Apart ∧ s.memory.fault = false := by
  have hok : AllocOk s.memory s.live := h.invariant (I := fun s => AllocOk s.memory s.live)
    (fun _ _ _ _ hs hstep => allocStep_ok hs hstep)
    (memoryStart_ok smallList mediumList bytes hapart)
  have hpool : ∀ p, p = s.memory.small ∨ p = s.memory.medium → PoolOk p s.live := by
    rintro p (rfl | rfl)
    · exact hok.pools.fst
    · exact hok.pools.snd
  refine ⟨fun p hp => ⟨(hpool p hp).partition.nodup, (hpool p hp).partition, fun b hb hc => ?_⟩,
    hok.pools.live_apart, hok.fault⟩
  have hcons := (hpool p hp).perm (List.perm_cons_erase hb)
  obtain ⟨hroom, q, hgive, -⟩ := hcons.give hc
  have hsize := ((hpool p hp).served b hb hc).2
  refine ⟨(hpool p hp).ptr_eq hb hc, ?_, hroom, by rw [hgive]; exact Option.some_ne_none q⟩
  unfold Block.extent at hsize
  omega

def twoPools : AllocState := memoryStart 0x10000 0x8000 0x20000 0x9000 fun _ => 0

def mallocOnce : AllocState :=
  ⟨(mecMalloc none twoPools.memory 100).2, withNew (mecMalloc none twoPools.memory 100).1 100 []⟩

theorem mallocOnce_step :
    allocStep twoPools (.malloc 100 none) = some (mallocOnce, some 0x13F00) := by
  simp only [allocStep]
  exact if_pos .none

def reusedSlots : List (AllocAct × Option Nat) × AllocState :=
  play allocStep twoPools [.malloc 100 none, .malloc 3000 none, .malloc 20 none,
    .realloc (some 0x13F00) 500 none, .free (some 0x13E00), .malloc 50 none,
    .malloc 5000 (some 0x90000)]

theorem pools_exclusive_reused :
    reusedSlots.1.map Prod.snd = [some 0x13F00, some 0x3F000, some 0x13E00, some 0x3E000, none,
        some 0x13E00, some 0x90000] ∧
      (∀ p, p = reusedSlots.2.memory.small ∨ p = reusedSlots.2.memory.medium →
        (p.free ++ p.inUse reusedSlots.2.live).Nodup ∧
        (p.free ++ p.inUse reusedSlots.2.live).Perm (List.range p.totalCount)) ∧
      reusedSlots.2.live.Pairwise Block.Apart ∧ reusedSlots.2.memory.fault = false := by
  have hrun : Run allocStep twoPools reusedSlots.1 reusedSlots.2 := run_play _ _ _
  have h := pools_exclusive 0x8000 0x9000 (fun _ => 0) (by decide) hrun
  exact ⟨by decide +kernel, fun p hp => ⟨(h.1 p hp).1, (h.1 p hp).2.1⟩, h.2⟩

end Runs

end Mec
