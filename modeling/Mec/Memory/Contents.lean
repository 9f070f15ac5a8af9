import Mec.Lib.Records
import Mec.Memory.Accounting

/-!
# What is in the blocks

The contents of live blocks across the calls of the memory manager. Between the
calls memory may change in any way (`HeapAct.write`). `mec_malloc` writes its
marker into a block nobody holds, `mec_free` writes nothing, and `mec_realloc`
copies what it can know of the old size: the size of the slot.
-/

namespace Mec

open Lib.Lts Lib.Records

/-! ## `memset` and `memcpy` -/

section Copies

variable {bytes : Nat → UInt8} {dst src n i a : Nat} {ch : UInt8}

theorem memset_inside (h : i < n) : memset bytes dst ch n (dst + i) = ch :=
  if_pos ⟨Nat.le_add_right dst i, Nat.add_lt_add_left h dst⟩

theorem memset_outside (h : a < dst ∨ dst + n ≤ a) : memset bytes dst ch n a = bytes a :=
  if_neg (by omega)

theorem memcpy_inside (h : i < n) : memcpy bytes dst src n (dst + i) = bytes (src + i) := by
  unfold memcpy
  rw [if_pos ⟨Nat.le_add_right dst i, Nat.add_lt_add_left h dst⟩, Nat.add_sub_cancel_left]

theorem memcpy_outside (h : a < dst ∨ dst + n ≤ a) : memcpy bytes dst src n a = bytes a :=
  if_neg (by omega)

end Copies

/-- The bytes of the block are the same. -/
def Kept (m m' : Memory) (b : Block) : Prop := SameOn m.bytes b.ptr m'.bytes b.ptr b.size

/-- The manager has at least `size` bytes behind the pointer: a slot or a heap block. -/
def Room (m : Memory) (ptr size : Nat) : Prop :=
  m.small.owns ptr ∧ size ≤ m.small.blockSize ∨ m.medium.owns ptr ∧ size ≤ m.medium.blockSize ∨
    ∃ b ∈ m.heap, b.ptr = ptr ∧ size ≤ b.size

/-- The block was held in `m` and has been given back once in `m'`: its slot, taken
before, is on the free stack once; a heap block is gone from the heap, to
which `got` was added. -/
structure GivenBack (m m' : Memory) (b : Block) (got : List Block) : Prop where
  fault : m'.fault = false
  small : m.small.contains b.ptr → m.small.free.count (m.small.index b.ptr) = 0 ∧
    m'.small.free.count (m.small.index b.ptr) = 1
  medium : m.medium.contains b.ptr → m.medium.free.count (m.medium.index b.ptr) = 0 ∧
    m'.medium.free.count (m.medium.index b.ptr) = 1
  heap : ¬ Pooled m b.ptr → ∃ rest, b ∉ rest ∧ m.heap.Perm (b :: rest) ∧
    m'.heap.Perm (got ++ rest)

section Calls

variable {m : Memory} {b c : Block} {live rest : List Block} {sys : Option Nat} {size n : Nat}

theorem Block.Apart.outside (h : b.Apart c) {i : Nat} (hi : i < c.size) :
    c.ptr + i < b.ptr ∨ b.ptr + b.size ≤ c.ptr + i := by
  unfold Block.Apart Block.extent at h
  omega

theorem AllocOk.room (h : AllocOk m live) (hb : b ∈ live) : Room m b.ptr b.size := by
  have hle : b.size ≤ b.extent := Nat.le_max_left _ _
  rcases h.pools.mem_cases hb with hs | hm | ⟨hheap, -, -⟩
  · exact .inl ⟨(h.pools.fst.owns_iff hb).mpr hs, hle.trans (h.pools.fst.served b hb hs).2⟩
  · exact .inr (.inl ⟨(h.pools.snd.owns_iff hb).mpr hm, hle.trans (h.pools.snd.served b hb hm).2⟩)
  · exact .inr (.inr ⟨b, hheap, rfl, Nat.le_refl _⟩)

/-! ### `mec_malloc` -/

/-- A slot just taken overlaps no live block, nor does the marker in it. -/
theorem marker_kept {p q p' : MemPool} {heap : List Block} {ptr : Nat}
    (h : PoolsOk p q heap live) (htake : p.take = some (ptr, p')) (hsize : 4 ≤ p.blockSize)
    (bytes : Nat → UInt8) (hb : b ∈ live) :
    SameOn bytes b.ptr (memset bytes ptr 0xFF 4) b.ptr b.size := by
  have hmark : (Block.mk ptr 4).extent ≤ p.blockSize := hsize
  obtain ⟨-, hpools⟩ := h.take htake hmark
  exact fun i hi => memset_outside ((hpools.head_apart hb).outside hi)

theorem poolMalloc_kept (h : AllocOk m live) (size : Nat) (hb : b ∈ live) :
    Kept m (poolMalloc m size).2 b := by
  unfold poolMalloc
  split
  · split
    · next ptr small htake =>
      refine marker_kept h.pools htake ?_ m.bytes hb
      rw [h.small_size (take_pos htake)]
      decide
    · exact .refl
  · split
    · split
      · next ptr medium htake =>
        refine marker_kept h.pools.symm htake ?_ m.bytes hb
        rw [h.medium_size (take_pos htake)]
        decide
      · exact .refl
    · exact .refl

/-- **`mec_malloc`** leaves the live blocks alone. -/
theorem mecMalloc_kept (h : AllocOk m live) (sys : Option Nat) (size : Nat) (hb : b ∈ live) :
    Kept m (mecMalloc sys m size).2 b := by
  have hpool := poolMalloc_kept h size hb
  have hsame := (poolMalloc_ok h size).2
  unfold mecMalloc
  generalize poolMalloc m size = r at hpool hsame
  obtain ⟨_ | ptr, m'⟩ := r
  · obtain rfl := hsame rfl
    cases sys <;> exact .refl
  · exact hpool

/-! ### `mec_free` -/

theorem MemPool.SameShape.index {p q : MemPool} (h : q.SameShape p) (ptr : Nat) :
    q.index ptr = p.index ptr := by
  rw [MemPool.index, MemPool.index, h.blocks, h.blockSize]

@[simp] theorem freeBlock_bytes (m : Memory) (ptr : Nat) : (freeBlock m ptr).bytes = m.bytes := by
  unfold freeBlock sysFree
  split
  · rfl
  · split
    · rfl
    · split <;> rfl

theorem PoolOk.give_count {p q : MemPool} (h : PoolOk p (b :: rest)) (hc : p.contains b.ptr)
    (hgive : p.give b.ptr = some q) :
    p.free.count (p.index b.ptr) = 0 ∧ q.free.count (p.index b.ptr) = 1 := by
  have hnot : p.index b.ptr ∉ p.free := fun hmem =>
    (List.nodup_append.mp h.partition.nodup).2.2 _ hmem _
      (PoolOk.index_mem List.mem_cons_self hc) rfl
  have howns := (h.owns_iff List.mem_cons_self).mpr hc
  obtain ⟨q', hgive', hfree, -⟩ := give_eq howns (h.give hc).1
  obtain rfl : q' = q := Option.some.inj (hgive'.symm.trans hgive)
  have hzero := List.count_eq_zero_of_not_mem hnot
  refine ⟨hzero, ?_⟩
  rw [hfree, List.count_append, hzero, List.count_singleton_self]

theorem PoolsOk.heap_perm {p q : MemPool} {heap : List Block} (h : PoolsOk p q heap (b :: rest))
    (hp : ¬ p.contains b.ptr) (hq : ¬ q.contains b.ptr) :
    b ∉ heap.erase b ∧ heap.Perm (b :: heap.erase b) := by
  have hmem : b ∈ heap := by
    rcases h.mem_cases List.mem_cons_self with hc | hc | ⟨hmem, -, -⟩
    · exact absurd hc hp
    · exact absurd hc hq
    · exact hmem
  have hperm := List.perm_cons_erase hmem
  refine ⟨fun hagain => ?_, hperm⟩
  -- a block is not apart from itself
  have hself := (List.pairwise_cons.mp
    ((hperm.pairwise_iff fun hbc => hbc.symm).mp h.heap_pairwise)).1 b hagain
  exact hself.ptr_ne rfl

/-- **`mec_free`** gives a live block back once. -/
theorem freeBlock_givenBack (h : AllocOk m (b :: rest)) :
    GivenBack m (freeBlock m b.ptr) b [] := by
  have hfault := (freeBlock_ok h).fault
  unfold freeBlock at hfault ⊢
  by_cases hs : m.small.contains b.ptr
  · obtain ⟨-, small, hgive, -⟩ := h.pools.fst.give hs
    rw [hgive] at hfault ⊢
    exact ⟨hfault, fun hc => h.pools.fst.give_count hc hgive,
      fun hm => absurd hm (h.pools.not_snd hs), fun hno => absurd (.inl hs) hno⟩
  · rw [give_eq_none hs] at hfault ⊢
    by_cases hm : m.medium.contains b.ptr
    · obtain ⟨-, medium, hgive, -⟩ := h.pools.snd.give hm
      rw [hgive] at hfault ⊢
      exact ⟨hfault, fun hc => absurd hc hs, fun hc => h.pools.snd.give_count hc hgive,
        fun hno => absurd (.inr hm) hno⟩
    · obtain ⟨hnot, hperm⟩ := h.pools.heap_perm hs hm
      rw [give_eq_none hm] at hfault ⊢
      simp only [sysFree, h.pools.find_heap List.mem_cons_self hs hm] at hfault ⊢
      exact ⟨hfault, fun hc => absurd hc hs, fun hc => absurd hc hm,
        fun _ => ⟨_, hnot, hperm, .refl _⟩⟩

/-! ### `mec_realloc` -/

theorem copySize_le (m : Memory) (ptr size : Nat) : copySize m ptr size ≤ size := by
  unfold copySize
  split
  · exact Nat.min_le_left _ _
  · split
    · exact Nat.min_le_left _ _
    · exact Nat.le_refl _

theorem le_copySize (h : AllocOk m live) (hb : b ∈ live) (hpool : Pooled m b.ptr) :
    min b.size n ≤ copySize m b.ptr n := by
  have hle : b.size ≤ b.extent := Nat.le_max_left _ _
  unfold copySize
  by_cases hs : m.small.contains b.ptr
  · have hserved := (h.pools.fst.served b hb hs).2
    rw [if_pos hs]
    omega
  · have hm := hpool.resolve_left hs
    have hserved := (h.pools.snd.served b hb hm).2
    rw [if_neg hs, if_pos (MemPool.contains_iff.mp hm).1]
    omega

/-- A successful reallocation of `b` to `size` bytes at `new`. -/
structure MovedTo (m m' : Memory) (b : Block) (rest : List Block) (new : Block) : Prop where
  ok : AllocOk m' (new :: rest)
  copied : SameOn m.bytes b.ptr m'.bytes new.ptr (min b.size new.size)
  others : ∀ c ∈ rest, Kept m m' c
  givenBack : GivenBack m m' b [new]

/-- The copy goes to the new block only. -/
theorem memcpy_kept {new : Block} {src k : Nat} (bytes : Nat → UInt8) (hnew : new.Apart c)
    (hk : k ≤ new.size) :
    SameOn bytes c.ptr (memcpy bytes new.ptr src k) c.ptr c.size := fun i hi => by
  have hout := hnew.outside hi
  exact memcpy_outside (by omega)

theorem moved_of_malloc {ptr : Nat} {m₁ : Memory} (h : AllocOk m (b :: rest))
    (hpool : Pooled m b.ptr) (hmalloc : mecMalloc sys m n = (some ptr, m₁))
    (h₁ : AllocOk m₁ (⟨ptr, n⟩ :: b :: rest)) (hsmall : m₁.small.SameShape m.small)
    (hmedium : m₁.medium.SameShape m.medium) :
    MovedTo m
      (freeBlock { m₁ with bytes := memcpy m₁.bytes ptr b.ptr (copySize m₁ b.ptr n) } b.ptr)
      b rest ⟨ptr, n⟩ := by
  have hpool₁ : Pooled m₁ b.ptr := by
    unfold Pooled
    rw [hsmall.contains, hmedium.contains]
    exact hpool
  have hkept : ∀ c ∈ b :: rest, Kept m m₁ c := fun c hc => by
    have hc' := mecMalloc_kept h sys n hc
    rwa [hmalloc] at hc'
  have hcopied : AllocOk { m₁ with bytes := memcpy m₁.bytes ptr b.ptr (copySize m₁ b.ptr n) }
      (b :: ⟨ptr, n⟩ :: rest) := (h₁.perm (.swap _ _ _)).bytes _
  have hback := freeBlock_givenBack hcopied
  refine ⟨freeBlock_ok hcopied, fun i hi => ?_, fun c hc => ?_, hback.fault, fun hs => ?_,
    fun hm => ?_, fun hno => absurd hpool hno⟩
  · have hlt : i < copySize m₁ b.ptr n :=
      hi.trans_le (le_copySize h₁ (List.mem_cons_of_mem _ List.mem_cons_self) hpool₁)
    rw [freeBlock_bytes]
    exact (memcpy_inside hlt).trans
      (hkept b List.mem_cons_self i (hi.trans_le (Nat.min_le_left _ _)))
  · have hapart := h₁.pools.head_apart (List.mem_cons_of_mem b hc)
    have hmalloc := hkept c (List.mem_cons_of_mem b hc)
    unfold Kept
    rw [freeBlock_bytes]
    exact hmalloc.trans (memcpy_kept m₁.bytes hapart (copySize_le m₁ b.ptr n))
  · obtain ⟨-, small, hgive, -⟩ := h.pools.fst.give hs
    refine ⟨(h.pools.fst.give_count hs hgive).1, ?_⟩
    have hcount := (hback.small (by rw [hsmall.contains]; exact hs)).2
    rwa [show m₁.small.index b.ptr = m.small.index b.ptr from hsmall.index b.ptr] at hcount
  · obtain ⟨-, medium, hgive, -⟩ := h.pools.snd.give hm
    refine ⟨(h.pools.snd.give_count hm hgive).1, ?_⟩
    have hcount := (hback.medium (by rw [hmedium.contains]; exact hm)).2
    rwa [show m₁.medium.index b.ptr = m.medium.index b.ptr from hmedium.index b.ptr]
      at hcount

theorem moved_of_sysRealloc {ptr : Nat} (h : AllocOk m (b :: rest)) (hpool : ¬ Pooled m b.ptr)
    (hsys : SysOk m rest n (some ptr)) (hn : n ≠ 0) :
    ∃ m', sysRealloc (some ptr) m b.ptr n = (some ptr, m') ∧ MovedTo m m' b rest ⟨ptr, n⟩ := by
  have hs : ¬ m.small.contains b.ptr := fun hs => hpool (.inl hs)
  have hm : ¬ m.medium.contains b.ptr := fun hm => hpool (.inr hm)
  have hok := sysRealloc_ok h hs hm hsys hn
  have hperm := h.pools.heap_perm hs hm
  simp only [sysRealloc, h.pools.find_heap List.mem_cons_self hs hm] at hok ⊢
  refine ⟨_, rfl, hok, fun i hi => memcpy_inside hi, fun c hc => ?_, hok.fault,
    fun hc => absurd hc hs, fun hc => absurd hc hm, fun _ => ⟨_, hperm.1, hperm.2, .refl _⟩⟩
  obtain ⟨-, -, hlive⟩ := hsys ptr rfl
  exact memcpy_kept m.bytes (hlive c hc) (Nat.min_le_right _ _)

/-- **`mec_realloc`** of a live block to a positive size fails and changes nothing,
or moves the block. -/
theorem mecRealloc_moved (h : AllocOk m (b :: rest)) (hsys : SysOk m rest n sys) (hn : n ≠ 0) :
    mecRealloc sys m (some b.ptr) n = (none, m) ∨
      ∃ ptr m', mecRealloc sys m (some b.ptr) n = (some ptr, m') ∧
        MovedTo m m' b rest ⟨ptr, n⟩ := by
  by_cases hpool : Pooled m b.ptr
  · have howns := h.owns_iff.mpr hpool
    have hnew := mecMalloc_ok h (hsys.cons h hpool)
    simp only [mecRealloc]
    rw [if_neg hn, if_pos howns]
    rcases mecMalloc_cases sys m n with ⟨ptr, n₁, hres, hsame, -⟩ | ⟨hres, -⟩
    · rw [hres] at hnew ⊢
      exact .inr ⟨ptr, _, rfl, moved_of_malloc h hpool hres hnew hsame.small hsame.medium⟩
    · rw [hres]
      exact .inl rfl
  · obtain ⟨hres, hnone, -⟩ := @mecRealloc_heap _ _ sys _ _ h hn hpool
    rw [hres]
    cases sys with
    | none => exact .inl hnone
    | some ptr =>
      obtain ⟨m', hnew, hmoved⟩ := moved_of_sysRealloc h hpool hsys hn
      exact .inr ⟨ptr, m', hnew, hmoved⟩

end Calls

/-! ## Runs -/

/-- A call, or anything else that writes to memory. -/
inductive HeapAct where
  | call (a : AllocAct)
  | write (bytes : Nat → UInt8)

def heapStep (s : AllocState) : HeapAct → Option (AllocState × Option Nat)
  | .call a => allocStep s a
  | .write bytes => some (⟨{ s.memory with bytes }, s.live⟩, none)

/-- A state some run after `mec_memory_init` reaches. The pools the C library gives
it do not overlap. -/
def Reachable (s : AllocState) : Prop :=
  ∃ (smallBlocks smallList mediumBlocks mediumList : Option Nat) (bytes : Nat → UInt8)
    (tr : List (HeapAct × Option Nat)),
    (smallList.isSome → mediumList.isSome → ∀ a ∈ smallBlocks, ∀ b ∈ mediumBlocks,
      a + 64 * 256 ≤ b ∨ b + 32 * 4096 ≤ a) ∧
    Run heapStep ⟨mecMemoryInit smallBlocks smallList mediumBlocks mediumList bytes, []⟩ tr s

section Runs

variable {s t : AllocState} {r : Option Nat} {b : Block} {sys : Option Nat}

theorem heapStep_ok {a : HeapAct} (h : AllocOk s.memory s.live)
    (hstep : heapStep s a = some (t, r)) : AllocOk t.memory t.live := by
  cases a with
  | call a => exact allocStep_ok h hstep
  | write bytes =>
    cases hstep
    exact h.bytes bytes

theorem Reachable.ok (h : Reachable s) : AllocOk s.memory s.live := by
  obtain ⟨smallBlocks, smallList, mediumBlocks, mediumList, bytes, tr, hapart, hrun⟩ := h
  exact hrun.invariant (I := fun s => AllocOk s.memory s.live)
    (fun _ _ _ _ hs hstep => heapStep_ok hs hstep) (mecMemoryInit_ok bytes hapart)

theorem Reachable.step {a : HeapAct} (h : Reachable s) (hstep : heapStep s a = some (t, r)) :
    Reachable t := by
  obtain ⟨smallBlocks, smallList, mediumBlocks, mediumList, bytes, tr, hapart, hrun⟩ := h
  exact ⟨smallBlocks, smallList, mediumBlocks, mediumList, bytes, _, hapart, hrun.snoc hstep⟩

/-- The pointer a call gives away. -/
def AllocAct.target : AllocAct → Option Nat
  | .malloc .. | .calloc .. => none
  | .realloc ptr .. | .free ptr => ptr

theorem mem_erase_of_ptr {c : Block} {live : List Block} (hb : b ∈ live) (hne : c.ptr ≠ b.ptr) :
    b ∈ live.erase c := by
  refine (List.mem_erase_of_ne ?_).mpr hb
  rintro rfl
  exact hne rfl

/-- **Frame.** A live block that a call is not about stays live, with its bytes. -/
theorem allocStep_kept {a : AllocAct} (h : AllocOk s.memory s.live)
    (hstep : allocStep s a = some (t, r)) (hb : b ∈ s.live) (ha : a.target ≠ some b.ptr) :
    b ∈ t.live ∧ Kept s.memory t.memory b := by
  have hnew : ∀ ptr size, b ∈ withNew ptr size s.live := fun ptr size => by
    cases ptr with
    | none => exact hb
    | some ptr => exact List.mem_cons_of_mem _ hb
  obtain ⟨size, sys, -, -, -, rfl⟩ | ⟨nmemb, size, sys, -, hsys, -, rfl⟩ |
    ⟨c, size, sys, rfl, hperm, hsys, -, rfl⟩ | ⟨-, -, rfl⟩ | ⟨c, rfl, hperm, -, rfl⟩ :=
      allocStep_cases hstep
  · exact ⟨hnew _ _, mecMalloc_kept h sys size hb⟩
  · refine ⟨hnew _ _, ?_⟩
    have hkept := mecMalloc_kept h sys (nmemb * size % 2 ^ 64) hb
    have hok := mecMalloc_ok h hsys
    simp only [mecCalloc]
    generalize mecMalloc sys s.memory (nmemb * size % 2 ^ 64) = res at hkept hok ⊢
    obtain ⟨_ | ptr, m⟩ := res
    · exact hkept
    · have hapart := hok.pools.head_apart hb
      exact hkept.trans fun i hi => memset_outside (hapart.outside hi)
  · have hne : c.ptr ≠ b.ptr := fun heq => ha (congrArg some heq)
    have hrest := mem_erase_of_ptr hb hne
    by_cases hsize : size = 0
    · subst hsize
      exact ⟨hrest, by unfold Kept; simp only [mecRealloc, if_true, freeBlock_bytes]; exact .refl⟩
    · rcases mecRealloc_moved (h.perm hperm) hsys hsize with hres | ⟨ptr, m', hres, hmoved⟩
      · rw [hres]
        exact ⟨by rw [withMoved, if_neg hsize]; exact List.mem_cons_of_mem _ hrest, .refl⟩
      · rw [hres]
        exact ⟨List.mem_cons_of_mem _ hrest, hmoved.others b hrest⟩
  · exact ⟨hb, .refl⟩
  · have hne : c.ptr ≠ b.ptr := fun heq => ha (congrArg some heq)
    exact ⟨mem_erase_of_ptr hb hne, by unfold Kept; rw [freeBlock_bytes]; exact .refl⟩

theorem AllocOk.find {m : Memory} {live : List Block} (h : AllocOk m live) (hb : b ∈ live) :
    live.find? (·.ptr == b.ptr) = some b := Block.find_block h.pools.live_apart hb

theorem realloc_step {n : Nat} (hok : AllocOk s.memory s.live) (hb : b ∈ s.live)
    (hstep : heapStep s (.call (.realloc (some b.ptr) n sys)) = some (t, r)) :
    SysOk s.memory (s.live.erase b) n sys ∧
      r = (mecRealloc sys s.memory (some b.ptr) n).1 ∧
      t = ⟨(mecRealloc sys s.memory (some b.ptr) n).2,
        withMoved (mecRealloc sys s.memory (some b.ptr) n).1 n b (s.live.erase b)⟩ := by
  simp only [heapStep, allocStep, hok.find hb] at hstep
  split at hstep
  · next hsys =>
    cases hstep
    exact ⟨hsys, rfl, rfl⟩
  · cases hstep

/-- **`mec_realloc` preserves contents and never loses the block.** In every
reachable state, of every live block, asked for at `b.size` bytes: the call fails
and changes nothing, or the new block is live with room for `n` bytes, holds what
both sizes have in common, the old one has been given back once, and the
other blocks hold what they held. -/
theorem mecRealloc_contents (h : Reachable s) (hb : b ∈ s.live) {n : Nat} (hn : 0 < n)
    (hstep : heapStep s (.call (.realloc (some b.ptr) n sys)) = some (t, r)) :
    (r = none ∧ t.memory = s.memory ∧ t.live.Perm s.live) ∨
      ∃ ptr, r = some ptr ∧ t.live = ⟨ptr, n⟩ :: s.live.erase b ∧ AllocOk t.memory t.live ∧
        Room t.memory ptr n ∧
        (∀ i < min b.size n, t.memory.bytes (ptr + i) = s.memory.bytes (b.ptr + i)) ∧
        GivenBack s.memory t.memory b [⟨ptr, n⟩] ∧
        ∀ c ∈ s.live.erase b, ∀ i < c.size,
          t.memory.bytes (c.ptr + i) = s.memory.bytes (c.ptr + i) := by
  have hperm := List.perm_cons_erase hb
  obtain ⟨hsys, rfl, rfl⟩ := realloc_step h.ok hb hstep
  rcases mecRealloc_moved (h.ok.perm hperm) hsys (Nat.pos_iff_ne_zero.mp hn) with
    hres | ⟨ptr, m', hres, hmoved⟩
  · have hkeep : withMoved none n b (s.live.erase b) = b :: s.live.erase b :=
      if_neg (Nat.pos_iff_ne_zero.mp hn)
    rw [hres, hkeep]
    exact .inl ⟨rfl, rfl, hperm.symm⟩
  · rw [hres]
    exact .inr ⟨ptr, rfl, rfl, hmoved.ok, hmoved.ok.room List.mem_cons_self, hmoved.copied,
      hmoved.givenBack, hmoved.others⟩

theorem reachable_twoPools : Reachable twoPools :=
  ⟨some 0x10000, some 0x8000, some 0x20000, some 0x9000, fun _ => 0, [],
    fun _ _ => by decide, .nil _⟩

theorem reachable_mallocOnce : Reachable mallocOnce :=
  reachable_twoPools.step (a := .call (.malloc 100 none)) mallocOnce_step

/-- A block of the small pool moves to the medium one. -/
theorem mecRealloc_contents_grown : ∃ t, heapStep mallocOnce
      (.call (.realloc (some 0x13F00) 300 none)) = some (t, some 0x3F000) ∧
    Room t.memory 0x3F000 300 ∧
    GivenBack mallocOnce.memory t.memory ⟨0x13F00, 100⟩ [⟨0x3F000, 300⟩] := by
  have hmem : (⟨0x13F00, 100⟩ : Block) ∈ mallocOnce.live := List.mem_singleton_self _
  have hstep : heapStep mallocOnce (.call (.realloc (some 0x13F00) 300 none)) =
      some (⟨(mecRealloc none mallocOnce.memory (some 0x13F00) 300).2, [⟨0x3F000, 300⟩]⟩,
        some 0x3F000) := by
    have hfind := reachable_mallocOnce.ok.find hmem
    simp only [heapStep, allocStep, hfind]
    exact if_pos .none
  refine ⟨_, hstep, ?_⟩
  rcases mecRealloc_contents reachable_mallocOnce hmem (by decide) hstep with ⟨hnone, -⟩ |
    ⟨ptr, hptr, -, -, hroom, -, hback, -⟩
  · cases hnone
  · cases hptr
    exact ⟨hroom, hback⟩

/-! ### `mec_calloc` -/

theorem AllocOk.room_lt {m : Memory} {live : List Block} (h : AllocOk m live) (hb : b ∈ live)
    (hlt : b.size < 2 ^ 64) {size : Nat} (hroom : Room m b.ptr size) : size < 2 ^ 64 := by
  rcases hroom with ⟨howns, hle⟩ | ⟨howns, hle⟩ | ⟨c, hc, hptr, hle⟩
  · have hpos := MemPool.totalCount_pos (Bool.and_eq_true _ _ ▸ howns).1
    rw [h.small_size hpos] at hle
    exact hle.trans_lt (by decide)
  · have hpos := MemPool.totalCount_pos (Bool.and_eq_true _ _ ▸ howns).1
    rw [h.medium_size hpos] at hle
    exact hle.trans_lt (by decide)
  · have hlive : c ∈ live := (List.mem_filter.mp (h.pools.heap_live.subset hc)).1
    have hfind := h.find hlive
    rw [hptr, h.find hb] at hfind
    cases hfind
    omega

/-- **`mec_calloc` returns enough memory**, all of it zero, exactly when the product
fits a `size_t`. -/
theorem mecCalloc_enough (h : Reachable s) {nmemb size ptr : Nat}
    (hstep : heapStep s (.call (.calloc nmemb size sys)) = some (t, some ptr)) :
    (Room t.memory ptr (nmemb * size) ∧
      ∀ i < nmemb * size, t.memory.bytes (ptr + i) = 0) ↔ nmemb * size < 2 ^ 64 := by
  have hok := heapStep_ok h.ok hstep
  simp only [heapStep, allocStep] at hstep
  split at hstep
  · obtain ⟨rfl, hptr⟩ := Prod.mk.inj (Option.some.inj hstep)
    simp only [mecCalloc] at hok hptr ⊢
    generalize hm : mecMalloc sys s.memory (nmemb * size % 2 ^ 64) = res at hok hptr ⊢
    obtain ⟨_ | new, m⟩ := res
    · cases hptr
    · cases hptr
      have hb : (⟨ptr, nmemb * size % 2 ^ 64⟩ : Block) ∈
          withNew (some ptr) (nmemb * size % 2 ^ 64) s.live := List.mem_cons_self
      constructor
      · rintro ⟨hroom, -⟩
        exact hok.room_lt hb (Nat.mod_lt _ (by decide)) hroom
      · intro hlt
        have hroom := hok.room hb
        have hbytes : ∀ i < nmemb * size % 2 ^ 64,
            memset m.bytes ptr 0 (nmemb * size % 2 ^ 64) (ptr + i) = 0 := fun i hi =>
          memset_inside hi
        refine ⟨?_, fun i hi => hbytes i ?_⟩
        · rwa [Nat.mod_eq_of_lt hlt] at hroom
        · rwa [Nat.mod_eq_of_lt hlt]
  · cases hstep

theorem mecCalloc_enough_small : ∃ t, heapStep twoPools (.call (.calloc 10 10 none)) =
      some (t, some 0x13F00) ∧ Room t.memory 0x13F00 100 := by
  have hstep : heapStep twoPools (.call (.calloc 10 10 none)) =
      some (⟨(mecCalloc none twoPools.memory 10 10).2, [⟨0x13F00, 100⟩]⟩, some 0x13F00) := by
    simp only [heapStep, allocStep]
    exact if_pos .none
  exact ⟨_, hstep, ((mecCalloc_enough reachable_twoPools hstep).mpr (by decide)).1⟩

/-- The product of `2 ^ 32` and `2 ^ 32` is 0 as a `size_t`, and the block a slot of
256 bytes. -/
theorem calloc_wraps : ∃ t, Reachable twoPools ∧
    heapStep twoPools (.call (.calloc (2 ^ 32) (2 ^ 32) none)) = some (t, some 0x13F00) ∧
      ¬ Room t.memory 0x13F00 (2 ^ 32 * 2 ^ 32) := by
  refine ⟨⟨(mecCalloc none twoPools.memory (2 ^ 32) (2 ^ 32)).2, [⟨0x13F00, 0⟩]⟩,
    reachable_twoPools, ?_, ?_⟩
  · simp only [heapStep, allocStep]
    exact if_pos .none
  · rintro (⟨-, hle⟩ | ⟨-, hle⟩ | ⟨b, hb, -⟩)
    · exact absurd hle (by decide)
    · exact absurd hle (by decide)
    · cases hb

end Runs

end Mec
