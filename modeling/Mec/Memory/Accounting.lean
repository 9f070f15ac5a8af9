import Mathlib.Algebra.Order.Group.Nat
import Mathlib.Logic.Function.Basic
import Mec.Memory.Pools

/-!
# The statistics of the memory manager

`current_allocated` should be the sum of the sizes that were asked for the live
blocks, `peak_allocated` the greatest such sum so far. An allocation adds the
size that was asked, giving a block back subtracts the size of its slot or
nothing, and `realloc` of a heap block does neither. A run is extended by what
was asked for each live block (`LedgerState`); `exact_step` says of every call
when the two numbers stay right.
-/

namespace Mec

open Lib.Lts

def mecMemoryGetUsed (m : Memory) : BitVec 64 := m.currentAllocated

def mecMemoryGetPeakUsage (m : Memory) : BitVec 64 := m.peakAllocated

/-! ## What a call does to the counters -/

/-- An allocation of `size` bytes succeeds: a block of the right pool is free, or
the C library has memory. -/
def Served (m : Memory) (size : Nat) (sys : Option Nat) : Prop :=
  size ≤ poolSmallSize ∧ 0 < m.small.freeCount ∨
    poolSmallSize < size ∧ size ≤ poolMediumSize ∧ 0 < m.medium.freeCount ∨ sys.isSome

instance (m : Memory) (size : Nat) (sys : Option Nat) : Decidable (Served m size sys) :=
  inferInstanceAs (Decidable (_ ∨ _))

/-- What giving a block back subtracts: the size of its slot, and nothing for a
heap block. -/
def released (m : Memory) (ptr : Nat) : Nat :=
  if m.small.contains ptr then poolSmallSize
  else if m.medium.contains ptr then poolMediumSize
  else 0

theorem released_lt (m : Memory) (ptr : Nat) : released m ptr < 2 ^ 64 := by
  unfold released poolSmallSize poolMediumSize
  split
  · decide
  · split <;> decide

/-- The pointer is inside a pool. -/
def Pooled (m : Memory) (ptr : Nat) : Prop := m.small.contains ptr ∨ m.medium.contains ptr

instance (m : Memory) (ptr : Nat) : Decidable (Pooled m ptr) := inferInstanceAs (Decidable (_ ∨ _))

theorem released_pos {m : Memory} {ptr : Nat} (h : Pooled m ptr) : 0 < released m ptr := by
  unfold released
  split
  · decide
  · next hs =>
    rw [if_pos (h.resolve_left hs)]
    decide

/-- The same pools, perhaps with other blocks free, and the same counters. -/
structure SameCounters (n m : Memory) : Prop where
  small : n.small.SameShape m.small
  medium : n.medium.SameShape m.medium
  current : n.currentAllocated = m.currentAllocated
  peak : n.peakAllocated = m.peakAllocated

section Counters

variable {m : Memory} {b : Block} {rest : List Block} {sys : Option Nat} {size : Nat}

theorem take_cases (p : MemPool) :
    (∃ ptr q, p.take = some (ptr, q) ∧ q.SameShape p ∧ 0 < p.freeCount) ∨
      p.take = none ∧ p.freeCount = 0 := by
  cases htake : p.take with
  | none =>
    unfold MemPool.take at htake
    split at htake
    · cases htake
    · exact .inr ⟨rfl, by omega⟩
  | some r =>
    obtain ⟨-, -, -, hshape⟩ := take_eq htake
    unfold MemPool.take at htake
    split at htake
    · next hpos => exact .inl ⟨r.1, r.2, rfl, hshape, hpos⟩
    · cases htake

theorem served_none : Served m size none ↔ size ≤ poolSmallSize ∧ 0 < m.small.freeCount ∨
    poolSmallSize < size ∧ size ≤ poolMediumSize ∧ 0 < m.medium.freeCount := by
  unfold Served
  simp only [Option.isSome_none, Bool.false_eq_true, or_false]

theorem poolMalloc_cases (m : Memory) (size : Nat) :
    (∃ ptr, (poolMalloc m size).1 = some ptr ∧ SameCounters (poolMalloc m size).2 m ∧
      Served m size none) ∨
    poolMalloc m size = (none, m) ∧ ¬ Served m size none := by
  rw [served_none]
  unfold poolMalloc
  by_cases hsmall : size ≤ poolSmallSize
  · rw [if_pos hsmall]
    rcases take_cases m.small with ⟨ptr, small, htake, hshape, hpos⟩ | ⟨htake, hzero⟩
    · rw [htake]
      exact .inl ⟨ptr, rfl, ⟨hshape, ⟨rfl, rfl, rfl⟩, rfl, rfl⟩, .inl ⟨hsmall, hpos⟩⟩
    · rw [htake]
      exact .inr ⟨rfl, by omega⟩
  · rw [if_neg hsmall]
    by_cases hmedium : size ≤ poolMediumSize
    · rw [if_pos hmedium]
      rcases take_cases m.medium with ⟨ptr, medium, htake, hshape, hpos⟩ | ⟨htake, hzero⟩
      · rw [htake]
        exact .inl ⟨ptr, rfl, ⟨⟨rfl, rfl, rfl⟩, hshape, rfl, rfl⟩,
          .inr ⟨by omega, hmedium, hpos⟩⟩
      · rw [htake]
        exact .inr ⟨rfl, by omega⟩
    · rw [if_neg hmedium]
      exact .inr ⟨rfl, by omega⟩

theorem mecMalloc_cases (sys : Option Nat) (m : Memory) (size : Nat) :
    (∃ ptr n, mecMalloc sys m size = (some ptr, n.count size) ∧ SameCounters n m ∧
      Served m size sys) ∨
    mecMalloc sys m size = (none, m) ∧ ¬ Served m size sys := by
  unfold mecMalloc
  rcases poolMalloc_cases m size with ⟨ptr, hptr, hsame, hserved⟩ | ⟨hfail, hno⟩
  · refine .inl ⟨ptr, (poolMalloc m size).2, ?_, hsame, ?_⟩
    · generalize poolMalloc m size = r at hptr
      obtain ⟨r, n⟩ := r
      obtain rfl : r = some ptr := hptr
      rfl
    · rcases hserved with h | h | h
      · exact .inl h
      · exact .inr (.inl h)
      · cases h
  · rw [hfail]
    cases sys with
    | none => exact .inr ⟨rfl, hno⟩
    | some ptr =>
      exact .inl ⟨ptr, { m with heap := ⟨ptr, size⟩ :: m.heap }, rfl,
        ⟨⟨rfl, rfl, rfl⟩, ⟨rfl, rfl, rfl⟩, rfl, rfl⟩, .inr (.inr rfl)⟩

theorem SameCounters.released {n : Memory} (h : SameCounters n m) (ptr : Nat) :
    released n ptr = released m ptr := by
  unfold Mec.released
  rw [h.small.contains, h.medium.contains]

/-- Giving a live block back subtracts the size of its slot. -/
theorem freeBlock_counters (h : AllocOk m (b :: rest)) :
    (freeBlock m b.ptr).currentAllocated =
        m.currentAllocated - BitVec.ofNat 64 (released m b.ptr) ∧
      (freeBlock m b.ptr).peakAllocated = m.peakAllocated := by
  unfold freeBlock released
  by_cases hs : m.small.contains b.ptr
  · obtain ⟨small, hgive, hshape, -⟩ := h.pools.give hs
    rw [hgive, if_pos hs, ← h.small_size (MemPool.totalCount_pos hs), ← hshape.blockSize]
    exact ⟨rfl, rfl⟩
  · rw [give_eq_none hs, if_neg hs]
    by_cases hm : m.medium.contains b.ptr
    · obtain ⟨medium, hgive, hshape, -⟩ := h.pools.symm.give hm
      rw [hgive, if_pos hm, ← h.medium_size (MemPool.totalCount_pos hm), ← hshape.blockSize]
      exact ⟨rfl, rfl⟩
    · rw [give_eq_none hm, if_neg hm]
      simp only [sysFree, h.pools.find_heap List.mem_cons_self hs hm]
      exact ⟨(BitVec.sub_zero _).symm, trivial⟩

end Counters

/-! ## `size_t` arithmetic -/

section SizeT

variable {m : Memory} {total peak : Nat}

theorem count_toNat (hcur : m.currentAllocated.toNat = total) (hpeak : m.peakAllocated.toNat = peak)
    {size asked : Nat} (hsize : size % 2 ^ 64 = asked % 2 ^ 64) :
    (m.count size).currentAllocated.toNat = (total + asked) % 2 ^ 64 ∧
      (m.count size).peakAllocated.toNat = max peak ((total + asked) % 2 ^ 64) := by
  have hnew : (m.currentAllocated + BitVec.ofNat 64 size).toNat = (total + asked) % 2 ^ 64 := by
    rw [BitVec.toNat_add, BitVec.toNat_ofNat, hcur]
    omega
  refine ⟨hnew, ?_⟩
  show (if m.peakAllocated < m.currentAllocated + BitVec.ofNat 64 size then _ else _ :
    BitVec 64).toNat = _
  split
  · next h =>
    rw [BitVec.lt_def, hpeak, hnew] at h
    omega
  · next h =>
    rw [BitVec.lt_def, hpeak, hnew] at h
    omega

theorem count_exact (hcur : m.currentAllocated.toNat = total) (hpeak : m.peakAllocated.toNat = peak)
    {size asked : Nat} (hsize : size % 2 ^ 64 = asked % 2 ^ 64) :
    ((m.count size).currentAllocated.toNat = total + asked ∧
      (m.count size).peakAllocated.toNat = max peak (total + asked)) ↔ total + asked < 2 ^ 64 := by
  obtain ⟨hnew, hmax⟩ := count_toNat hcur hpeak hsize
  constructor
  · rintro ⟨h, -⟩
    omega
  · intro hlt
    rw [Nat.mod_eq_of_lt hlt] at hnew hmax
    exact ⟨hnew, hmax⟩

theorem sub_exact {c : BitVec 64} (hcur : c.toNat = total) {asked k : Nat} (hle : asked ≤ total)
    (hk : k < 2 ^ 64) : (c - BitVec.ofNat 64 k).toNat = total - asked ↔ asked = k := by
  have hlt := c.isLt
  rw [BitVec.toNat_sub, BitVec.toNat_ofNat, hcur]
  omega

end SizeT

/-! ## What was asked for -/

/-- The manager with, for every live pointer, the size that was asked for, and
the greatest sum of these sizes so far. -/
structure LedgerState where
  alloc : AllocState
  requested : Nat → Nat
  peak : Nat

/-- The sum of the sizes asked for these blocks. -/
def requestedSum (requested : Nat → Nat) : List Block → Nat
  | [] => 0
  | b :: live => requested b.ptr + requestedSum requested live

def LedgerState.total (s : LedgerState) : Nat := requestedSum s.requested s.alloc.live

/-- What a call asks for; for `mec_calloc` it is the product, not its low bits. -/
def AllocAct.asked : AllocAct → Nat
  | .malloc size _ => size
  | .calloc nmemb size _ => nmemb * size
  | .realloc _ size _ => size
  | .free _ => 0

/-- The entry a call makes for the pointer it returns. -/
def record (requested : Nat → Nat) (ptr : Option Nat) (asked : Nat) : Nat → Nat :=
  match ptr with
  | none => requested
  | some ptr => Function.update requested ptr asked

/-- The books after a call that led to `next` and returned `ptr`. -/
def LedgerState.settle (s : LedgerState) (next : AllocState) (ptr : Option Nat) (asked : Nat) :
    LedgerState :=
  let requested := record s.requested ptr asked
  ⟨next, requested, max s.peak (requestedSum requested next.live)⟩

/-- `allocStep` with the ledger. -/
def ledgerStep (s : LedgerState) (a : AllocAct) : Option (LedgerState × Option Nat) :=
  (allocStep s.alloc a).map fun r => (s.settle r.1 r.2 a.asked, r.2)

/-- The statistics are right. -/
structure LedgerState.Exact (s : LedgerState) : Prop where
  used : (mecMemoryGetUsed s.alloc.memory).toNat = s.total
  peak : (mecMemoryGetPeakUsage s.alloc.memory).toNat = s.peak

/-- When a call keeps them right. An allocation must keep the sum below `2 ^ 64`
if it succeeds. A block given back must have been asked for at the size of its
slot, or at size 0 on the heap. A block that moves out of its slot, too, and
neither the sum before plus the new size nor the sum after may be a new peak. A
heap block must be reallocated to its old size, or in vain. -/
def LedgerState.Keeps (s : LedgerState) : AllocAct → Prop
  | .malloc size sys | .realloc none size sys =>
    Served s.alloc.memory size sys → s.total + size < 2 ^ 64
  | .calloc nmemb size sys =>
    Served s.alloc.memory (nmemb * size % 2 ^ 64) sys → s.total + nmemb * size < 2 ^ 64
  | .realloc (some ptr) size sys =>
    if size = 0 then s.requested ptr = released s.alloc.memory ptr
    else if Pooled s.alloc.memory ptr then
      Served s.alloc.memory size sys →
        s.requested ptr = released s.alloc.memory ptr ∧
          s.total - s.requested ptr + size ≤ s.peak ∧ (s.total + size) % 2 ^ 64 ≤ s.peak
    else sys = none ∨ s.requested ptr = size
  | .free none => True
  | .free (some ptr) => s.requested ptr = released s.alloc.memory ptr

instance (s : LedgerState) : ∀ a, Decidable (s.Keeps a)
  | .malloc _ _ | .realloc none _ _ | .calloc _ _ _ => inferInstanceAs (Decidable (_ → _))
  | .realloc (some _) _ _ => inferInstanceAs (Decidable (ite _ _ _))
  | .free none => inferInstanceAs (Decidable True)
  | .free (some _) => inferInstanceAs (Decidable (_ = _))

section Sums

variable {requested : Nat → Nat} {live rest : List Block} {b : Block} {ptr asked : Nat}

theorem requestedSum_cons :
    requestedSum requested (b :: live) = requested b.ptr + requestedSum requested live := rfl

theorem requestedSum_perm (h : live.Perm rest) :
    requestedSum requested live = requestedSum requested rest := by
  induction h with
  | nil => rfl
  | cons b _ ih => rw [requestedSum_cons, requestedSum_cons, ih]
  | swap b c live =>
    unfold requestedSum requestedSum
    omega
  | trans _ _ ih₁ ih₂ => exact ih₁.trans ih₂

theorem requestedSum_congr {requested' : Nat → Nat}
    (h : ∀ b ∈ live, requested' b.ptr = requested b.ptr) :
    requestedSum requested' live = requestedSum requested live := by
  induction live with
  | nil => rfl
  | cons b live ih =>
    rw [requestedSum_cons, requestedSum_cons, h b List.mem_cons_self,
      ih fun c hc => h c (List.mem_cons_of_mem b hc)]

theorem requestedSum_update (hnew : (b :: live).Pairwise Block.Apart) :
    requestedSum (Function.update requested b.ptr asked) (b :: live) =
      asked + requestedSum requested live := by
  have hrest : requestedSum (Function.update requested b.ptr asked) live =
      requestedSum requested live := by
    refine requestedSum_congr fun c hc => ?_
    have hapart := (List.pairwise_cons.mp hnew).1 c hc
    apply Function.update_of_ne
    exact hapart.ptr_ne.symm
  rw [requestedSum_cons, Function.update_self, hrest]

end Sums

/-! ## One call -/

section Step

variable {s : LedgerState} {b : Block} {rest : List Block} {sys : Option Nat} {size asked : Nat}

/-- The books after a call, by the sum that is left. -/
theorem exact_settle_iff {next : AllocState} {ptr : Option Nat} {total : Nat}
    (h : requestedSum (record s.requested ptr asked) next.live = total) :
    (s.settle next ptr asked).Exact ↔ next.memory.currentAllocated.toNat = total ∧
      next.memory.peakAllocated.toNat = max s.peak total := by
  subst h
  exact ⟨fun h => ⟨h.used, h.peak⟩, fun h => ⟨h.1, h.2⟩⟩

theorem total_cons (hlive : s.alloc.live.Perm (b :: rest)) :
    s.total = s.requested b.ptr + requestedSum s.requested rest := by
  rw [LedgerState.total, requestedSum_perm hlive, requestedSum_cons]

theorem LedgerState.Exact.same {n : Memory} (hexact : s.Exact)
    (hcur : n.currentAllocated = s.alloc.memory.currentAllocated)
    (hpk : n.peakAllocated = s.alloc.memory.peakAllocated) :
    n.currentAllocated.toNat = s.total ∧ n.peakAllocated.toNat = s.peak := by
  rw [hcur, hpk]
  exact ⟨hexact.used, hexact.peak⟩

theorem exact_kept (hexact : s.Exact) (hpeak : s.total ≤ s.peak) {live : List Block}
    (hlive : s.alloc.live.Perm live) : (s.settle ⟨s.alloc.memory, live⟩ none asked).Exact := by
  apply (exact_settle_iff (requestedSum_perm hlive).symm).mpr
  refine ⟨hexact.used, hexact.peak.trans ?_⟩
  show s.peak = max s.peak s.total
  omega

theorem exact_alloc (hexact : s.Exact) (hpeak : s.total ≤ s.peak)
    (hok : AllocOk (mecMalloc sys s.alloc.memory size).2
      (withNew (mecMalloc sys s.alloc.memory size).1 size s.alloc.live))
    (hsize : size % 2 ^ 64 = asked % 2 ^ 64) (bytes : Nat → UInt8) :
    (s.settle
      ⟨{ (mecMalloc sys s.alloc.memory size).2 with bytes := bytes },
        withNew (mecMalloc sys s.alloc.memory size).1 size s.alloc.live⟩
      (mecMalloc sys s.alloc.memory size).1 asked).Exact ↔
      (Served s.alloc.memory size sys → s.total + asked < 2 ^ 64) := by
  rcases mecMalloc_cases sys s.alloc.memory size with ⟨ptr, n, hres, hsame, hserved⟩ | ⟨hres, hno⟩
  · rw [hres] at hok ⊢
    have htotal : requestedSum (record s.requested (some ptr) asked)
        (⟨ptr, size⟩ :: s.alloc.live) = s.total + asked := by
      rw [Nat.add_comm]
      exact requestedSum_update hok.pools.live_apart
    obtain ⟨hcur, hpk⟩ := hexact.same hsame.current hsame.peak
    rw [forall_prop_of_true hserved, ← count_exact hcur hpk hsize]
    exact exact_settle_iff htotal
  · rw [hres]
    have hkept : (s.settle ⟨s.alloc.memory, s.alloc.live⟩ none asked).Exact :=
      exact_kept hexact hpeak (.refl s.alloc.live)
    exact iff_of_true ⟨hkept.used, hkept.peak⟩ fun h => absurd h hno

theorem exact_free (hexact : s.Exact) (hpeak : s.total ≤ s.peak)
    (hok : AllocOk s.alloc.memory (b :: rest)) (hlive : s.alloc.live.Perm (b :: rest)) :
    (s.settle ⟨freeBlock s.alloc.memory b.ptr, rest⟩ none asked).Exact ↔
      s.requested b.ptr = released s.alloc.memory b.ptr := by
  have htotal := total_cons hlive
  obtain ⟨hcur, hpk⟩ := freeBlock_counters hok
  have hle : s.requested b.ptr ≤ s.total := by omega
  have hsub := sub_exact hexact.used hle (released_lt s.alloc.memory b.ptr)
  have hleft : requestedSum (record s.requested none asked) rest =
      s.total - s.requested b.ptr := by
    show requestedSum s.requested rest = _
    omega
  have hmax : s.alloc.memory.peakAllocated.toNat = max s.peak (s.total - s.requested b.ptr) :=
    hexact.peak.trans (by omega)
  rw [exact_settle_iff hleft, hcur, hpk]
  exact (and_iff_left hmax).trans hsub

/-- A block that moves out of its slot: the new block is counted before the old
one is given back. -/
theorem exact_move {new : Nat} {n : Memory} (hexact : s.Exact)
    (hsame : SameCounters n s.alloc.memory)
    (hok : AllocOk (n.count size) (⟨new, size⟩ :: b :: rest))
    (hlive : s.alloc.live.Perm (b :: rest)) (hpool : Pooled s.alloc.memory b.ptr)
    (bytes : Nat → UInt8) :
    (s.settle
      ⟨freeBlock { n.count size with bytes := bytes } b.ptr, ⟨new, size⟩ :: rest⟩
      (some new) size).Exact ↔
      s.requested b.ptr = released s.alloc.memory b.ptr ∧
        s.total - s.requested b.ptr + size ≤ s.peak ∧ (s.total + size) % 2 ^ 64 ≤ s.peak := by
  have htotal := total_cons hlive
  have hswap := hok.perm (List.Perm.swap b ⟨new, size⟩ rest)
  have hleft : requestedSum (record s.requested (some new) size) (⟨new, size⟩ :: rest) =
      size + requestedSum s.requested rest :=
    requestedSum_update (List.pairwise_cons.mp hswap.pools.live_apart).2
  obtain ⟨hcur, hpk⟩ := hexact.same hsame.current hsame.peak
  obtain ⟨hcount, hmax⟩ := count_toNat hcur hpk (rfl : size % 2 ^ 64 = size % 2 ^ 64)
  have hrel : released { n.count size with bytes := bytes } b.ptr =
      released s.alloc.memory b.ptr := hsame.released b.ptr
  obtain ⟨hused, hpeak⟩ := freeBlock_counters (hswap.bytes bytes)
  have hlt := released_lt s.alloc.memory b.ptr
  have hsub : (freeBlock { n.count size with bytes := bytes } b.ptr).currentAllocated.toNat =
      (2 ^ 64 - released s.alloc.memory b.ptr + (s.total + size) % 2 ^ 64) % 2 ^ 64 := by
    rw [hused, hrel, BitVec.toNat_sub, BitVec.toNat_ofNat, Nat.mod_eq_of_lt hlt]
    exact congrArg (fun k => (_ + k) % 2 ^ 64) hcount
  have hnewpeak : (freeBlock { n.count size with bytes := bytes } b.ptr).peakAllocated.toNat =
      max s.peak ((s.total + size) % 2 ^ 64) := by
    rw [hpeak]
    exact hmax
  rw [exact_settle_iff hleft, hsub, hnewpeak]
  have hpos := released_pos hpool
  have htlt := n.currentAllocated.isLt
  have hplt := n.peakAllocated.isLt
  omega

theorem exact_resize {new : Nat} {n : Memory} (hexact : s.Exact) (hpeak : s.total ≤ s.peak)
    (hcur : n.currentAllocated = s.alloc.memory.currentAllocated)
    (hpk : n.peakAllocated = s.alloc.memory.peakAllocated)
    (hok : AllocOk n (⟨new, size⟩ :: rest)) (hlive : s.alloc.live.Perm (b :: rest)) :
    (s.settle ⟨n, ⟨new, size⟩ :: rest⟩ (some new) size).Exact ↔ s.requested b.ptr = size := by
  have htotal := total_cons hlive
  have hleft : requestedSum (record s.requested (some new) size) (⟨new, size⟩ :: rest) =
      size + requestedSum s.requested rest := requestedSum_update hok.pools.live_apart
  obtain ⟨hused, hmax⟩ := hexact.same hcur hpk
  rw [exact_settle_iff hleft, hused, hmax]
  omega

/-! ### `mec_realloc` of a live block -/

theorem mecRealloc_pool {m : Memory} (hok : AllocOk m (b :: rest)) (hsize : size ≠ 0)
    (hpool : Pooled m b.ptr) :
    (∃ new n bytes, mecMalloc sys m size = (some new, n.count size) ∧ SameCounters n m ∧
      Served m size sys ∧ mecRealloc sys m (some b.ptr) size =
        (some new, freeBlock { n.count size with bytes := bytes } b.ptr)) ∨
    mecRealloc sys m (some b.ptr) size = (none, m) ∧ ¬ Served m size sys := by
  have howns := hok.owns_iff.mpr hpool
  simp only [mecRealloc]
  rw [if_neg hsize, if_pos howns]
  rcases mecMalloc_cases sys m size with ⟨new, n, hres, hsame, hserved⟩ | ⟨hres, hno⟩
  · rw [hres]
    exact .inl ⟨new, n, _, rfl, hsame, hserved, rfl⟩
  · rw [hres]
    exact .inr ⟨rfl, hno⟩

theorem mecRealloc_heap {m : Memory} (hok : AllocOk m (b :: rest)) (hsize : size ≠ 0)
    (hpool : ¬ Pooled m b.ptr) :
    mecRealloc sys m (some b.ptr) size = sysRealloc sys m b.ptr size ∧
      (sysRealloc none m b.ptr size = (none, m)) ∧
      ∀ new, ∃ heap bytes, sysRealloc (some new) m b.ptr size =
        (some new, { m with heap := heap, bytes := bytes }) := by
  have howns := mt hok.owns_iff.mp hpool
  have hfind := hok.pools.find_heap List.mem_cons_self (fun h => hpool (.inl h))
    (fun h => hpool (.inr h))
  simp only [mecRealloc, sysRealloc, hfind]
  rw [if_neg hsize, if_neg howns]
  exact ⟨rfl, trivial, fun new => ⟨_, _, rfl⟩⟩

theorem exact_realloc (hexact : s.Exact) (hpeak : s.total ≤ s.peak)
    (hok : AllocOk s.alloc.memory (b :: rest)) (hlive : s.alloc.live.Perm (b :: rest))
    (hsys : SysOk s.alloc.memory rest size sys) :
    (s.settle
      ⟨(mecRealloc sys s.alloc.memory (some b.ptr) size).2,
        withMoved (mecRealloc sys s.alloc.memory (some b.ptr) size).1 size b rest⟩
      (mecRealloc sys s.alloc.memory (some b.ptr) size).1 size).Exact ↔
      s.Keeps (.realloc (some b.ptr) size sys) := by
  unfold LedgerState.Keeps
  by_cases hsize : size = 0
  · subst hsize
    exact exact_free hexact hpeak hok hlive
  have hfail : (s.settle ⟨s.alloc.memory, withMoved none size b rest⟩ none size).Exact := by
    have hmoved : withMoved none size b rest = b :: rest := if_neg hsize
    rw [hmoved]
    exact exact_kept hexact hpeak hlive
  by_cases hpool : Pooled s.alloc.memory b.ptr
  · simp only [if_neg hsize, if_pos hpool]
    have hnew := mecMalloc_ok hok (hsys.cons hok hpool)
    rcases mecRealloc_pool hok hsize hpool with
      ⟨new, n, bytes, hmalloc, hsame, hserved, hres⟩ | ⟨hres, hno⟩
    · rw [hmalloc] at hnew
      rw [hres, forall_prop_of_true hserved]
      exact exact_move hexact hsame hnew hlive hpool bytes
    · rw [hres]
      exact iff_of_true hfail fun h => absurd h hno
  · simp only [if_neg hsize, if_neg hpool]
    obtain ⟨hres, hnone, hsome⟩ := mecRealloc_heap hok hsize hpool
    have hmoved := mecRealloc_ok hok hsys
    rw [hres] at hmoved ⊢
    cases sys with
    | none =>
      rw [hnone]
      exact iff_of_true hfail (.inl rfl)
    | some new =>
      obtain ⟨heap, bytes, hnew⟩ := hsome new
      rw [hnew] at hmoved ⊢
      rw [or_iff_right (Option.some_ne_none new)]
      exact exact_resize hexact hpeak rfl rfl hmoved hlive

theorem mecCalloc_eq (sys : Option Nat) (m : Memory) (nmemb size : Nat) :
    ∃ bytes, mecCalloc sys m nmemb size =
      ((mecMalloc sys m (nmemb * size % 2 ^ 64)).1,
        { (mecMalloc sys m (nmemb * size % 2 ^ 64)).2 with bytes := bytes }) := by
  simp only [mecCalloc]
  generalize mecMalloc sys m (nmemb * size % 2 ^ 64) = r
  obtain ⟨_ | ptr, n⟩ := r
  · exact ⟨n.bytes, rfl⟩
  · exact ⟨_, rfl⟩

/-- **One call.** The statistics stay right exactly if the call meets `Keeps`. -/
theorem ledgerStep_exact {t : LedgerState} {r : Option Nat} {a : AllocAct} (hexact : s.Exact)
    (hpeak : s.total ≤ s.peak) (hok : AllocOk s.alloc.memory s.alloc.live)
    (hstep : ledgerStep s a = some (t, r)) : t.Exact ↔ s.Keeps a := by
  obtain ⟨⟨next, ptr⟩, hcall, heq⟩ := Option.map_eq_some_iff.mp hstep
  cases heq
  obtain ⟨size, sys, ha, hsys, rfl, rfl⟩ | ⟨nmemb, size, sys, rfl, hsys, rfl, rfl⟩ |
    ⟨b, size, sys, rfl, hperm, hsys, rfl, rfl⟩ | ⟨rfl, rfl, rfl⟩ | ⟨b, rfl, hperm, rfl, rfl⟩ :=
      allocStep_cases hcall
  · -- `mec_malloc`, called or reached through `mec_realloc(NULL, size)`
    rcases ha with rfl | rfl
    all_goals exact exact_alloc hexact hpeak (mecMalloc_ok hok hsys) rfl _
  · obtain ⟨bytes, hcalloc⟩ := mecCalloc_eq sys s.alloc.memory nmemb size
    rw [hcalloc]
    exact exact_alloc hexact hpeak (mecMalloc_ok hok hsys) (Nat.mod_mod _ _) bytes
  · exact exact_realloc hexact hpeak (hok.perm hperm) hperm hsys
  · exact iff_of_true (exact_kept hexact hpeak (.refl _)) trivial
  · exact exact_free hexact hpeak (hok.perm hperm) hperm

end Step

/-! ## Runs -/

section Runs

variable {s t : LedgerState}

/-- The state `mec_memory_init` leaves with these answers, nothing allocated. -/
def ledgerStart (smallBlocks smallList mediumBlocks mediumList : Option Nat)
    (bytes : Nat → UInt8) : LedgerState where
  alloc :=
    { memory := mecMemoryInit smallBlocks smallList mediumBlocks mediumList bytes
      live := [] }
  requested := fun _ => 0
  peak := 0

/-- What holds along every run, right statistics or not. -/
structure LedgerState.Ok (s : LedgerState) : Prop where
  alloc : AllocOk s.alloc.memory s.alloc.live
  peak : s.total ≤ s.peak

theorem ledgerStep_ok {a : AllocAct} {r : Option Nat} (h : s.Ok)
    (hstep : ledgerStep s a = some (t, r)) : t.Ok := by
  obtain ⟨⟨next, ptr⟩, hcall, heq⟩ := Option.map_eq_some_iff.mp hstep
  cases heq
  exact ⟨allocStep_ok h.alloc hcall, Nat.le_max_right _ _⟩

/-- The recorded peak is the greatest sum of the run. -/
theorem peak_isGreatest {tr : List (AllocAct × Option Nat)} (h : Run ledgerStep s tr t)
    (hs : s.peak = s.total) :
    IsGreatest {n | ∃ tr₁ tr₂ u, tr = tr₁ ++ tr₂ ∧ Run ledgerStep s tr₁ u ∧ n = u.total}
      t.peak := by
  apply h.isGreatest (f := LedgerState.peak) (g := LedgerState.total) ?_ hs
  intro s a t r hstep
  obtain ⟨_, -, heq⟩ := Option.map_eq_some_iff.mp hstep
  cases heq
  rfl

/-- **The statistics are exact** all along a run exactly when each call of it
meets `Keeps`. -/
theorem accounting_exact_iff {smallBlocks smallList mediumBlocks mediumList : Option Nat}
    (bytes : Nat → UInt8)
    (hapart : smallList.isSome → mediumList.isSome → ∀ a ∈ smallBlocks, ∀ b ∈ mediumBlocks,
      a + 64 * 256 ≤ b ∨ b + 32 * 4096 ≤ a)
    {tr : List (AllocAct × Option Nat)}
    (h : Run ledgerStep (ledgerStart smallBlocks smallList mediumBlocks mediumList bytes) tr s) :
    (∀ tr₁ tr₂ t, tr = tr₁ ++ tr₂ →
      Run ledgerStep (ledgerStart smallBlocks smallList mediumBlocks mediumList bytes) tr₁ t →
      t.Exact) ↔
    ∀ tr₁ a r tr₂ t, tr = tr₁ ++ (a, r) :: tr₂ →
      Run ledgerStep (ledgerStart smallBlocks smallList mediumBlocks mediumList bytes) tr₁ t →
      t.Keeps a := by
  apply h.stepwise (I := LedgerState.Ok) (P := LedgerState.Exact) (K := LedgerState.Keeps)
  · exact fun _ _ _ _ hok hstep => ledgerStep_ok hok hstep
  · exact fun _ _ _ _ hok hexact hstep => ledgerStep_exact hexact hok.peak hok.alloc hstep
  · exact ⟨mecMemoryInit_ok bytes hapart, Nat.le_refl 0⟩
  · exact ⟨rfl, rfl⟩

def twoPoolsLedger : LedgerState :=
  ledgerStart (some 0x10000) (some 0x8000) (some 0x20000) (some 0x9000) fun _ => 0

/-- Whole slots are freed and moved, and there never is a new peak. -/
def wholeSlots : List AllocAct := [.malloc 256 none, .malloc 4096 none, .free (some 0x13F00),
  .realloc (some 0x3F000) 256 none, .malloc 100 none]

theorem accounting_exact_wholeSlots :
    let run := play ledgerStep twoPoolsLedger wholeSlots
    run.1.map Prod.snd = [some 0x13F00, some 0x3F000, none, some 0x13F00, some 0x13E00] ∧
      run.2.Exact := by
  have hmeets : Meets ledgerStep LedgerState.Keeps twoPoolsLedger wholeSlots := by decide +kernel
  have hrun := run_play ledgerStep twoPoolsLedger wholeSlots
  refine ⟨by decide +kernel, ?_⟩
  exact (accounting_exact_iff (fun _ => 0) (fun _ _ => by decide) hrun).mpr (meets_play hmeets)
    _ [] _ (List.append_nil _).symm hrun

def ledgerOnce : LedgerState := twoPoolsLedger.settle mallocOnce (some 0x13F00) 100

theorem ledgerOnce_run :
    Run ledgerStep twoPoolsLedger [(.malloc 100 none, some 0x13F00)] ledgerOnce := by
  refine .single ?_
  exact congrArg (Option.map fun r => (twoPoolsLedger.settle r.1 r.2 100, r.2)) mallocOnce_step

/-- A block of 100 bytes from the small pool takes 256 off the counter when it is
freed. -/
theorem freed_block_wraps_used : ∃ tr s, Run ledgerStep twoPoolsLedger tr s ∧
    s.alloc.live = [] ∧ s.total = 0 ∧ (mecMemoryGetUsed s.alloc.memory).toNat = 2 ^ 64 - 156 := by
  refine ⟨[(.malloc 100 none, some 0x13F00), (.free (some 0x13F00), none)],
    ledgerOnce.settle ⟨mecFree ledgerOnce.alloc.memory (some 0x13F00), []⟩ none 0,
    ledgerOnce_run.snoc ?_, rfl, rfl, by decide⟩
  rfl

end Runs

end Mec
