import Mathlib.Algebra.Order.Field.Basic
import Mathlib.Data.Rat.Cast.Order
import Mec.Memory.Contents

/-!
# The older allocator (`memory.c`)

Sixteen static blocks of 1024 bytes with a flag each, in front of the C
library's heap; the same interface as `memory_new.c`. `mec_malloc` takes the
first block whose flag is clear. `mec_realloc` keeps a block of the pool as long
as the new size fits it; beyond that it copies the block to the heap and leaves
the flag set, so that the block is in nobody's hands for good
(`flagPool_accounted`).
-/

namespace Mec

open Lib.Lts Lib.Records

abbrev poolNumBlocks : Nat := 16
abbrev poolBlockSize : Nat := 1024
abbrev poolStride : Nat := 1028

/-- The static variables of the module, the bytes of memory, and the C library's heap;
`base` is where the linker put `memory_pool`. -/
structure FlagMemory where
  base : Nat
  used : Fin poolNumBlocks → Bool
  bytes : Nat → UInt8
  heap : List Block
  fault : Bool

namespace FlagMemory

def data (m : FlagMemory) (i : Fin poolNumBlocks) : Nat := m.base + i * poolStride

/-- The loop that looks for a pointer in the pool. -/
def slot (m : FlagMemory) (ptr : Nat) : Option (Fin poolNumBlocks) :=
  (List.finRange poolNumBlocks).find? fun i => ptr == m.data i

/-- The loop that looks for a block to hand out. -/
def firstFree (m : FlagMemory) : Option (Fin poolNumBlocks) :=
  (List.finRange poolNumBlocks).find? fun i => !m.used i

def mark (m : FlagMemory) (i : Fin poolNumBlocks) (used : Bool) : FlagMemory :=
  { m with used := Function.update m.used i used }

/-- `mec_pool_init` on the static state. -/
def mecPoolInit (base : Nat) (bytes : Nat → UInt8) : FlagMemory :=
  ⟨base, fun _ => false, bytes, [], false⟩

/-! ## The C library -/

def malloc (sys : Option Nat) (m : FlagMemory) (size : Nat) : Option Nat × FlagMemory :=
  match sys with
  | none => (none, m)
  | some ptr => (some ptr, { m with heap := ⟨ptr, size⟩ :: m.heap })

def free (m : FlagMemory) (ptr : Nat) : FlagMemory :=
  match m.heap.find? (·.ptr == ptr) with
  | none => { m with fault := true }
  | some b => { m with heap := m.heap.erase b }

/-- `realloc`; to no bytes it frees the block. -/
def realloc (sys : Option Nat) (m : FlagMemory) (ptr size : Nat) : Option Nat × FlagMemory :=
  if size = 0 then (none, m.free ptr)
  else
    match m.heap.find? (·.ptr == ptr) with
    | none => (none, { m with fault := true })
    | some b =>
      match sys with
      | none => (none, m)
      | some new =>
        (some new,
          { m with
            heap := ⟨new, size⟩ :: m.heap.erase b
            bytes := memcpy m.bytes new ptr (min b.size size) })

/-! ## The interface -/

def mecMalloc (sys : Option Nat) (m : FlagMemory) (size : Nat) : Option Nat × FlagMemory :=
  if size ≤ poolBlockSize then
    match m.firstFree with
    | some i => (some (m.data i), m.mark i true)
    | none => m.malloc sys size
  else m.malloc sys size

/-- The product is a `size_t`. -/
def mecCalloc (sys : Option Nat) (m : FlagMemory) (nmemb size : Nat) : Option Nat × FlagMemory :=
  let totalSize := nmemb * size % 2 ^ 64
  match mecMalloc sys m totalSize with
  | (some ptr, m) => (some ptr, { m with bytes := memset m.bytes ptr 0 totalSize })
  | (none, m) => (none, m)

def mecRealloc (sys : Option Nat) (m : FlagMemory) (ptr : Option Nat) (size : Nat) :
    Option Nat × FlagMemory :=
  match ptr with
  | none => m.malloc sys size
  | some ptr =>
    match m.slot ptr with
    | some _ =>
      if size ≤ poolBlockSize then (some ptr, m)
      else
        match m.malloc sys size with
        | (some new, m) => (some new, { m with bytes := memcpy m.bytes new ptr poolBlockSize })
        | (none, m) => (none, m)
    | none => m.realloc sys ptr size

def mecFree (m : FlagMemory) (ptr : Option Nat) : FlagMemory :=
  match ptr with
  | none => m
  | some ptr =>
    match m.slot ptr with
    | some i => m.mark i false
    | none => m.free ptr

/-! ## Slots -/

variable {m : FlagMemory} {i j : Fin poolNumBlocks} {ptr size : Nat} {b c : Block}
  {live rest : List Block} {left : List (Fin poolNumBlocks)} {sys : Option Nat}

/-- A block outside the pool. -/
def Outside (m : FlagMemory) (b : Block) : Prop :=
  b.ptr + b.extent ≤ m.base ∨ m.base + poolNumBlocks * poolStride ≤ b.ptr

instance (m : FlagMemory) (b : Block) : Decidable (m.Outside b) :=
  inferInstanceAs (Decidable (_ ∨ _))

theorem data_inj (h : m.data i = m.data j) : i = j := by
  unfold data poolStride at h
  exact Fin.ext (by omega)

theorem slot_data : m.slot (m.data i) = some i := by
  cases hslot : m.slot (m.data i) with
  | none => exact absurd (List.find?_eq_none.mp hslot i (List.mem_finRange i)) (by simp)
  | some j =>
    have hij := List.find?_some hslot
    rw [data_inj (beq_iff_eq.mp hij)]

theorem slot_eq_some : m.slot ptr = some i ↔ ptr = m.data i := by
  constructor
  · intro h
    have hbeq := List.find?_some (p := fun i => ptr == m.data i) h
    exact beq_iff_eq.mp hbeq
  · rintro rfl
    exact slot_data

theorem data_lt (m : FlagMemory) (i : Fin poolNumBlocks) :
    m.base ≤ m.data i ∧ m.data i + 1028 ≤ m.base + 16448 := by
  have hi : (i : Nat) < 16 := i.isLt
  unfold data poolStride
  omega

theorem Outside.slot (h : m.Outside b) : m.slot b.ptr = none := by
  cases hslot : m.slot b.ptr with
  | none => rfl
  | some i =>
    have hptr := slot_eq_some.mp hslot
    have hlt := m.data_lt i
    unfold Outside Block.extent poolNumBlocks poolStride at h
    omega

/-- The slots in use: those of live blocks, and those left behind. -/
def taken (m : FlagMemory) : List (Fin poolNumBlocks) :=
  (List.finRange poolNumBlocks).filter m.used

theorem mem_taken : i ∈ m.taken ↔ m.used i = true := by
  rw [taken, List.mem_filter]
  exact and_iff_right (List.mem_finRange i)

theorem taken_nodup : m.taken.Nodup := (List.nodup_finRange _).filter _

theorem taken_mark_true (h : m.used i = false) : (m.mark i true).taken.Perm (i :: m.taken) := by
  have hi : i ∉ m.taken := fun hmem => by
    rw [mem_taken.mp hmem] at h
    cases h
  refine (List.perm_ext_iff_of_nodup taken_nodup (List.nodup_cons.mpr ⟨hi, taken_nodup⟩)).mpr ?_
  intro j
  rw [List.mem_cons, mem_taken, mem_taken]
  by_cases hji : j = i
  · subst hji
    simp [mark]
  · simp [mark, hji]

theorem mark_mark (h : m.used i = true) : (m.mark i false).mark i true = m := by
  unfold mark
  rw [Function.update_idem, ← h, Function.update_eq_self]

theorem taken_mark_false (h : m.used i = true) : m.taken.Perm (i :: (m.mark i false).taken) := by
  have hperm := taken_mark_true (m := m.mark i false) (i := i) (Function.update_self _ _ _)
  rwa [mark_mark h] at hperm

theorem firstFree_some (h : m.firstFree = some i) : m.used i = false := by
  simpa using List.find?_some h

/-! ## Who holds what -/

/-- The slots of the live blocks. -/
def held (m : FlagMemory) (live : List Block) : List (Fin poolNumBlocks) :=
  live.filterMap fun b => m.slot b.ptr

/-- `live` are the blocks callers hold, `left` the slots `mec_realloc` left behind. -/
structure Ok (m : FlagMemory) (live : List Block) (left : List (Fin poolNumBlocks)) : Prop where
  slots : m.taken.Perm (left ++ m.held live)
  inside : ∀ b ∈ live, ∀ i, m.slot b.ptr = some i → b.extent ≤ poolBlockSize
  outside : ∀ b ∈ live, m.slot b.ptr = none → m.Outside b
  heap : m.heap.Perm (live.filter fun b => (m.slot b.ptr).isNone)
  apart : live.Pairwise Block.Apart
  fault : m.fault = false

theorem held_some (h : m.slot b.ptr = some i) : m.held (b :: live) = i :: m.held live :=
  List.filterMap_cons_some h

theorem held_none (h : m.slot b.ptr = none) : m.held (b :: live) = m.held live :=
  List.filterMap_cons_none h

theorem Ok.init (base : Nat) (bytes : Nat → UInt8) : (mecPoolInit base bytes).Ok [] [] where
  slots := by
    have hnil : (mecPoolInit base bytes).taken = [] :=
      List.filter_eq_nil_iff.mpr fun i _ => Bool.false_ne_true
    rw [hnil]
    exact .nil
  inside b hb := absurd hb List.not_mem_nil
  outside b hb := absurd hb List.not_mem_nil
  heap := .nil
  apart := .nil
  fault := rfl

theorem Ok.perm (h : m.Ok live left) (hperm : live.Perm rest) : m.Ok rest left where
  slots := h.slots.trans ((hperm.filterMap _).append_left left)
  inside b hb := h.inside b (hperm.mem_iff.mpr hb)
  outside b hb := h.outside b (hperm.mem_iff.mpr hb)
  heap := h.heap.trans (hperm.filter _)
  apart := (hperm.pairwise_iff fun hbc => hbc.symm).mp h.apart
  fault := h.fault

theorem Ok.bytes (h : m.Ok live left) (bytes : Nat → UInt8) :
    ({ m with bytes } : FlagMemory).Ok live left := { h with }

theorem Ok.apart_slot (h : m.Ok live left) (hfree : m.used i = false)
    (hsize : (Block.mk (m.data i) size).extent ≤ poolBlockSize) (hb : b ∈ live) :
    (Block.mk (m.data i) size).Apart b := by
  have hi := m.data_lt i
  cases hslot : m.slot b.ptr with
  | none =>
    have hout := h.outside b hb hslot
    unfold Outside poolNumBlocks poolStride at hout
    unfold poolBlockSize at hsize
    unfold Block.Apart
    simp only
    omega
  | some j =>
    have hij : i ≠ j := by
      rintro rfl
      have hmem := h.slots.mem_iff.mpr
        (List.mem_append_right _ (List.mem_filterMap.mpr ⟨b, hb, hslot⟩))
      rw [mem_taken.mp hmem] at hfree
      cases hfree
    have hptr := slot_eq_some.mp hslot
    have hext := h.inside b hb j hslot
    have hne : (i : Nat) ≠ j := fun heq => hij (Fin.ext heq)
    have hle : poolBlockSize ≤ poolStride := by decide
    exact apart_of_slots hne rfl hptr (hsize.trans hle) (hext.trans hle)

theorem Ok.take (h : m.Ok live left) (hfree : m.used i = false) (hsize : size ≤ poolBlockSize) :
    (m.mark i true).Ok (⟨m.data i, size⟩ :: live) left := by
  have hext : (Block.mk (m.data i) size).extent ≤ poolBlockSize := by
    show max size 1 ≤ poolBlockSize
    exact Nat.max_le.mpr ⟨hsize, by decide⟩
  have hslot : (m.mark i true).slot (Block.mk (m.data i) size).ptr = some i := slot_data
  refine ⟨?_, fun b hb j hj => ?_, fun b hb hnone => ?_, ?_, ?_, h.fault⟩
  · rw [held_some hslot]
    refine (taken_mark_true hfree).trans ((h.slots.cons i).trans ?_)
    exact List.perm_middle.symm
  · rcases List.mem_cons.mp hb with rfl | hb
    · exact hext
    · exact h.inside b hb j hj
  · rcases List.mem_cons.mp hb with rfl | hb
    · exact absurd (hslot.symm.trans hnone) (by simp)
    · exact h.outside b hb hnone
  · rw [List.filter_cons_of_neg (by rw [hslot]; simp)]
    exact h.heap
  · exact List.pairwise_cons.mpr ⟨fun b hb => h.apart_slot hfree hext hb, h.apart⟩

theorem Ok.grow (h : m.Ok live left) (hout : m.Outside b) (hapart : ∀ c ∈ live, b.Apart c) :
    ({ m with heap := b :: m.heap } : FlagMemory).Ok (b :: live) left := by
  have hslot : m.slot b.ptr = none := hout.slot
  refine ⟨?_, fun c hc j hj => ?_, fun c hc hnone => ?_, ?_, ?_, h.fault⟩
  · show m.taken.Perm (left ++ m.held (b :: live))
    rw [held_none hslot]
    exact h.slots
  · rcases List.mem_cons.mp hc with rfl | hc
    · exact absurd (hslot.symm.trans hj) (by simp)
    · exact h.inside c hc j hj
  · rcases List.mem_cons.mp hc with rfl | hc
    · exact hout
    · exact h.outside c hc hnone
  · show (b :: m.heap).Perm ((b :: live).filter fun b => (m.slot b.ptr).isNone)
    rw [List.filter_cons_of_pos (by rw [hslot]; rfl)]
    exact h.heap.cons b
  · exact List.pairwise_cons.mpr ⟨hapart, h.apart⟩

theorem Ok.used_of_slot (h : m.Ok (b :: rest) left) (hslot : m.slot b.ptr = some i) :
    m.used i = true := by
  refine mem_taken.mp (h.slots.mem_iff.mpr (List.mem_append_right _ ?_))
  rw [held_some hslot]
  exact List.mem_cons_self

theorem Ok.giveSlot (h : m.Ok (b :: rest) left) (hslot : m.slot b.ptr = some i) :
    (m.mark i false).Ok rest left := by
  have hslots := h.slots
  rw [held_some hslot] at hslots
  have hmark := taken_mark_false (h.used_of_slot hslot)
  refine ⟨?_, fun c hc => h.inside c (List.mem_cons_of_mem b hc),
    fun c hc => h.outside c (List.mem_cons_of_mem b hc), ?_,
    (List.pairwise_cons.mp h.apart).2, h.fault⟩
  · exact (List.perm_cons i).mp (hmark.symm.trans (hslots.trans List.perm_middle))
  · have hheap := h.heap
    rw [List.filter_cons_of_neg (by rw [hslot]; simp)] at hheap
    exact hheap

theorem Ok.giveHeap (h : m.Ok (b :: rest) left) (hslot : m.slot b.ptr = none) :
    ({ m with heap := m.heap.erase b } : FlagMemory).Ok rest left := by
  refine ⟨?_, fun c hc => h.inside c (List.mem_cons_of_mem b hc),
    fun c hc => h.outside c (List.mem_cons_of_mem b hc), ?_,
    (List.pairwise_cons.mp h.apart).2, h.fault⟩
  · have hslots := h.slots
    rw [held_none hslot] at hslots
    exact hslots
  · have hheap := h.heap
    rw [List.filter_cons_of_pos (by rw [hslot]; rfl)] at hheap
    have herase := hheap.erase b
    rwa [List.erase_cons_head] at herase

theorem Ok.leave (h : m.Ok (b :: rest) left) (hslot : m.slot b.ptr = some i) :
    m.Ok rest (i :: left) := by
  refine ⟨?_, fun c hc => h.inside c (List.mem_cons_of_mem b hc),
    fun c hc => h.outside c (List.mem_cons_of_mem b hc), ?_,
    (List.pairwise_cons.mp h.apart).2, h.fault⟩
  · have hslots := h.slots
    rw [held_some hslot] at hslots
    exact hslots.trans List.perm_middle
  · have hheap := h.heap
    rw [List.filter_cons_of_neg (by rw [hslot]; simp)] at hheap
    exact hheap

theorem Ok.resize (h : m.Ok (b :: rest) left) (hslot : m.slot b.ptr = some i)
    (hsize : size ≤ poolBlockSize) : m.Ok (⟨b.ptr, size⟩ :: rest) left := by
  have htake := (h.giveSlot hslot).take (i := i) (Function.update_self _ _ _) hsize
  rw [mark_mark (h.used_of_slot hslot)] at htake
  rw [slot_eq_some.mp hslot]
  exact htake

theorem Ok.find_heap (h : m.Ok (b :: rest) left) (hslot : m.slot b.ptr = none) :
    m.heap.find? (·.ptr == b.ptr) = some b := by
  have hpairwise : m.heap.Pairwise Block.Apart :=
    (h.heap.pairwise_iff fun hbc => hbc.symm).mpr (h.apart.filter _)
  have hmem : b ∈ m.heap :=
    h.heap.mem_iff.mpr (List.mem_filter.mpr ⟨List.mem_cons_self, by rw [hslot]; rfl⟩)
  exact Block.find_block hpairwise hmem

end FlagMemory

/-! ## Runs -/

/-- What the C library's `malloc` and `realloc` can answer: memory apart from the pool and
from the blocks that stay live. -/
def FlagSysOk (m : FlagMemory) (live : List Block) (size : Nat) (sys : Option Nat) : Prop :=
  ∀ ptr ∈ sys, m.Outside ⟨ptr, size⟩ ∧ ∀ b ∈ live, Block.Apart ⟨ptr, size⟩ b

instance (m : FlagMemory) (live : List Block) (size : Nat) (sys : Option Nat) :
    Decidable (FlagSysOk m live size sys) := inferInstanceAs (Decidable (∀ ptr ∈ sys, _))

/-- The manager, the blocks callers hold, and the slots left behind. -/
structure FlagState where
  memory : FlagMemory
  live : List Block
  left : List (Fin poolNumBlocks)

def leftSlot (m : FlagMemory) (ptr size : Nat) (r : Option Nat) : List (Fin poolNumBlocks) :=
  match m.slot ptr, r with
  | some i, some _ => if size ≤ poolBlockSize then [] else [i]
  | _, _ => []

/-- The live blocks after `mec_realloc` of `b` returned `r`. -/
def flagMoved (m : FlagMemory) (r : Option Nat) (size : Nat) (b : Block) (rest : List Block) :
    List Block :=
  match r with
  | some ptr => ⟨ptr, size⟩ :: rest
  | none => if size = 0 ∧ m.slot b.ptr = none then rest else b :: rest

/-- A call, what it returned and how many slots it left behind. A pointer passed to
`mec_free` or `mec_realloc` is `NULL` or live. -/
def flagStep (s : FlagState) : AllocAct → Option (FlagState × Option Nat × Nat)
  | .malloc size sys =>
    if FlagSysOk s.memory s.live size sys then
      let r := s.memory.mecMalloc sys size
      some (⟨r.2, withNew r.1 size s.live, s.left⟩, r.1, 0)
    else none
  | .calloc nmemb size sys =>
    let totalSize := nmemb * size % 2 ^ 64
    if FlagSysOk s.memory s.live totalSize sys then
      let r := s.memory.mecCalloc sys nmemb size
      some (⟨r.2, withNew r.1 totalSize s.live, s.left⟩, r.1, 0)
    else none
  | .realloc none size sys =>
    if FlagSysOk s.memory s.live size sys then
      let r := s.memory.mecRealloc sys none size
      some (⟨r.2, withNew r.1 size s.live, s.left⟩, r.1, 0)
    else none
  | .realloc (some ptr) size sys =>
    match s.live.find? (·.ptr == ptr) with
    | none => none
    | some b =>
      if FlagSysOk s.memory (s.live.erase b) size sys then
        let r := s.memory.mecRealloc sys (some ptr) size
        let left := leftSlot s.memory ptr size r.1
        some (⟨r.2, flagMoved s.memory r.1 size b (s.live.erase b), left ++ s.left⟩, r.1,
          left.length)
      else none
  | .free none => some (⟨s.memory.mecFree none, s.live, s.left⟩, none, 0)
  | .free (some ptr) =>
    match s.live.find? (·.ptr == ptr) with
    | none => none
    | some b => some (⟨s.memory.mecFree (some ptr), s.live.erase b, s.left⟩, none, 0)

namespace FlagMemory

variable {m : FlagMemory} {b c : Block} {live rest : List Block}
  {left : List (Fin poolNumBlocks)} {sys : Option Nat} {size nmemb : Nat}

theorem malloc_ok (h : m.Ok live left) (hsys : FlagSysOk m live size sys) :
    (m.malloc sys size).2.Ok (withNew (m.malloc sys size).1 size live) left := by
  cases sys with
  | none => exact h
  | some ptr =>
    obtain ⟨hout, hapart⟩ := hsys ptr rfl
    exact h.grow hout hapart

theorem mecMalloc_ok (h : m.Ok live left) (hsys : FlagSysOk m live size sys) :
    (m.mecMalloc sys size).2.Ok (withNew (m.mecMalloc sys size).1 size live) left := by
  unfold mecMalloc
  split
  · next hsize =>
    split
    · next i hfirst => exact h.take (firstFree_some hfirst) hsize
    · exact malloc_ok h hsys
  · exact malloc_ok h hsys

theorem mecFree_bytes (m : FlagMemory) (ptr : Option Nat) : (m.mecFree ptr).bytes = m.bytes := by
  unfold mecFree free mark
  repeat' split
  all_goals rfl

theorem mecMalloc_bytes (m : FlagMemory) (sys : Option Nat) (size : Nat) :
    (m.mecMalloc sys size).2.bytes = m.bytes := by
  unfold mecMalloc malloc mark
  repeat' split
  all_goals rfl

theorem mecCalloc_ok (h : m.Ok live left)
    (hsys : FlagSysOk m live (nmemb * size % 2 ^ 64) sys) :
    (m.mecCalloc sys nmemb size).2.Ok
      (withNew (m.mecCalloc sys nmemb size).1 (nmemb * size % 2 ^ 64) live) left := by
  have hnew := mecMalloc_ok h hsys
  simp only [mecCalloc]
  split
  · next hres =>
    rw [hres] at hnew
    exact hnew.bytes _
  · next hres =>
    rw [hres] at hnew
    exact hnew

theorem mecFree_ok (h : m.Ok (b :: rest) left) : (m.mecFree (some b.ptr)).Ok rest left := by
  simp only [mecFree]
  split
  · next i hslot => exact h.giveSlot hslot
  · next hslot =>
    simp only [free, h.find_heap hslot]
    exact h.giveHeap hslot

theorem Outside.apart (h : m.Outside c) (hb : m.Ok (b :: rest) left) {i : Fin poolNumBlocks}
    (hslot : m.slot b.ptr = some i) : c.Apart b := by
  have hlt := m.data_lt i
  have hptr := slot_eq_some.mp hslot
  have hext : b.extent ≤ 1024 := hb.inside b List.mem_cons_self i hslot
  unfold Outside poolNumBlocks poolStride at h
  unfold Block.Apart
  omega

theorem mecRealloc_ok (h : m.Ok (b :: rest) left) (hsys : FlagSysOk m rest size sys) :
    (m.mecRealloc sys (some b.ptr) size).2.Ok
      (flagMoved m (m.mecRealloc sys (some b.ptr) size).1 size b rest)
      (leftSlot m b.ptr size (m.mecRealloc sys (some b.ptr) size).1 ++ left) := by
  cases hslot : m.slot b.ptr with
  | some i =>
    by_cases hsize : size ≤ poolBlockSize
    · simp only [mecRealloc, hslot, if_pos hsize, flagMoved, leftSlot]
      exact h.resize hslot hsize
    · cases sys with
      | none => simpa [mecRealloc, hslot, hsize, malloc, flagMoved, leftSlot] using h
      | some new =>
        obtain ⟨hout, hapart⟩ := hsys new rfl
        have hnew : ∀ c ∈ b :: rest, Block.Apart ⟨new, size⟩ c :=
          List.forall_mem_cons.mpr ⟨hout.apart h hslot, hapart⟩
        have hgrown := ((h.grow hout hnew).perm (.swap b _ rest)).leave (i := i) hslot
        simp only [mecRealloc, hslot, if_neg hsize, malloc, flagMoved, leftSlot]
        exact hgrown.bytes _
  | none =>
    by_cases hsize : size = 0
    · simp only [mecRealloc, hslot, realloc, free, h.find_heap hslot, flagMoved, leftSlot, hsize,
        and_self, if_true]
      exact h.giveHeap hslot
    · simp only [mecRealloc, hslot, realloc, if_neg hsize, h.find_heap hslot]
      cases sys with
      | none => simpa [flagMoved, leftSlot, hslot, hsize] using h
      | some new =>
        obtain ⟨hout, hapart⟩ := hsys new rfl
        simp only [flagMoved, leftSlot, hslot]
        exact ((h.giveHeap hslot).grow hout hapart).bytes _

end FlagMemory

section Steps

variable {s t : FlagState} {a : AllocAct} {r : Option Nat} {k : Nat}

def FlagState.Ok (s : FlagState) : Prop := s.memory.Ok s.live s.left

/-- A call keeps the pool in order and counts what it leaves behind. -/
theorem flagStep_ok (h : s.Ok) (hstep : flagStep s a = some (t, r, k)) :
    t.Ok ∧ t.left.length = s.left.length + k := by
  cases a with
  | malloc size sys =>
    obtain ⟨hsys, heq⟩ := Option.ite_none_right_eq_some.mp hstep
    cases heq
    exact ⟨FlagMemory.mecMalloc_ok h hsys, rfl⟩
  | calloc nmemb size sys =>
    obtain ⟨hsys, heq⟩ := Option.ite_none_right_eq_some.mp hstep
    cases heq
    exact ⟨FlagMemory.mecCalloc_ok h hsys, rfl⟩
  | realloc ptr size sys =>
    cases ptr with
    | none =>
      obtain ⟨hsys, heq⟩ := Option.ite_none_right_eq_some.mp hstep
      cases heq
      exact ⟨FlagMemory.malloc_ok h hsys, rfl⟩
    | some ptr =>
      simp only [flagStep] at hstep
      split at hstep
      · cases hstep
      · next b hfind =>
        obtain ⟨rfl, hperm⟩ := find_live hfind
        obtain ⟨hsys, heq⟩ := Option.ite_none_right_eq_some.mp hstep
        cases heq
        refine ⟨FlagMemory.mecRealloc_ok (h.perm hperm) hsys, ?_⟩
        rw [List.length_append, Nat.add_comm]
  | free ptr =>
    cases ptr with
    | none =>
      cases hstep
      exact ⟨h, rfl⟩
    | some ptr =>
      simp only [flagStep] at hstep
      split at hstep
      · cases hstep
      · next b hfind =>
        obtain ⟨rfl, hperm⟩ := find_live hfind
        cases hstep
        exact ⟨FlagMemory.mecFree_ok (h.perm hperm), rfl⟩

/-- **The pool, accounted for.** In every run the live blocks do not overlap and only the
C library's own blocks are handed back to it; and every slot of the pool is free, holds
a live block, or was left behind by one `mec_realloc` that moved its block to the heap. -/
theorem flagPool_accounted {base : Nat} {bytes : Nat → UInt8}
    {tr : List (AllocAct × Option Nat × Nat)}
    (hrun : Run flagStep ⟨.mecPoolInit base bytes, [], []⟩ tr s) :
    s.live.Pairwise Block.Apart ∧ s.memory.fault = false ∧
      (List.finRange poolNumBlocks).countP (fun i => !s.memory.used i) +
        s.live.countP (fun b => (s.memory.slot b.ptr).isSome) + (tr.map (·.2.2)).sum =
          poolNumBlocks := by
  obtain ⟨hok, hleft⟩ := hrun.history_nil
    (I := fun tr s => s.Ok ∧ s.left.length = (tr.map (·.2.2)).sum)
    (fun tr s a t e hs hstep => by
      obtain ⟨ht, hcount⟩ := flagStep_ok hs.1 hstep
      refine ⟨ht, ?_⟩
      rw [hcount, hs.2, List.map_append, List.sum_append]
      simp)
    ⟨.init base bytes, rfl⟩
  refine ⟨hok.apart, hok.fault, ?_⟩
  have hslots := hok.slots.length_eq
  have hall := List.length_eq_countP_add_countP s.memory.used (l := List.finRange poolNumBlocks)
  rw [List.length_append, FlagMemory.taken, ← List.countP_eq_length_filter,
    FlagMemory.held, List.length_filterMap_eq_countP] at hslots
  rw [List.length_finRange] at hall
  simp only [Bool.not_eq_true, Bool.decide_eq_false] at hall
  omega

def grownBlock : List (AllocAct × Option Nat × Nat) × FlagState :=
  play flagStep ⟨.mecPoolInit 4096 fun _ => 0, [], []⟩
    [.malloc 100 none, .malloc 1024 none, .realloc (some 4096) 5000 (some 100000),
      .free (some 5124)]

theorem flagPool_accounted_grown : (grownBlock.1.map (·.2.2)).sum = 1 ∧
    (List.finRange poolNumBlocks).countP (fun i => !grownBlock.2.memory.used i) +
      grownBlock.2.live.countP (fun b => (grownBlock.2.memory.slot b.ptr).isSome) +
        (grownBlock.1.map (·.2.2)).sum = poolNumBlocks :=
  ⟨by decide +kernel, (flagPool_accounted (run_play flagStep ⟨.mecPoolInit 4096 fun _ => 0, [], []⟩
    [.malloc 100 none, .malloc 1024 none, .realloc (some 4096) 5000 (some 100000),
      .free (some 5124)])).2.2⟩

/-! ## What is in the blocks -/

theorem flagCalloc_kept {m : FlagMemory} {live : List Block} {left : List (Fin poolNumBlocks)}
    {sys : Option Nat} {nmemb size : Nat} (h : m.Ok live left)
    (hsys : FlagSysOk m live (nmemb * size % 2 ^ 64) sys) {c : Block} (hc : c ∈ live) :
    SameOn m.bytes c.ptr (m.mecCalloc sys nmemb size).2.bytes c.ptr c.size := by
  have hbytes := FlagMemory.mecMalloc_bytes m sys (nmemb * size % 2 ^ 64)
  have hnew := FlagMemory.mecMalloc_ok h hsys
  simp only [FlagMemory.mecCalloc]
  split
  · next ptr m' hres =>
    rw [hres] at hnew hbytes
    intro i hi
    rw [← hbytes]
    exact memset_outside (((List.pairwise_cons.mp hnew.apart).1 c hc).outside hi)
  · next m' hres =>
    rw [hres] at hbytes
    rw [← hbytes]
    exact .refl

/-- The bytes of the blocks that stay, and of the one that `mec_realloc` moves. -/
theorem flagRealloc_kept {m : FlagMemory} {b : Block} {rest : List Block}
    {left : List (Fin poolNumBlocks)} {sys : Option Nat} {size : Nat}
    (h : m.Ok (b :: rest) left) (hsys : FlagSysOk m rest size sys) :
    (∀ c ∈ rest,
      SameOn m.bytes c.ptr (m.mecRealloc sys (some b.ptr) size).2.bytes c.ptr c.size) ∧
    (∀ new ∈ (m.mecRealloc sys (some b.ptr) size).1,
      SameOn m.bytes b.ptr (m.mecRealloc sys (some b.ptr) size).2.bytes new (min b.size size)) ∧
    ((m.mecRealloc sys (some b.ptr) size).1 = none →
      (m.mecRealloc sys (some b.ptr) size).2.bytes = m.bytes) := by
  -- copying at most `size` bytes to a new block touches no other
  have hcopy : ∀ {new n : Nat}, sys = some new → n ≤ size → ∀ c ∈ rest,
      SameOn m.bytes c.ptr (memcpy m.bytes new b.ptr n) c.ptr c.size := by
    rintro new n rfl hn c hc i hi
    have hout := ((hsys new rfl).2 c hc).outside hi
    simp only at hout
    exact memcpy_outside (by omega)
  cases hslot : m.slot b.ptr with
  | some i =>
    by_cases hsize : size ≤ poolBlockSize
    · simp only [FlagMemory.mecRealloc, hslot, if_pos hsize]
      refine ⟨fun c _ => .refl, ?_, fun hnone => by cases hnone⟩
      rintro new ⟨⟩
      exact .refl
    · cases sys with
      | none =>
        simp only [FlagMemory.mecRealloc, hslot, if_neg hsize, FlagMemory.malloc]
        exact ⟨fun c _ => .refl, fun new hnew => absurd hnew (Option.not_mem_none new),
          fun _ => trivial⟩
      | some new =>
        have hext : b.size ≤ poolBlockSize :=
          (Nat.le_max_left b.size 1).trans (h.inside b List.mem_cons_self i hslot)
        simp only [FlagMemory.mecRealloc, hslot, if_neg hsize, FlagMemory.malloc]
        refine ⟨hcopy rfl (Nat.le_of_not_le hsize), ?_, fun hnone => by cases hnone⟩
        rintro _ ⟨⟩ i hi
        exact memcpy_inside (hi.trans_le ((Nat.min_le_left _ _).trans hext))
  | none =>
    by_cases hsize : size = 0
    · simp only [FlagMemory.mecRealloc, hslot, FlagMemory.realloc, if_pos hsize, FlagMemory.free,
        h.find_heap hslot]
      exact ⟨fun c _ => .refl, fun new hnew => absurd hnew (Option.not_mem_none new),
        fun _ => trivial⟩
    · simp only [FlagMemory.mecRealloc, hslot, FlagMemory.realloc, if_neg hsize,
        h.find_heap hslot]
      cases sys with
      | none =>
        exact ⟨fun c _ => .refl, fun new hnew => absurd hnew (Option.not_mem_none new),
          fun _ => rfl⟩
      | some new =>
        refine ⟨hcopy rfl (Nat.min_le_right _ _), ?_, fun hnone => by cases hnone⟩
        rintro _ ⟨⟩ i hi
        exact memcpy_inside hi

/-- **Contents.** Whatever call is made in whatever reachable state, the blocks that were
live and still are keep their bytes, and a block that `mec_realloc` returns begins with
what the old one held, as far as both go. -/
theorem flagPool_keeps {base : Nat} {bytes : Nat → UInt8}
    {tr : List (AllocAct × Option Nat × Nat)}
    (hrun : Run flagStep ⟨.mecPoolInit base bytes, [], []⟩ tr s)
    (hstep : flagStep s a = some (t, r, k)) :
    (∀ c ∈ s.live, c ∈ t.live →
      SameOn s.memory.bytes c.ptr t.memory.bytes c.ptr c.size) ∧
    ∀ b ∈ s.live, ∀ size sys, a = .realloc (some b.ptr) size sys → ∀ new ∈ r,
      ⟨new, size⟩ ∈ t.live ∧
        SameOn s.memory.bytes b.ptr t.memory.bytes new (min b.size size) := by
  have h : s.Ok :=
    hrun.invariant (fun s a t e hs hstep => (flagStep_ok hs hstep).1) (.init base bytes)
  cases a with
  | malloc size sys =>
    obtain ⟨hsys, heq⟩ := Option.ite_none_right_eq_some.mp hstep
    cases heq
    refine ⟨fun c _ _ => ?_, fun b _ size sys heq => by cases heq⟩
    rw [FlagMemory.mecMalloc_bytes]
    exact .refl
  | calloc nmemb size sys =>
    obtain ⟨hsys, heq⟩ := Option.ite_none_right_eq_some.mp hstep
    cases heq
    exact ⟨fun c hc _ => flagCalloc_kept h hsys hc, fun b _ size sys heq => by cases heq⟩
  | realloc ptr size sys =>
    cases ptr with
    | none =>
      obtain ⟨hsys, heq⟩ := Option.ite_none_right_eq_some.mp hstep
      cases heq
      refine ⟨fun c _ _ => ?_, fun b _ size sys heq => by cases heq⟩
      cases sys <;> exact .refl
    | some ptr =>
      simp only [flagStep] at hstep
      split at hstep
      · cases hstep
      · next b hfind =>
        obtain ⟨rfl, hperm⟩ := find_live hfind
        obtain ⟨hsys, heq⟩ := Option.ite_none_right_eq_some.mp hstep
        cases heq
        have hok := h.perm hperm
        obtain ⟨hrest, hmoved, hnone⟩ := flagRealloc_kept hok hsys
        constructor
        · intro c hc hct
          rcases List.mem_cons.mp (hperm.subset hc) with rfl | hc
          · -- it was reallocated and is live as it was: in place, or not at all
            have hnot : c ∉ s.live.erase c := fun hmem =>
              ((List.pairwise_cons.mp hok.apart).1 c hmem).ptr_ne rfl
            cases hr : (s.memory.mecRealloc sys (some c.ptr) size).1 with
            | none =>
              rw [hnone hr]
              exact .refl
            | some new =>
              rw [hr] at hct
              rcases List.mem_cons.mp hct with heq | hmem
              · obtain ⟨rfl, rfl⟩ := Block.mk.inj heq
                have hsame := hmoved c.ptr hr
                rwa [Nat.min_self] at hsame
              · exact absurd hmem hnot
          · exact hrest c hc
        · rintro b' hb' size' sys' heq new hnew
          simp only [AllocAct.realloc.injEq, Option.some.injEq] at heq
          obtain ⟨hptr, rfl, rfl⟩ := heq
          have hbb : b' = b := by
            rcases List.mem_cons.mp (hperm.subset hb') with rfl | hmem
            · rfl
            · exact absurd hptr ((List.pairwise_cons.mp hok.apart).1 b' hmem).ptr_ne
          subst hbb
          refine ⟨?_, hmoved new hnew⟩
          rw [Option.mem_def] at hnew
          simp only [hnew, flagMoved]
          exact List.mem_cons_self
  | free ptr =>
    refine ⟨fun c _ _ => ?_, fun b _ size sys heq => by cases heq⟩
    cases ptr with
    | none =>
      cases hstep
      exact .refl
    | some ptr =>
      simp only [flagStep] at hstep
      split at hstep
      · cases hstep
      · next b hfind =>
        obtain ⟨rfl, hperm⟩ := find_live hfind
        cases hstep
        rw [FlagMemory.mecFree_bytes]
        exact .refl

theorem flagPool_keeps_grown :
    ∃ t, flagStep (play flagStep ⟨.mecPoolInit 4096 fun a => .ofNat a, [], []⟩
        [.malloc 100 none]).2 (.realloc (some 4096) 5000 (some 100000)) =
          some (t, some 100000, 1) ∧
      SameOn (fun a => UInt8.ofNat a) 4096 t.memory.bytes 100000 100 :=
  ⟨_, rfl, ((flagPool_keeps (a := .realloc (some 4096) 5000 (some 100000))
    (run_play flagStep ⟨.mecPoolInit 4096 fun a => .ofNat a, [], []⟩ [.malloc 100 none])
    rfl).2 ⟨4096, 100⟩ List.mem_cons_self 5000 _ rfl 100000 rfl).2⟩

end Steps

end Mec
