import Mec.Memory.Contents
import Mec.TrackList

/-!
# The buffer of a track list

`track_list.c` over the memory manager: the `track_list_t` comes from the C
library, its `tracks` from the pools or the heap, and every growth goes through
`mec_realloc`. A track is the bytes of its `target_track_t`. `listStep` runs one
list next to whatever else calls the manager or writes to memory; `Owned` says
that the buffer and the struct are live blocks, of nobody else.
-/

namespace Mec

open Lib.Lts Lib.Records

def trackBytes : Nat := 80
def listBytes : Nat := 64

abbrev TrackBytes := Fin trackBytes → UInt8

/-- A `track_list_t` at `self`. -/
structure RawList where
  self : Nat
  tracks : Nat
  count : Nat
  capacity : Nat
  refCount : Int

namespace RawList

def buffer (l : RawList) : Block := ⟨l.tracks, l.capacity * trackBytes⟩

def struct (l : RawList) : Block := ⟨l.self, listBytes⟩

/-- `tracks[0..count)`. -/
def contents (l : RawList) (m : Memory) : List TrackBytes :=
  records trackBytes m.bytes l.tracks l.count

/-- `list->tracks[list->count] = *track; list->count++`. -/
def store (l : RawList) (m : Memory) (track : TrackBytes) : RawList × Memory :=
  ({ l with count := l.count + 1 },
    { m with bytes := write trackBytes m.bytes (l.tracks + l.count * trackBytes) track })

end RawList

/-- `track_list_create` for `initial_capacity >= 0`, with the answers to its `malloc`
and to the one `mec_malloc` may make. -/
def rawListCreate (sysList sysTracks : Option Nat) (m : Memory) (initialCapacity : Nat) :
    Option RawList × Memory :=
  match sysMalloc sysList m listBytes with
  | (none, m) => (none, m)
  | (some self, m) =>
    match mecMalloc sysTracks m (initialCapacity * trackBytes) with
    | (none, m) => (none, freeBlock m self)
    | (some tracks, m) =>
      (some { self, tracks, count := 0, capacity := initialCapacity, refCount := 1 }, m)

/-- `track_list_add` on non-`NULL` pointers; undefined where the doubled capacity is
no `int`. -/
def rawListAdd (sys : Option Nat) (m : Memory) (list : RawList) (track : TrackBytes) :
    Option (Int × RawList × Memory) :=
  if list.count < list.capacity then some (0, list.store m track)
  else if list.capacity * 2 < 2 ^ 31 then
    let newCapacity := list.capacity * 2
    match mecRealloc sys m (some list.tracks) (newCapacity * trackBytes) with
    | (none, m) => some (-1, list, m)
    | (some tracks, m) =>
      some (0, { list with tracks, capacity := newCapacity }.store m track)
  else none

/-- `track_list_clear` on a non-`NULL` list. -/
def rawListClear (list : RawList) : RawList := { list with count := 0 }

/-- `track_list_release` on a non-`NULL` list: the list, if it is still there. -/
def rawListRelease (m : Memory) (list : RawList) : Option RawList × Memory :=
  let list := { list with refCount := list.refCount - 1 }
  if list.refCount ≤ 0 then (none, freeBlock (freeBlock m list.tracks) list.self)
  else (some list, m)

/-! ## A list among others -/

/-- One list, the memory manager and its live blocks; `overflowed` says that a
doubled capacity was no `int`. -/
structure ListSys where
  alloc : AllocState
  list : RawList
  overflowed : Bool

inductive ListAct where
  | add (track : TrackBytes) (sys : Option Nat)
  | clear
  | other (a : AllocAct)
  | write (bytes : Nat → UInt8)

/-- The list after a successful `track_list_create`. -/
def listCreate (sysList sysTracks : Option Nat) (s : AllocState) (initialCapacity : Nat) :
    Option ListSys :=
  if SysOk s.memory s.live listBytes sysList ∧ SysOk (sysMalloc sysList s.memory listBytes).2
      (withNew sysList listBytes s.live) (initialCapacity * trackBytes) sysTracks then
    match rawListCreate sysList sysTracks s.memory initialCapacity with
    | (some list, memory) =>
      some ⟨⟨memory, list.buffer :: withNew sysList listBytes s.live⟩, list, false⟩
    | (none, _) => none
  else none

/-- The live blocks after an add that returned `code` and left `list`. -/
def ListSys.liveAfter (s : ListSys) (code : Int) (list : RawList) : List Block :=
  if s.list.count < s.list.capacity then s.alloc.live
  else match s.alloc.live.find? (·.ptr == s.list.tracks) with
    | none => s.alloc.live
    | some b =>
      withMoved (if code = 0 then some list.tracks else none) (s.list.capacity * 2 * trackBytes) b
        (s.alloc.live.erase b)

/-- A call on the list with its result, a call of another component that is not
about the list's blocks, or a write of another component that leaves the buffer
alone. Nothing is known of what comes after an overflow. -/
def listStep (s : ListSys) (a : ListAct) : Option (ListSys × Option Int) :=
  if s.overflowed then none
  else match a with
    | .add track sys =>
      if s.list.count < s.list.capacity ∨ SysOk s.alloc.memory
          (s.alloc.live.filter (·.ptr != s.list.tracks)) (s.list.capacity * 2 * trackBytes) sys then
        match rawListAdd sys s.alloc.memory s.list track with
        | none => some ({ s with overflowed := true }, none)
        | some (code, list, memory) =>
          some (⟨⟨memory, s.liveAfter code list⟩, list, false⟩, some code)
      else none
    | .clear => some ({ s with list := rawListClear s.list }, none)
    | .other a =>
      if a.target ≠ some s.list.tracks ∧ a.target ≠ some s.list.self then
        (allocStep s.alloc a).map fun r => ({ s with alloc := r.1 }, none)
      else none
    | .write bytes =>
      if SameOn s.alloc.memory.bytes s.list.tracks bytes s.list.tracks s.list.buffer.size then
        some ({ s with alloc := ⟨{ s.alloc.memory with bytes }, s.alloc.live⟩ }, none)
      else none

/-- The buffer and the struct are live blocks; so no other live block overlaps them. -/
structure Owned (s : ListSys) : Prop where
  ok : AllocOk s.alloc.memory s.alloc.live
  buffer : s.list.buffer ∈ s.alloc.live
  struct : s.list.struct ∈ s.alloc.live
  distinct : s.list.tracks ≠ s.list.self
  defined : s.overflowed = false

section Steps

variable {s t : ListSys} {track : TrackBytes} {sys : Option Nat} {e : Option Int}

theorem SysOk.subset {m : Memory} {live live' : List Block} {size : Nat}
    (h : SysOk m live size sys) (hsub : live' ⊆ live) : SysOk m live' size sys := fun ptr hptr => by
  obtain ⟨hsmall, hmedium, hlive⟩ := h ptr hptr
  exact ⟨hsmall, hmedium, fun b hb => hlive b (hsub hb)⟩

theorem listStep_defined {a : ListAct} (hstep : listStep s a = some (t, e)) :
    s.overflowed = false := by
  unfold listStep at hstep
  split at hstep
  · cases hstep
  · next h => exact Bool.eq_false_iff.mpr h

namespace Owned

theorem erase_apart (h : Owned s) : ∀ c ∈ s.alloc.live.erase s.list.buffer,
    c.ptr ≠ s.list.tracks := by
  intro c hc heq
  have hok := h.ok.perm (List.perm_cons_erase h.buffer)
  exact (hok.pools.head_apart hc).ptr_ne heq.symm

theorem buffer_gone (h : Owned s) : s.list.buffer ∉ s.alloc.live.erase s.list.buffer :=
  fun hmem => h.erase_apart _ hmem rfl

theorem struct_mem (h : Owned s) : s.list.struct ∈ s.alloc.live.erase s.list.buffer :=
  mem_erase_of_ptr h.struct h.distinct

end Owned

/-- What an add can do: store, overflow, free an empty buffer, fail, or grow and
store. -/
theorem addStep_cases (h : Owned s) (hstep : listStep s (.add track sys) = some (t, e)) :
    (s.list.count < s.list.capacity ∧ e = some 0 ∧
      t = ⟨⟨(s.list.store s.alloc.memory track).2, s.alloc.live⟩,
        (s.list.store s.alloc.memory track).1, false⟩) ∨
    s.list.capacity ≤ s.list.count ∧
      ((2 ^ 31 ≤ s.list.capacity * 2 ∧ e = none ∧ t = { s with overflowed := true }) ∨
      (s.list.capacity = 0 ∧ e = some (-1) ∧
        t = ⟨⟨freeBlock s.alloc.memory s.list.tracks, s.alloc.live.erase s.list.buffer⟩,
          s.list, false⟩) ∨
      (0 < s.list.capacity ∧ s.list.capacity * 2 < 2 ^ 31 ∧ e = some (-1) ∧
        t = ⟨⟨s.alloc.memory, s.list.buffer :: s.alloc.live.erase s.list.buffer⟩,
          s.list, false⟩) ∨
      (0 < s.list.capacity ∧ s.list.capacity * 2 < 2 ^ 31 ∧ e = some 0 ∧ ∃ tracks m,
        MovedTo s.alloc.memory m s.list.buffer (s.alloc.live.erase s.list.buffer)
          ⟨tracks, s.list.capacity * 2 * trackBytes⟩ ∧
        t = ⟨⟨({ s.list with tracks, capacity := s.list.capacity * 2 }.store m track).2,
            ⟨tracks, s.list.capacity * 2 * trackBytes⟩ :: s.alloc.live.erase s.list.buffer⟩,
          ({ s.list with tracks, capacity := s.list.capacity * 2 }.store m track).1,
          false⟩)) := by
  have hfind : s.alloc.live.find? (·.ptr == s.list.tracks) = some s.list.buffer :=
    h.ok.find h.buffer
  simp only [listStep, h.defined, rawListAdd, ListSys.liveAfter, hfind] at hstep
  by_cases hlt : s.list.count < s.list.capacity
  · simp only [hlt, true_or, if_true] at hstep
    cases hstep
    exact .inl ⟨hlt, rfl, rfl⟩
  refine .inr ⟨Nat.le_of_not_lt hlt, ?_⟩
  simp only [hlt, false_or, if_false] at hstep
  split at hstep
  · cases hstep
  split at hstep
  swap
  · cases hstep
  next hsys =>
  have hsys' : SysOk s.alloc.memory (s.alloc.live.erase s.list.buffer)
      (s.list.capacity * 2 * trackBytes) sys := hsys.subset fun c hc => by
    refine List.mem_filter.mpr ⟨List.mem_of_mem_erase hc, ?_⟩
    simpa using h.erase_apart c hc
  by_cases hint : s.list.capacity * 2 < 2 ^ 31
  swap
  · rw [if_neg hint] at hstep
    cases hstep
    exact .inl ⟨Nat.le_of_not_lt hint, rfl, rfl⟩
  rw [if_pos hint] at hstep
  rcases Nat.eq_zero_or_pos s.list.capacity with hzero | hpos
  · have hsize : s.list.capacity * 2 * trackBytes = 0 := by rw [hzero]; rfl
    simp only [hsize, mecRealloc, if_true] at hstep
    cases hstep
    exact .inr (.inl ⟨hzero, rfl, rfl⟩)
  · have hsize : s.list.capacity * 2 * trackBytes ≠ 0 := by unfold trackBytes; omega
    have hok := h.ok.perm (List.perm_cons_erase h.buffer)
    rcases mecRealloc_moved hok hsys' hsize with hres | ⟨tracks, m, hres, hmoved⟩
    · rw [show mecRealloc sys s.alloc.memory (some s.list.tracks) _ = _ from hres] at hstep
      cases hstep
      refine .inr (.inr (.inl ⟨hpos, hint, rfl, ?_⟩))
      simp only [withMoved, if_neg hsize]
      rfl
    · rw [show mecRealloc sys s.alloc.memory (some s.list.tracks) _ = _ from hres] at hstep
      cases hstep
      exact .inr (.inr (.inr ⟨hpos, hint, rfl, tracks, m, hmoved, rfl⟩))

/-! ### Ownership -/

theorem Owned.store (h : Owned s) (track : TrackBytes) :
    Owned ⟨⟨(s.list.store s.alloc.memory track).2, s.alloc.live⟩,
      (s.list.store s.alloc.memory track).1, false⟩ :=
  ⟨h.ok.bytes _, h.buffer, h.struct, h.distinct, rfl⟩

theorem Owned.failed (h : Owned s) :
    Owned ⟨⟨s.alloc.memory, s.list.buffer :: s.alloc.live.erase s.list.buffer⟩, s.list, false⟩ :=
  ⟨h.ok.perm (List.perm_cons_erase h.buffer), List.mem_cons_self,
    List.mem_cons_of_mem _ h.struct_mem, h.distinct, rfl⟩

theorem Owned.grown (h : Owned s) {tracks capacity : Nat} {m : Memory}
    (hmoved : MovedTo s.alloc.memory m s.list.buffer (s.alloc.live.erase s.list.buffer)
      ⟨tracks, capacity * trackBytes⟩) :
    Owned ⟨⟨m, ⟨tracks, capacity * trackBytes⟩ :: s.alloc.live.erase s.list.buffer⟩,
      { s.list with tracks, capacity }, false⟩ := by
  refine ⟨hmoved.ok, List.mem_cons_self, List.mem_cons_of_mem _ h.struct_mem, fun heq => ?_, rfl⟩
  -- the new buffer is apart from the struct
  exact (hmoved.ok.pools.head_apart h.struct_mem).ptr_ne heq

/-- An add to a full list needs a capacity that can be doubled to a greater `int`. -/
def ListSys.Grows (s : ListSys) : ListAct → Prop
  | .add _ _ => s.list.count < s.list.capacity ∨
      (0 < s.list.capacity ∧ s.list.capacity * 2 < 2 ^ 31)
  | _ => True

instance (s : ListSys) : ∀ a, Decidable (s.Grows a)
  | .add _ _ => inferInstanceAs (Decidable (_ ∨ _))
  | .clear | .other _ | .write _ => inferInstanceAs (Decidable True)

theorem otherStep_kept {a : AllocAct} (h : Owned s)
    (hstep : listStep s (.other a) = some (t, e)) :
    Owned t ∧ t.list = s.list ∧ Kept s.alloc.memory t.alloc.memory s.list.buffer := by
  simp only [listStep, h.defined, Bool.false_eq_true, if_false] at hstep
  split at hstep
  · next htarget =>
    obtain ⟨⟨alloc, r⟩, hcall, heq⟩ := Option.map_eq_some_iff.mp hstep
    cases heq
    obtain ⟨hbuffer, hkept⟩ := allocStep_kept h.ok hcall h.buffer htarget.1
    obtain ⟨hstruct, -⟩ := allocStep_kept h.ok hcall h.struct htarget.2
    exact ⟨⟨allocStep_ok h.ok hcall, hbuffer, hstruct, h.distinct, rfl⟩, rfl, hkept⟩
  · cases hstep

theorem writeStep_kept {bytes : Nat → UInt8} (h : Owned s)
    (hstep : listStep s (.write bytes) = some (t, e)) :
    Owned t ∧ t.list = s.list ∧ Kept s.alloc.memory t.alloc.memory s.list.buffer := by
  simp only [listStep, h.defined, Bool.false_eq_true, if_false] at hstep
  split at hstep
  · next hsame =>
    cases hstep
    exact ⟨⟨h.ok.bytes bytes, h.buffer, h.struct, h.distinct, rfl⟩, rfl, hsame⟩
  · cases hstep

theorem clearStep_eq (h : Owned s) (hstep : listStep s .clear = some (t, e)) :
    t = ⟨s.alloc, rawListClear s.list, false⟩ := by
  simp only [listStep, h.defined, Bool.false_eq_true, if_false] at hstep
  cases hstep
  rfl

/-- **One step** keeps the buffer with the list exactly if an add to a full list can
grow it. -/
theorem listStep_owned {a : ListAct} (h : Owned s) (hstep : listStep s a = some (t, e)) :
    Owned t ↔ s.Grows a := by
  cases a with
  | add track sys =>
    rcases addStep_cases h hstep with ⟨hlt, -, rfl⟩ | ⟨hfull, hcase⟩
    · exact iff_of_true (h.store track) (.inl hlt)
    · rcases hcase with ⟨hint, -, rfl⟩ | ⟨hzero, -, rfl⟩ | ⟨hpos, hint, -, rfl⟩ |
        ⟨hpos, hint, -, tracks, m, hmoved, rfl⟩
      · exact iff_of_false (fun hown => nomatch hown.defined)
          (fun hgrows => by rcases hgrows with h | ⟨-, h⟩ <;> omega)
      · exact iff_of_false (fun hown => h.buffer_gone hown.buffer)
          (fun hgrows => by rcases hgrows with h | ⟨h, -⟩ <;> omega)
      · exact iff_of_true h.failed (.inr ⟨hpos, hint⟩)
      · exact iff_of_true ((h.grown hmoved).store track) (.inr ⟨hpos, hint⟩)
  | clear =>
    obtain rfl := clearStep_eq h hstep
    exact iff_of_true ⟨h.ok, h.buffer, h.struct, h.distinct, rfl⟩ trivial
  | other a => exact iff_of_true (otherStep_kept h hstep).1 trivial
  | write bytes => exact iff_of_true (writeStep_kept h hstep).1 trivial

/-! ### The sequence -/

/-- What a step does to the sequence of the tracks added since the last clear. -/
def addedStep (added : List TrackBytes) (x : ListAct × Option Int) : List TrackBytes :=
  match x.1 with
  | .add track _ => if x.2 = some 0 then added ++ [track] else added
  | .clear => []
  | _ => added

def addedSince (tr : List (ListAct × Option Int)) : List TrackBytes := tr.foldl addedStep []

/-- The list holds these tracks. -/
structure Holds (s : ListSys) (added : List TrackBytes) : Prop where
  owned : Owned s
  pos : 0 < s.list.capacity
  count_le : s.list.count ≤ s.list.capacity
  contents : s.list.contents s.alloc.memory = added

variable {added : List TrackBytes}

theorem store_contents (l : RawList) (m : Memory) (track : TrackBytes) :
    (l.store m track).1.contents (l.store m track).2 = l.contents m ++ [track] := records_write

theorem contents_kept {m m' : Memory} {l : RawList} (hle : l.count ≤ l.capacity)
    (h : Kept m m' l.buffer) : l.contents m' = l.contents m :=
  records_same (h.mono (Nat.mul_le_mul_right trackBytes hle))

theorem Holds.kept (h : Holds s added) (howned : Owned t) (hlist : t.list = s.list)
    (hkept : Kept s.alloc.memory t.alloc.memory s.list.buffer) : Holds t added := by
  refine ⟨howned, by rw [hlist]; exact h.pos, by rw [hlist]; exact h.count_le, ?_⟩
  rw [hlist, contents_kept h.count_le hkept, h.contents]

/-- A full list moved to a buffer twice as large holds the same tracks. -/
theorem Holds.moved (h : Holds s added) {tracks : Nat} {m : Memory}
    (hfull : s.list.capacity ≤ s.list.count)
    (hmoved : MovedTo s.alloc.memory m s.list.buffer (s.alloc.live.erase s.list.buffer)
      ⟨tracks, s.list.capacity * 2 * trackBytes⟩) :
    RawList.contents { s.list with tracks, capacity := s.list.capacity * 2 } m = added := by
  rw [← h.contents]
  refine records_same (hmoved.copied.mono ?_)
  have hcount : s.list.count = s.list.capacity := Nat.le_antisymm h.count_le hfull
  show s.list.count * 80 ≤ min (s.list.capacity * 80) (s.list.capacity * 2 * 80)
  omega

theorem listStep_holds {a : ListAct} (h : Holds s added) (hstep : listStep s a = some (t, e))
    (hint : t.overflowed = false) : Holds t (addedStep added (a, e)) := by
  cases a with
  | add track sys =>
    rcases addStep_cases h.owned hstep with ⟨hlt, rfl, rfl⟩ | ⟨hfull, hcase⟩
    · refine ⟨h.owned.store track, h.pos, hlt, ?_⟩
      rw [← h.contents]
      exact store_contents s.list s.alloc.memory track
    · rcases hcase with ⟨-, -, rfl⟩ | ⟨hzero, -, rfl⟩ | ⟨-, -, rfl, rfl⟩ |
        ⟨-, -, rfl, tracks, m, hmoved, rfl⟩
      · cases hint
      · exact absurd hzero h.pos.ne'
      · exact ⟨h.owned.failed, h.pos, h.count_le, h.contents⟩
      · have hpos := h.pos
        have hle := h.count_le
        refine ⟨(h.owned.grown hmoved).store track, ?_, ?_, ?_⟩
        · show 0 < s.list.capacity * 2
          omega
        · show s.list.count + 1 ≤ s.list.capacity * 2
          omega
        · rw [← h.moved hfull hmoved]
          exact store_contents _ m track
  | clear =>
    obtain rfl := clearStep_eq h.owned hstep
    have howned := (listStep_owned h.owned hstep).mpr trivial
    exact ⟨howned, h.pos, Nat.zero_le _, rfl⟩
  | other a =>
    obtain ⟨howned, hlist, hkept⟩ := otherStep_kept h.owned hstep
    exact h.kept howned hlist hkept
  | write bytes =>
    obtain ⟨howned, hlist, hkept⟩ := writeStep_kept h.owned hstep
    exact h.kept howned hlist hkept

/-! ### The list of the other modules -/

section Refinement

variable {K : Type} (decode : TrackBytes → TargetTrack K)

def RawList.trackList (l : RawList) (m : Memory) (hle : l.count ≤ l.capacity) : TrackList K where
  tracks := (records trackBytes m.bytes l.tracks l.capacity).map decode
  count := l.count
  capacity := l.capacity
  refCount := l.refCount
  tracks_length := by rw [List.length_map, records_length]
  count_le := hle

theorem trackList_store {l : RawList} {m : Memory} (hlt : l.count < l.capacity) :
    (l.store m track).1.trackList decode (l.store m track).2 hlt =
      (l.trackList decode m hlt.le).store (decode track) hlt := by
  refine TrackList.ext ?_ rfl rfl rfl
  exact (congrArg (List.map decode) records_write_set).trans List.map_set

/-- **Refinement.** An add with its result is `trackListAdd` on the list the buffer
stands for, with the cells that `mec_realloc` left behind the old ones. -/
theorem listStep_add_refines {code : Int} (h : Holds s added)
    (hstep : listStep s (.add track sys) = some (t, some code)) :
    ∃ fresh hle, trackListAdd fresh (s.list.trackList decode s.alloc.memory h.count_le)
      (decode track) = (code, t.list.trackList decode t.alloc.memory hle) := by
  rcases addStep_cases h.owned hstep with ⟨hlt, hcode, rfl⟩ | ⟨hfull, hcase⟩
  · cases hcode
    exact ⟨none, hlt, by rw [trackListAdd_of_lt hlt, trackList_store decode hlt]⟩
  have hnot : ¬ (s.list.trackList decode s.alloc.memory h.count_le).count <
      (s.list.trackList decode s.alloc.memory h.count_le).capacity := Nat.not_lt.mpr hfull
  have hne : (s.list.trackList decode s.alloc.memory h.count_le).capacity ≠ 0 := h.pos.ne'
  rcases hcase with ⟨-, hcode, -⟩ | ⟨hzero, -, -⟩ | ⟨-, -, hcode, rfl⟩ |
    ⟨-, -, hcode, tracks, m, hmoved, rfl⟩
  · cases hcode
  · exact absurd hzero h.pos.ne'
  · cases hcode
    exact ⟨none, h.count_le, by rw [trackListAdd, dif_neg hnot, dif_neg hne]⟩
  · cases hcode
    have hlt : s.list.count < s.list.capacity * 2 := by
      have hle := h.count_le
      have hpos := h.pos
      omega
    refine ⟨some fun k => decode (read trackBytes m.bytes
      (tracks + (s.list.capacity + k) * trackBytes)), hlt, ?_⟩
    have hold : records trackBytes m.bytes tracks s.list.capacity =
        records trackBytes s.alloc.memory.bytes s.list.tracks s.list.capacity := by
      refine records_same (hmoved.copied.mono ?_)
      show s.list.capacity * 80 ≤ min (s.list.capacity * 80) (s.list.capacity * 2 * 80)
      omega
    have hcells : (records trackBytes m.bytes tracks (s.list.capacity * 2)).map decode =
        (records trackBytes s.alloc.memory.bytes s.list.tracks s.list.capacity).map decode ++
          (List.range s.list.capacity).map fun k => decode (read trackBytes m.bytes
            (tracks + (s.list.capacity + k) * trackBytes)) := by
      rw [Nat.mul_two, records_add, List.map_append, List.map_map, hold]
      rfl
    rw [trackListAdd, dif_neg hnot, dif_neg hne, trackList_store decode hlt]
    refine congrArg (Prod.mk 0) (TrackList.ext ?_ rfl rfl rfl)
    exact congrArg (List.set · s.list.count (decode track)) hcells.symm

end Refinement

/-! ### Creation and release -/

theorem listCreate_holds {s₀ : AllocState} (h₀ : AllocOk s₀.memory s₀.live)
    {sysList sysTracks : Option Nat} {initialCapacity : Nat}
    (hcreate : listCreate sysList sysTracks s₀ initialCapacity = some s) :
    Owned s ∧ s.list.count = 0 ∧ s.list.capacity = initialCapacity ∧ s.list.refCount = 1 := by
  unfold listCreate at hcreate
  split at hcreate
  swap
  · cases hcreate
  next hsys =>
  obtain ⟨hlist, htracks⟩ := hsys
  unfold rawListCreate at hcreate
  have hstruct := sysMalloc_ok h₀ hlist
  cases sysList with
  | none => cases hcreate
  | some self =>
    have hok := mecMalloc_ok hstruct htracks
    simp only [sysMalloc] at hcreate hok
    generalize mecMalloc sysTracks _ (initialCapacity * trackBytes) = r at hcreate hok
    obtain ⟨_ | tracks, m⟩ := r
    · cases hcreate
    · cases hcreate
      refine ⟨⟨hok, List.mem_cons_self, List.mem_cons_of_mem _ List.mem_cons_self,
        fun heq => ?_, rfl⟩, rfl, rfl, rfl⟩
      -- the buffer was allocated while the struct was live
      exact (hok.pools.head_apart List.mem_cons_self).ptr_ne heq

/-- The release that drops the last reference gives the buffer and then the struct
back, each once. -/
def FreedOnce (s : ListSys) : Prop :=
  let freed := freeBlock s.alloc.memory s.list.tracks
  GivenBack s.alloc.memory freed s.list.buffer [] ∧
    GivenBack freed (freeBlock freed s.list.self) s.list.struct [] ∧
    rawListRelease s.alloc.memory s.list = (none, freeBlock freed s.list.self)

theorem Owned.freedOnce (h : Owned s) (href : s.list.refCount = 1) : FreedOnce s := by
  have hbuffer := h.ok.perm (List.perm_cons_erase h.buffer)
  have hstruct := (freeBlock_ok hbuffer).perm (List.perm_cons_erase h.struct_mem)
  refine ⟨freeBlock_givenBack hbuffer, freeBlock_givenBack hstruct, ?_⟩
  unfold rawListRelease
  rw [href]
  rfl

theorem rawListAdd_refCount {m m' : Memory} {l l' : RawList} {code : Int}
    (h : rawListAdd sys m l track = some (code, l', m')) : l'.refCount = l.refCount := by
  unfold rawListAdd at h
  split at h
  · cases h
    rfl
  · split at h
    · simp only at h
      split at h <;> (cases h; rfl)
    · cases h

theorem listStep_refCount {a : ListAct} (hstep : listStep s a = some (t, e)) :
    t.list.refCount = s.list.refCount := by
  have hdef := listStep_defined hstep
  cases a with
  | add track sys =>
    simp only [listStep, hdef, Bool.false_eq_true, if_false] at hstep
    split at hstep
    · split at hstep
      · cases hstep
        rfl
      · next hadd =>
        cases hstep
        exact rawListAdd_refCount hadd
    · cases hstep
  | clear =>
    simp only [listStep, hdef, Bool.false_eq_true, if_false] at hstep
    cases hstep
    rfl
  | other a =>
    simp only [listStep, hdef, Bool.false_eq_true, if_false] at hstep
    split at hstep
    · obtain ⟨_, -, heq⟩ := Option.map_eq_some_iff.mp hstep
      cases heq
      rfl
    · cases hstep
  | write bytes =>
    simp only [listStep, hdef, Bool.false_eq_true, if_false] at hstep
    split at hstep
    · cases hstep
      rfl
    · cases hstep

/-! ### Runs -/

section Runs

variable {s₀ : AllocState} {start : ListSys} {sysList sysTracks : Option Nat}
  {initialCapacity : Nat} {tr : List (ListAct × Option Int)}

/-- **A track list is a growable sequence.** In every run of adds and clears on a list
created with room for a track, amid other components' calls and writes, in which
no doubled capacity leaves `int`: the count is within the capacity, the list
holds the tracks added since the last clear, in order, and an add that returns -1
changes nothing. -/
theorem track_list_sequence (h₀ : Reachable s₀) (hcap : 1 ≤ initialCapacity)
    (hcreate : listCreate sysList sysTracks s₀ initialCapacity = some start)
    (h : Run listStep start tr s) (hint : s.overflowed = false) :
    s.list.count ≤ s.list.capacity ∧ s.list.contents s.alloc.memory = addedSince tr ∧
      ∀ track sys t, listStep s (.add track sys) = some (t, some (-1)) →
        t.list = s.list ∧ t.alloc.memory = s.alloc.memory ∧ t.alloc.live.Perm s.alloc.live := by
  obtain ⟨howned, hcount, hcapacity, -⟩ := listCreate_holds h₀.ok hcreate
  have hstart : Holds start [] := by
    refine ⟨howned, by omega, by omega, ?_⟩
    rw [RawList.contents, hcount, records_zero]
  have hrun : ([] ++ tr : List _) = tr := List.nil_append tr
  have hs : Holds s (addedSince tr) := by
    rw [← hrun]
    refine Run.history (I := fun tr s => s.overflowed = false → Holds s (addedSince tr))
      (fun tr s a t e hs hstep hint => ?_) h (fun _ => hstart) hint
    rw [addedSince, List.foldl_concat]
    exact listStep_holds (hs (listStep_defined hstep)) hstep hint
  refine ⟨hs.count_le, hs.contents, fun track sys t hstep => ?_⟩
  rcases addStep_cases hs.owned hstep with ⟨-, hcode, -⟩ | ⟨-, hcase⟩
  · cases hcode
  · rcases hcase with ⟨-, hcode, -⟩ | ⟨hzero, -, -⟩ | ⟨-, -, -, rfl⟩ | ⟨-, -, hcode, -⟩
    · cases hcode
    · exact absurd hzero hs.pos.ne'
    · exact ⟨rfl, rfl, (List.perm_cons_erase hs.owned.buffer).symm⟩
    · cases hcode

/-- **A track list's buffer is freed exactly once**, and is the list's until then, in
exactly the runs whose adds meet `Grows`: when the list is full, its capacity is
not 0 and its double is an `int`. -/
theorem track_list_freed_once (h₀ : Reachable s₀)
    (hcreate : listCreate sysList sysTracks s₀ initialCapacity = some start)
    (h : Run listStep start tr s) :
    ((∀ tr₁ tr₂ t, tr = tr₁ ++ tr₂ → Run listStep start tr₁ t → Owned t) ∧ FreedOnce s) ↔
      ∀ tr₁ a e tr₂ t, tr = tr₁ ++ (a, e) :: tr₂ → Run listStep start tr₁ t → t.Grows a := by
  obtain ⟨howned, -, -, href⟩ := listCreate_holds h₀.ok hcreate
  have hall := h.stepwise (I := fun s => s.list.refCount = 1) (P := Owned) (K := ListSys.Grows)
    (fun _ _ _ _ href hstep => (listStep_refCount hstep).trans href)
    (fun _ _ _ _ _ hown hstep => listStep_owned hown hstep) href howned
  have href' : s.list.refCount = 1 := h.invariant (I := fun s => s.list.refCount = 1)
    (fun _ _ _ _ href hstep => (listStep_refCount hstep).trans href) href
  rw [← hall]
  exact ⟨And.left, fun hown => ⟨hown, (hown tr [] s (by simp) h).freedOnce href'⟩⟩

end Runs

end Steps

def createdList (initialCapacity : Nat) : Option ListSys :=
  listCreate (some 0x90000) none mallocOnce initialCapacity

def listOfOne : ListSys := (createdList 1).get (by decide)

theorem listOfOne_created : createdList 1 = some listOfOne := (Option.some_get _).symm

def grownList : List ListAct := [.add (fun _ => 7) none, .clear, .add (fun _ => 8) none,
  .other (.malloc 50 none), .add (fun _ => 9) none, .add (fun _ => 10) none]

theorem track_list_sequence_grown :
    let run := play listStep listOfOne grownList
    run.1.map Prod.snd = [some 0, none, some 0, none, some 0, some 0] ∧
      run.2.list.capacity = 4 ∧
      run.2.list.contents run.2.alloc.memory = [fun _ => 8, fun _ => 9, fun _ => 10] := by
  have h := track_list_sequence reachable_mallocOnce (Nat.le_refl 1) listOfOne_created
    (run_play listStep listOfOne grownList) (by decide +kernel)
  exact ⟨by decide +kernel, by decide +kernel, h.2.1⟩

theorem track_list_freed_once_grown : FreedOnce (play listStep listOfOne grownList).2 := by
  have hmeets : Meets listStep ListSys.Grows listOfOne grownList := by decide +kernel
  exact ((track_list_freed_once reachable_mallocOnce listOfOne_created
    (run_play listStep listOfOne grownList)).mpr (meets_play hmeets)).2

def listOfNone : ListSys := (createdList 0).get (by decide)

/-- A list of capacity 0: the add that returns -1 frees the buffer, the release frees
it again, and the slot is on the free stack twice. -/
theorem empty_list_freed_twice : ∃ s, Reachable mallocOnce ∧
    listCreate (some 0x90000) none mallocOnce 0 = some listOfNone ∧
      Run listStep listOfNone [(.add (fun _ => 7) none, some (-1))] s ∧ ¬ Owned s ∧
      (rawListRelease s.alloc.memory s.list).2.small.free.count
        (s.alloc.memory.small.index s.list.tracks) = 2 := by
  refine ⟨((listStep listOfNone (.add (fun _ => 7) none)).get rfl).1,
    reachable_mallocOnce, (Option.some_get _).symm, .single rfl, fun hown => ?_, by decide⟩
  exact absurd hown.buffer (by decide)

end Mec
