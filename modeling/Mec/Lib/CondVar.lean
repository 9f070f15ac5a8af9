import Mathlib.Data.Finset.Card

/-!
# Waiters of a condition variable

A thread inside a wait is blocked, or a signal has picked it and it has not
resumed, or it left the wait by itself (a spurious wake-up, a timeout) and has
not resumed. The three sets are disjoint by construction; every move takes one
thread from one set to another, so it keeps that without a side condition.

`Covers w n`: if somebody is blocked, there are at least as many picked threads
as items, `n`. A producer that signals once for each item keeps it, and so does
everything a consumer can do, as long as it blocks only when `n = 0`.
-/

namespace Lib.CondVar

variable {ι : Type*} [DecidableEq ι]

structure Waiters (ι : Type*) [DecidableEq ι] where
  blocked : Finset ι
  signalled : Finset ι
  roused : Finset ι
  blocked_signalled : Disjoint blocked signalled
  blocked_roused : Disjoint blocked roused
  signalled_roused : Disjoint signalled roused

namespace Waiters

def none : Waiters ι := ⟨∅, ∅, ∅, by simp, by simp, by simp⟩

/-- The threads that have not come back from their wait. -/
def inside (w : Waiters ι) : Finset ι := w.blocked ∪ w.signalled ∪ w.roused

def resume (w : Waiters ι) (c : ι) : Waiters ι where
  blocked := w.blocked.erase c
  signalled := w.signalled.erase c
  roused := w.roused.erase c
  blocked_signalled := w.blocked_signalled.mono (Finset.erase_subset _ _) (Finset.erase_subset _ _)
  blocked_roused := w.blocked_roused.mono (Finset.erase_subset _ _) (Finset.erase_subset _ _)
  signalled_roused := w.signalled_roused.mono (Finset.erase_subset _ _) (Finset.erase_subset _ _)

def block (w : Waiters ι) (c : ι) : Waiters ι where
  blocked := insert c w.blocked
  signalled := w.signalled.erase c
  roused := w.roused.erase c
  blocked_signalled := by
    have h := w.blocked_signalled
    rw [Finset.disjoint_insert_left]
    exact ⟨Finset.notMem_erase _ _, h.mono_right (Finset.erase_subset _ _)⟩
  blocked_roused := by
    have h := w.blocked_roused
    rw [Finset.disjoint_insert_left]
    exact ⟨Finset.notMem_erase _ _, h.mono_right (Finset.erase_subset _ _)⟩
  signalled_roused := w.signalled_roused.mono (Finset.erase_subset _ _) (Finset.erase_subset _ _)

def signal (w : Waiters ι) (c : ι) : Waiters ι where
  blocked := w.blocked.erase c
  signalled := insert c w.signalled
  roused := w.roused.erase c
  blocked_signalled := by
    rw [Finset.disjoint_insert_right]
    exact ⟨Finset.notMem_erase _ _, w.blocked_signalled.mono_left (Finset.erase_subset _ _)⟩
  blocked_roused := w.blocked_roused.mono (Finset.erase_subset _ _) (Finset.erase_subset _ _)
  signalled_roused := by
    rw [Finset.disjoint_insert_left]
    exact ⟨Finset.notMem_erase _ _, w.signalled_roused.mono_right (Finset.erase_subset _ _)⟩

def rouse (w : Waiters ι) (c : ι) : Waiters ι where
  blocked := w.blocked.erase c
  signalled := w.signalled.erase c
  roused := insert c w.roused
  blocked_signalled := w.blocked_signalled.mono (Finset.erase_subset _ _) (Finset.erase_subset _ _)
  blocked_roused := by
    rw [Finset.disjoint_insert_right]
    exact ⟨Finset.notMem_erase _ _, w.blocked_roused.mono_left (Finset.erase_subset _ _)⟩
  signalled_roused := by
    rw [Finset.disjoint_insert_right]
    exact ⟨Finset.notMem_erase _ _, w.signalled_roused.mono_left (Finset.erase_subset _ _)⟩

variable {w : Waiters ι} {c d : ι} {n : Nat}

theorem mem_inside : d ∈ w.inside ↔ d ∈ w.blocked ∨ d ∈ w.signalled ∨ d ∈ w.roused := by
  unfold inside
  rw [Finset.mem_union, Finset.mem_union, or_assoc]

theorem notMem_inside_none : d ∉ (none : Waiters ι).inside := by
  simp [mem_inside, none]

theorem mem_inside_resume : d ∈ (w.resume c).inside ↔ d ≠ c ∧ d ∈ w.inside := by
  simp only [mem_inside, resume, Finset.mem_erase]
  tauto

theorem mem_inside_block : d ∈ (w.block c).inside ↔ d = c ∨ d ∈ w.inside := by
  simp only [mem_inside, block, Finset.mem_erase, Finset.mem_insert]
  tauto

theorem mem_inside_signal : d ∈ (w.signal c).inside ↔ d = c ∨ d ∈ w.inside := by
  simp only [mem_inside, signal, Finset.mem_erase, Finset.mem_insert]
  tauto

theorem mem_inside_rouse : d ∈ (w.rouse c).inside ↔ d = c ∨ d ∈ w.inside := by
  simp only [mem_inside, rouse, Finset.mem_erase, Finset.mem_insert]
  tauto

theorem notMem_signalled_of_blocked (h : c ∈ w.blocked) : c ∉ w.signalled :=
  Finset.disjoint_left.mp w.blocked_signalled h

theorem notMem_signalled_of_roused (h : c ∈ w.roused) : c ∉ w.signalled :=
  Finset.disjoint_right.mp w.signalled_roused h

/-- Whoever is blocked, the items are spoken for by the picked threads. -/
def Covers (w : Waiters ι) (n : Nat) : Prop := w.blocked.Nonempty → n ≤ w.signalled.card

theorem covers_zero (w : Waiters ι) : w.Covers 0 := fun _ => Nat.zero_le _

theorem Covers.mono {m : Nat} (h : w.Covers n) (hm : m ≤ n) : w.Covers m :=
  fun hb => hm.trans (h hb)

theorem Covers.signal (h : w.Covers n) (hc : c ∈ w.blocked) : (w.signal c).Covers (n + 1) := by
  intro _
  show n + 1 ≤ (insert c w.signalled).card
  rw [Finset.card_insert_of_notMem (notMem_signalled_of_blocked hc)]
  exact Nat.succ_le_succ (h ⟨c, hc⟩)

theorem covers_of_unblocked (h : w.blocked = ∅) (n : Nat) : w.Covers n := by
  intro hb
  rw [h] at hb
  exact absurd hb Finset.not_nonempty_empty

theorem Covers.rouse (h : w.Covers n) (hc : c ∈ w.blocked) : (w.rouse c).Covers n := by
  rintro ⟨d, hd⟩
  show n ≤ (w.signalled.erase c).card
  rw [Finset.erase_eq_of_notMem (notMem_signalled_of_blocked hc)]
  exact h ⟨c, hc⟩

theorem Covers.resume (h : w.Covers n) (hc : c ∉ w.signalled) : (w.resume c).Covers n := by
  rintro ⟨d, hd⟩
  show n ≤ (w.signalled.erase c).card
  rw [Finset.erase_eq_of_notMem hc]
  exact h ⟨d, Finset.mem_of_mem_erase hd⟩

/-- A picked thread comes back and takes the item it was picked for. -/
theorem Covers.resume_taking (h : w.Covers (n + 1)) : (w.resume c).Covers n := by
  rintro ⟨d, hd⟩
  have hcard := h ⟨d, Finset.mem_of_mem_erase hd⟩
  have := Finset.pred_card_le_card_erase (s := w.signalled) (a := c)
  show n ≤ (w.signalled.erase c).card
  omega

end Waiters

end Lib.CondVar
