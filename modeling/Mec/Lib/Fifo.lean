import Mathlib.Logic.Function.Basic
import Mec.Lib.Lts

/-!
# A bounded FIFO with blocking, timed receivers

The abstract queue is a list of at most `cap` elements and the receivers that
sleep on it. A send appends if there is room and is refused otherwise. A
receive takes the first element; on the empty list it fails or falls asleep,
and only a receiver that fell asleep so may later give up. `conserved` is the
conservation law of its runs: the accepted elements are the taken ones followed
by those still queued.
-/

namespace Lib.Fifo

open Lib.Lts

variable {α : Type*}

structure Queue (α : Type*) where
  items : List α
  asleep : Nat → Bool

inductive Event (α : Type*) where
  | accepted (sender : Nat) (x : α)
  | refused (sender : Nat) (x : α)
  | taken (receiver : Nat) (x : α)
  | empty (receiver : Nat)
  | slept (receiver : Nat)
  | gaveUp (receiver : Nat)

inductive Next (cap : Nat) : Queue α → Event α → Queue α → Prop where
  | accept {l : List α} {z : Nat → Bool} (p : Nat) (x : α) :
      l.length < cap → Next cap ⟨l, z⟩ (.accepted p x) ⟨l ++ [x], z⟩
  | refuse {l : List α} {z : Nat → Bool} (p : Nat) (x : α) :
      ¬ l.length < cap → Next cap ⟨l, z⟩ (.refused p x) ⟨l, z⟩
  | take {l : List α} {z : Nat → Bool} (c : Nat) (x : α) :
      Next cap ⟨x :: l, z⟩ (.taken c x) ⟨l, Function.update z c false⟩
  | empty {z : Nat → Bool} (c : Nat) : Next cap ⟨[], z⟩ (.empty c) ⟨[], z⟩
  | sleep {z : Nat → Bool} (c : Nat) :
      Next cap ⟨[], z⟩ (.slept c) ⟨[], Function.update z c true⟩
  | giveUp {l : List α} {z : Nat → Bool} (c : Nat) :
      z c = true → Next cap ⟨l, z⟩ (.gaveUp c) ⟨l, Function.update z c false⟩

def accepted : List (Event α) → List (Nat × α) :=
  List.filterMap fun | .accepted p x => some (p, x) | _ => none

def taken : List (Event α) → List α :=
  List.filterMap fun | .taken _ x => some x | _ => none

theorem accepted_cons (e : Event α) (es : List (Event α)) :
    accepted (e :: es) = accepted [e] ++ accepted es := by
  rw [accepted, ← List.filterMap_append]; rfl

theorem taken_cons (e : Event α) (es : List (Event α)) :
    taken (e :: es) = taken [e] ++ taken es := by
  rw [taken, ← List.filterMap_append]; rfl

theorem Next.conserved {cap : Nat} {q q' : Queue α} {e : Event α} (h : Next cap q e q') :
    q.items ++ (accepted [e]).map Prod.snd = taken [e] ++ q'.items := by
  cases h <;> simp [accepted, taken]

/-- **Conservation.** The start contents and the accepted elements are the
taken elements and the end contents, in order. -/
theorem conserved {cap : Nat} {q q' : Queue α} {es : List (Event α)}
    (h : Steps (Next cap) q es q') :
    q.items ++ (accepted es).map Prod.snd = taken es ++ q'.items := by
  induction h with
  | nil => simp [accepted, taken]
  | cons hn _ ih =>
    rw [accepted_cons, taken_cons, List.map_append, ← List.append_assoc, hn.conserved,
      List.append_assoc, ih, List.append_assoc]

theorem taken_eq_take {cap : Nat} {z : Nat → Bool} {q : Queue α} {es : List (Event α)}
    (h : Steps (Next cap) ⟨[], z⟩ es q) :
    taken es = ((accepted es).take (taken es).length).map Prod.snd := by
  have hc : (accepted es).map Prod.snd = taken es ++ q.items := conserved h
  rw [List.map_take, hc, List.take_left]

end Lib.Fifo
