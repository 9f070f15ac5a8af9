import Mathlib.Data.List.Basic
import Mathlib.Data.Nat.ModEq

/-!
# Windows of a ring buffer

`window buf head n` is the list of the `n` cells of `buf` met from index
`head` on, wrapping at the end of the buffer. The lemmas give the effect of
the two edits a bounded queue makes: writing the cell just behind the window
(`window_push`) and moving the head over its first cell (`window_pop`).
-/

namespace Lib.Ring

variable {α : Type*}

/-- The `n` cells met from `head` on, wrapping. -/
def window (buf : List α) (head n : Nat) : List α :=
  (List.range n).filterMap fun k => buf[(head + k) % buf.length]?

@[simp] theorem window_zero (buf : List α) (head : Nat) : window buf head 0 = [] := rfl

theorem window_succ (buf : List α) (head n : Nat) :
    window buf head (n + 1) = window buf head n ++ (buf[(head + n) % buf.length]?).toList := by
  unfold window
  rw [List.range_succ, List.filterMap_append]
  cases h : buf[(head + n) % buf.length]? <;> simp [h]

theorem getElem?_mod {buf : List α} (h : 0 < buf.length) (i : Nat) :
    ∃ x, buf[i % buf.length]? = some x :=
  ⟨_, List.getElem?_eq_getElem (Nat.mod_lt _ h)⟩

@[simp] theorem window_length {buf : List α} (h : 0 < buf.length) (head n : Nat) :
    (window buf head n).length = n := by
  induction n with
  | zero => rfl
  | succ n ih =>
    obtain ⟨x, hx⟩ := getElem?_mod h (head + n)
    rw [window_succ, List.length_append, ih, hx]
    rfl

/-- A window from one cell further on, with its first cell in front. -/
theorem window_cons {buf : List α} (head n : Nat) :
    window buf head (n + 1) =
      (buf[head % buf.length]?).toList ++ window buf (head + 1) n := by
  induction n generalizing head with
  | zero => simp [window_succ]
  | succ n ih =>
    rw [window_succ, ih, window_succ, List.append_assoc,
      show head + (n + 1) = head + 1 + n by omega]

theorem window_mod (buf : List α) (head n : Nat) :
    window buf (head % buf.length) n = window buf head n := by
  unfold window
  congr 1
  funext k
  rw [Nat.mod_add_mod]

theorem offset_inj {len head i j : Nat} (hi : i < len) (hj : j < len)
    (h : (head + i) % len = (head + j) % len) : i = j := by
  have h' : i % len = j % len := Nat.ModEq.add_left_cancel' head h
  rwa [Nat.mod_eq_of_lt hi, Nat.mod_eq_of_lt hj] at h'

theorem window_set_out {buf : List α} {head n j : Nat} (x : α)
    (h : ∀ k < n, (head + k) % buf.length ≠ j) :
    window (buf.set j x) head n = window buf head n := by
  induction n with
  | zero => rfl
  | succ n ih =>
    rw [window_succ, window_succ, ih fun k hk => h k (by omega), List.length_set,
      List.getElem?_set_ne (Ne.symm (h n (by omega)))]

/-- **Push.** Writing the cell behind a window that does not fill the buffer
appends to the window. -/
theorem window_push {buf : List α} {n : Nat} (hn : n < buf.length) (head : Nat) (x : α) :
    window (buf.set ((head + n) % buf.length) x) head (n + 1) = window buf head n ++ [x] := by
  have hlt : (head + n) % buf.length < buf.length := Nat.mod_lt _ (by omega)
  rw [window_succ, window_set_out x fun k hk e => by
    have := offset_inj (by omega) hn e
    omega]
  simp [List.getElem?_set_self hlt]

/-- **Pop.** Overwriting the first cell of a window and moving the head past
it drops the first element. -/
theorem window_pop {buf : List α} {head n : Nat} (hn : n < buf.length) (hh : head < buf.length)
    (x : α) : window (buf.set head x) ((head + 1) % buf.length) n = window buf (head + 1) n := by
  have hlen : (buf.set head x).length = buf.length := List.length_set
  rw [← hlen, window_mod, window_set_out x fun k hk e => ?_]
  have e' : (head + (k + 1)) % buf.length = (head + 0) % buf.length := by
    rw [show head + (k + 1) = head + 1 + k by omega, e, Nat.add_zero, Nat.mod_eq_of_lt hh]
  have := offset_inj (by omega) (by omega) e'
  omega

theorem window_head {buf : List α} {head n : Nat} {x : α} (hh : head < buf.length)
    (hx : buf[head]? = some x) : window buf head (n + 1) = x :: window buf (head + 1) n := by
  rw [window_cons, Nat.mod_eq_of_lt hh, hx]
  rfl

end Lib.Ring
