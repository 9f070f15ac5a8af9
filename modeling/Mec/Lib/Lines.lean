import Mathlib.Data.List.Basic
import Mathlib.Data.List.Induction

/-!
# Reading a text line by line

A `Char` stands for one byte. `chunks n text` lists what `fgets` returns on a
buffer of `n + 1` bytes, call after call until the text ends: each chunk stops
after a newline, after `n` bytes, or where the text does. A line of fewer than
`n` bytes is one chunk, whatever follows it.
-/

namespace Lib.Lines

def chunksFrom (n : Nat) (line : List Char) : List Char → List (List Char)
  | [] => if line = [] then [] else [line]
  | c :: text =>
    if c = '\n' ∨ n ≤ line.length + 1 then (line ++ [c]) :: chunksFrom n [] text
    else chunksFrom n (line ++ [c]) text

def chunks (n : Nat) (text : List Char) : List (List Char) := chunksFrom n [] text

/-- A buffer's contents as a C string. -/
def cstr (buffer : List Char) : List Char := buffer.takeWhile (· ≠ '\x00')

variable {n : Nat} {line text : List Char}

theorem chunksFrom_short {acc : List Char} (hnl : '\n' ∉ line) (hlen : acc.length + line.length < n) :
    chunksFrom n acc (line ++ text) = chunksFrom n (acc ++ line) text := by
  induction line generalizing acc with
  | nil => rw [List.nil_append, List.append_nil]
  | cons c line ih =>
    obtain ⟨hc, hnl⟩ := not_or.mp (mt List.mem_cons.mpr hnl)
    rw [List.length_cons] at hlen
    rw [List.cons_append, chunksFrom, if_neg (by rintro (rfl | hle) <;> [exact hc rfl; omega]),
      ih hnl (by simp; omega), List.append_assoc, List.singleton_append]

theorem chunks_line (hnl : '\n' ∉ line) (hlen : line.length ≤ n) (hpos : 0 < n) :
    chunks n (line ++ '\n' :: text) = (line ++ ['\n']) :: chunks n text ∨
      chunks n (line ++ '\n' :: text) = line :: ['\n'] :: chunks n text := by
  unfold chunks
  by_cases hlt : line.length < n
  · rw [chunksFrom_short hnl (by simpa using hlt), chunksFrom, if_pos (.inl rfl)]
    exact .inl rfl
  · rcases List.eq_nil_or_concat' line with rfl | ⟨front, last, rfl⟩
    · simp at hlt
      omega
    · rw [List.length_append, List.length_singleton] at hlen hlt
      have hfront : '\n' ∉ front := fun h => hnl (List.mem_append_left _ h)
      rw [List.append_assoc, chunksFrom_short hfront (by simp; omega), List.singleton_append,
        chunksFrom, if_pos (.inr (by simp; omega)), chunksFrom, if_pos (.inl rfl)]
      exact .inr rfl

theorem chunks_last (hnl : '\n' ∉ line) (hlen : line.length ≤ n) (hne : line ≠ []) :
    chunks n line = [line] := by
  unfold chunks
  obtain ⟨front, last, rfl⟩ := (List.eq_nil_or_concat' line).resolve_left hne
  have hfront : '\n' ∉ front := fun h => hnl (List.mem_append_left _ h)
  rw [List.length_append, List.length_singleton] at hlen
  rw [chunksFrom_short hfront (by simp; omega), List.nil_append, chunksFrom]
  split
  · rfl
  · rw [chunksFrom, if_neg (by simp)]

def joinLines (ended : Bool) : List (List Char) → List Char
  | [] => []
  | [line] => line ++ if ended then ['\n'] else []
  | line :: rest => line ++ '\n' :: joinLines ended rest

theorem filterMap_cons_toList {α β : Type} (f : α → Option β) (a : α) (l : List α) :
    (a :: l).filterMap f = (f a).toList ++ l.filterMap f := by
  rw [List.filterMap_cons]
  cases f a <;> rfl

/-- A reader of chunks that finds nothing in a bare newline and the same in a line
with and without it reads a text as its lines. -/
theorem filterMap_chunks {β : Type} {f : List Char → Option β} {ended : Bool}
    {lines : List (List Char)} (hpos : 0 < n) (hnil : f [] = none) (hnewline : f ['\n'] = none)
    (hlines : ∀ line ∈ lines, '\n' ∉ line ∧ line.length ≤ n ∧ f (line ++ ['\n']) = f line) :
    (chunks n (joinLines ended lines)).filterMap f = lines.filterMap f := by
  -- a line and its newline, read in one chunk or in two
  have hline : ∀ (line text : List Char),
      '\n' ∉ line ∧ line.length ≤ n ∧ f (line ++ ['\n']) = f line →
      (chunks n (line ++ '\n' :: text)).filterMap f =
        (f line).toList ++ (chunks n text).filterMap f := by
    rintro line text ⟨hnl, hlen, hf⟩
    rcases chunks_line hnl hlen hpos with h | h
    · rw [h, filterMap_cons_toList, hf]
    · rw [h, filterMap_cons_toList, List.filterMap_cons_none hnewline]
  induction lines using joinLines.induct with
  | case1 => rfl
  | case2 line =>
    obtain ⟨hnl, hlen, hf⟩ := hlines line List.mem_cons_self
    rw [filterMap_cons_toList, joinLines]
    cases ended with
    | true => exact hline line [] ⟨hnl, hlen, hf⟩
    | false =>
      by_cases hempty : line = []
      · simp [hempty, hnil, chunks, chunksFrom]
      · simp only [Bool.false_eq_true, if_false, List.append_nil, chunks_last hnl hlen hempty,
          filterMap_cons_toList, List.filterMap_nil]
  | case3 line rest hrest ih =>
    rw [joinLines, hline line _ (hlines line List.mem_cons_self), filterMap_cons_toList,
      ih fun l hl => hlines l (List.mem_cons_of_mem _ hl)]
    exact hrest

end Lib.Lines
