import Mathlib.Algebra.Group.Nat.Defs
import Mathlib.Data.List.Infix
import Mec.Lib.Scan

/-!
# Printing and reading back

The output of `printf` for formats made of plain text and the conversions `%d`, `%ld`
and `%s`, and a reader that goes along the same format: it expects the text, scans the
numbers as `sscanf` does and takes a string up to the first character of the text behind
it. Where that character cannot be part of the argument before it (`Readable`), the
reader gets the arguments back.
-/

namespace Lib.Print

open Lib.Scan

/-- A piece of a format: text that stands for itself, or `%d`, `%ld`, `%s`. -/
inductive Piece where
  | lit (text : List Char)
  | int
  | long
  | str

inductive Arg where
  | num (z : Int)
  | text (s : List Char)
  deriving DecidableEq

def printInt (z : Int) : List Char :=
  if z < 0 then '-' :: Nat.toDigits 10 z.natAbs else Nat.toDigits 10 z.natAbs

/-- What is printed, up to the first argument that is missing or of the wrong kind. -/
def render : List Piece → List Arg → List Char
  | .lit text :: ps, args => text ++ render ps args
  | .int :: ps, .num z :: args | .long :: ps, .num z :: args => printInt z ++ render ps args
  | .str :: ps, .text s :: args => s ++ render ps args
  | _, _ => []

/-- The character that ends what stands before. -/
def stop : List Piece → Option Char
  | .lit (c :: _) :: _ => some c
  | _ => none

def read : List Piece → List Char → Option (List Arg × List Char)
  | [], text => some ([], text)
  | .lit l :: ps, text => if l <+: text then read ps (text.drop l.length) else none
  | .int :: ps, text => do
    let (z, text) ← scanInt text
    let (args, text) ← read ps text
    some (.num z :: args, text)
  | .long :: ps, text => do
    let (z, text) ← scanLong text
    let (args, text) ← read ps text
    some (.num z :: args, text)
  | .str :: ps, text => do
    let (args, rest) ← read ps (text.dropWhile fun c => stop ps ≠ some c)
    some (.text (text.takeWhile fun c => stop ps ≠ some c) :: args, rest)

/-- One record after the other until nothing is left, `fuel` of them at most. -/
def readAll (ps : List Piece) : Nat → List Char → Option (List (List Arg))
  | _, [] => some []
  | 0, _ :: _ => none
  | fuel + 1, c :: text => do
    let (args, rest) ← read ps (c :: text)
    let others ← readAll ps fuel rest
    some (args :: others)

/-- All records of a file; none is empty, so there are no more of them than characters. -/
def readFile (ps : List Piece) (text : List Char) : Option (List (List Arg)) :=
  readAll ps text.length text

/-- The numbers are in range, and none is followed by a digit, no string by one of its own
characters. -/
def Readable : List Piece → List Arg → Prop
  | [], [] => True
  | .lit _ :: ps, args => Readable ps args
  | .int :: ps, .num z :: args =>
    (-2147483648 ≤ z ∧ z < 2147483648) ∧ (∃ c, stop ps = some c ∧ ¬c.isDigit) ∧ Readable ps args
  | .long :: ps, .num z :: args =>
    (-longMax - 1 ≤ z ∧ z ≤ longMax) ∧ (∃ c, stop ps = some c ∧ ¬c.isDigit) ∧ Readable ps args
  | .str :: ps, .text s :: args => (∃ c, stop ps = some c ∧ c ∉ s) ∧ Readable ps args
  | _, _ => False

/-! ## Numbers -/

theorem isDigit_of_toDigits {n : Nat} {c : Char} (h : c ∈ Nat.toDigits 10 n) : c.isDigit :=
  Nat.isDigit_of_mem_toDigits (by decide) (by decide) h

theorem digitsValue_toDigits (n : Nat) : digitsValue (Nat.toDigits 10 n) = n :=
  (Nat.ofDigitChars_eq_foldl ..).symm.trans Nat.ofDigitChars_ten_toDigits

theorem not_isSpace_of_isDigit {c : Char} (h : c.isDigit) : isSpace c = false := by
  have hc : ∀ d : Char, d.isDigit = false → c ≠ d := by
    rintro d hd rfl
    exact absurd h (by rw [hd]; decide)
  simp [isSpace, hc]

theorem takeWhile_upto {p : Char → Bool} {l rest : List Char} (hl : ∀ c ∈ l, p c)
    (hrest : ∃ c, rest.head? = some c ∧ ¬p c) :
    (l ++ rest).takeWhile p = l ∧ (l ++ rest).dropWhile p = rest := by
  obtain ⟨c, hc, hnot⟩ := hrest
  obtain ⟨tail, rfl⟩ : ∃ tail, rest = c :: tail := List.head?_eq_some_iff.mp hc
  rw [List.takeWhile_append_of_pos hl, List.dropWhile_append_of_pos hl]
  simp [hnot]

/-- An optional sign and the digits. -/
theorem scanLong_digits {negative : Bool} {text rest : List Char} {n : Nat}
    (hsign : scanSign (skipSpace text) = (negative, Nat.toDigits 10 n ++ rest))
    (hrest : ∃ c, rest.head? = some c ∧ ¬c.isDigit) :
    scanLong text =
      some (max (-longMax - 1) (min (if negative then -(n : Int) else n) longMax), rest) := by
  have hdigits : ∀ c ∈ Nat.toDigits 10 n, c.isDigit := fun _ h => isDigit_of_toDigits h
  obtain ⟨htake, hdrop⟩ := takeWhile_upto hdigits hrest
  obtain ⟨d, ds, hds⟩ := List.exists_cons_of_ne_nil (Nat.toDigits_ne_nil (n := n) (b := 10))
  have hvalue := digitsValue_toDigits n
  unfold scanLong
  rw [hsign]
  simp only [htake, hdrop]
  rw [hds] at hvalue ⊢
  simp only [hvalue]

theorem scanLong_printInt {z : Int} (hz : -longMax - 1 ≤ z ∧ z ≤ longMax) {rest : List Char}
    (hrest : ∃ c, rest.head? = some c ∧ ¬c.isDigit) :
    scanLong (printInt z ++ rest) = some (z, rest) := by
  obtain ⟨d, ds, hds⟩ := List.exists_cons_of_ne_nil (Nat.toDigits_ne_nil (n := z.natAbs) (b := 10))
  have hd : d.isDigit := isDigit_of_toDigits (hds ▸ List.mem_cons_self)
  have hsign : scanSign (skipSpace (printInt z ++ rest)) =
      (decide (z < 0), Nat.toDigits 10 z.natAbs ++ rest) := by
    unfold printInt
    split
    · next hneg =>
      rw [decide_eq_true hneg]
      rfl
    · next hpos =>
      have hplus : d ≠ '+' := by
        rintro rfl
        cases hd
      have hminus : d ≠ '-' := by
        rintro rfl
        cases hd
      rw [decide_eq_false hpos, hds, List.cons_append, skipSpace,
        List.dropWhile_cons_of_neg (by rw [not_isSpace_of_isDigit hd]; decide)]
      unfold scanSign
      split
      · next heq => exact absurd (List.cons.inj heq).1 hminus
      · next heq => exact absurd (List.cons.inj heq).1 hplus
      · rfl
  rw [scanLong_digits hsign hrest]
  congr 2
  by_cases hneg : z < 0
  · rw [decide_eq_true hneg, if_pos rfl]
    omega
  · rw [decide_eq_false hneg, if_neg Bool.false_ne_true]
    omega

theorem scanInt_printInt {z : Int} (hz : -2147483648 ≤ z ∧ z < 2147483648) {rest : List Char}
    (hrest : ∃ c, rest.head? = some c ∧ ¬c.isDigit) :
    scanInt (printInt z ++ rest) = some (z, rest) := by
  have hlong : -longMax - 1 ≤ z ∧ z ≤ longMax := by
    unfold longMax
    omega
  have hmod : Int.bmod z 4294967296 = z := by
    rw [Int.bmod_def]
    omega
  rw [scanInt, scanLong_printInt hlong hrest, Option.map_some]
  simp only [hmod]

theorem length_printInt_le {z : Int} {k : Nat} (hk : 0 < k) (hz : z.natAbs < 10 ^ k) :
    (printInt z).length ≤ k + 1 := by
  have hlen := (Nat.length_toDigits_le_iff (by decide : 1 < 10) hk).mpr hz
  unfold printInt
  split
  · exact Nat.succ_le_succ hlen
  · omega

/-! ## Formats -/

theorem head?_render {ps : List Piece} {args : List Arg} {c : Char} (h : stop ps = some c)
    (rest : List Char) : (render ps args ++ rest).head? = some c := by
  unfold stop at h
  split at h
  · simpa [render] using h
  · cases h

/-- **Round trip.** What was printed reads back, whatever follows it. -/
theorem read_render {ps : List Piece} {args : List Arg} (h : Readable ps args)
    (rest : List Char) : read ps (render ps args ++ rest) = some (args, rest) := by
  induction ps, args using Readable.induct generalizing rest with
  | case1 => rfl
  | case2 text ps args ih =>
    rw [render, List.append_assoc, read, if_pos (List.prefix_append _ _), List.drop_left]
    exact ih h rest
  | case3 ps z args ih =>
    obtain ⟨hz, ⟨c, hc, hdigit⟩, h⟩ := h
    rw [render, List.append_assoc, read, scanInt_printInt hz ⟨c, head?_render hc rest, hdigit⟩]
    simp [ih h rest]
  | case4 ps z args ih =>
    obtain ⟨hz, ⟨c, hc, hdigit⟩, h⟩ := h
    rw [render, List.append_assoc, read, scanLong_printInt hz ⟨c, head?_render hc rest, hdigit⟩]
    simp [ih h rest]
  | case5 ps s args ih =>
    obtain ⟨⟨c, hc, hnot⟩, h⟩ := h
    have hs : ∀ d ∈ s, decide (stop ps ≠ some d) := by
      intro d hd
      rw [hc, decide_eq_true_iff]
      rintro ⟨⟩
      exact hnot hd
    have hstop : ∃ d, (render ps args ++ rest).head? = some d ∧ ¬decide (stop ps ≠ some d) :=
      ⟨c, head?_render hc rest, by simp [hc]⟩
    obtain ⟨htake, hdrop⟩ := takeWhile_upto hs hstop
    rw [render, List.append_assoc, read, htake, hdrop]
    simp [ih h rest]
  | case6 ps args hnil hlit hint hlong hstr =>
    unfold Readable at h
    split at h
    · exact (hnil rfl rfl).elim
    · exact (hlit _ _ rfl).elim
    · exact (hint _ _ _ rfl rfl).elim
    · exact (hlong _ _ _ rfl rfl).elim
    · exact (hstr _ _ _ rfl rfl).elim
    · exact h.elim

theorem readAll_render {ps : List Piece} {records : List (List Arg)}
    (h : ∀ args ∈ records, Readable ps args) (hne : ∀ args ∈ records, render ps args ≠ [])
    {fuel : Nat} (hfuel : records.length ≤ fuel) :
    readAll ps fuel (records.flatMap (render ps)) = some records := by
  induction records generalizing fuel with
  | nil => cases fuel <;> rfl
  | cons args others ih =>
    cases fuel with
    | zero => cases hfuel
    | succ fuel =>
      obtain ⟨hargs, hothers⟩ := List.forall_mem_cons.mp h
      obtain ⟨hfirst, hrest⟩ := List.forall_mem_cons.mp hne
      rw [List.flatMap_cons]
      obtain ⟨c, text, htext⟩ :
          ∃ c text, render ps args ++ others.flatMap (render ps) = c :: text :=
        List.exists_cons_of_ne_nil (List.append_ne_nil_of_left_ne_nil hfirst _)
      have hread := read_render hargs (others.flatMap (render ps))
      rw [htext] at hread ⊢
      rw [readAll, hread]
      simp [ih hothers hrest (Nat.le_of_succ_le_succ hfuel)]

/-- A file of records reads back record by record. -/
theorem readFile_render {ps : List Piece} {records : List (List Arg)}
    (h : ∀ args ∈ records, Readable ps args) (hne : ∀ args ∈ records, render ps args ≠ []) :
    readFile ps (records.flatMap (render ps)) = some records := by
  refine readAll_render h hne ?_
  clear h
  induction records with
  | nil => exact Nat.zero_le _
  | cons args others ih =>
    obtain ⟨hfirst, hrest⟩ := List.forall_mem_cons.mp hne
    have hpos := List.length_pos_iff.mpr hfirst
    have hothers := ih hrest
    rw [List.length_cons, List.flatMap_cons, List.length_append]
    omega

end Lib.Print
