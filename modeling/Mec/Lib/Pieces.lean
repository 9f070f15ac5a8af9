import Mec.Lib.Lines

/-!
# Where the chunks of a text lie

`chunks n text` cuts a line of `n` bytes or more into several chunks. A `Piece`
is such a chunk with its place: the number of its physical line and what stands
before it there. Two pieces of one line never overlap (`pieces_pairwise`), and
every piece is found in the line it names (`pieces_line`).
-/

namespace Lib.Lines

structure Piece where
  line : Nat
  before : List Char
  text : List Char
  deriving DecidableEq, Repr

def physicalLines (text : List Char) : List (List Char) := text.splitOn '\n'

/-- The pieces of the text, line `i` holding `before` in front of the current one
and `line` what the current one holds so far. -/
def piecesFrom (n i : Nat) (before line : List Char) : List Char → List Piece
  | [] => if line = [] then [] else [⟨i, before, line⟩]
  | c :: text =>
    if c = '\n' then ⟨i, before, line ++ [c]⟩ :: piecesFrom n (i + 1) [] [] text
    else if n ≤ line.length + 1 then
      ⟨i, before, line ++ [c]⟩ :: piecesFrom n i (before ++ (line ++ [c])) [] text
    else piecesFrom n i before (line ++ [c]) text

def pieces (n : Nat) (text : List Char) : List Piece := piecesFrom n 0 [] [] text

variable {n i : Nat} {before line text : List Char}

theorem piecesFrom_text :
    (piecesFrom n i before line text).map Piece.text = chunksFrom n line text := by
  induction text generalizing i before line with
  | nil =>
    rw [piecesFrom, chunksFrom]
    split <;> rfl
  | cons c text ih =>
    rw [piecesFrom, chunksFrom]
    by_cases hc : c = '\n'
    · rw [if_pos hc, if_pos (.inl hc), List.map_cons, ih]
    · by_cases hn : n ≤ line.length + 1
      · rw [if_neg hc, if_pos hn, if_pos (.inr hn), List.map_cons, ih]
      · rw [if_neg hc, if_neg hn, if_neg (not_or.mpr ⟨hc, hn⟩), ih]

theorem pieces_text : (pieces n text).map Piece.text = chunks n text := piecesFrom_text

theorem piecesFrom_short {acc : List Char} (hnl : '\n' ∉ line)
    (hlen : acc.length + line.length < n) :
    piecesFrom n i before acc (line ++ text) = piecesFrom n i before (acc ++ line) text := by
  induction line generalizing acc with
  | nil => rw [List.nil_append, List.append_nil]
  | cons c line ih =>
    obtain ⟨hc, hnl⟩ := not_or.mp (mt List.mem_cons.mpr hnl)
    rw [List.length_cons] at hlen
    rw [List.cons_append, piecesFrom, if_neg (Ne.symm hc), if_neg (by omega),
      ih hnl (by simp; omega), List.append_assoc, List.singleton_append]

theorem piecesFrom_full {c : Char} (hnl : '\n' ∉ line ++ [c]) (hlen : line.length + 1 = n) :
    piecesFrom n i before [] (line ++ c :: text) =
      ⟨i, before, line ++ [c]⟩ :: piecesFrom n i (before ++ (line ++ [c])) [] text := by
  obtain ⟨hline, hc⟩ := not_or.mp (mt List.mem_append.mpr hnl)
  rw [piecesFrom_short hline (by simp; omega), List.nil_append, piecesFrom,
    if_neg (fun h => hc (List.mem_singleton.mpr h.symm)), if_pos (by omega)]

/-! ## The line of a piece -/

theorem physicalLines_line (hnl : '\n' ∉ line) :
    physicalLines (line ++ '\n' :: text) = line :: physicalLines text :=
  List.splitOn_append_cons_self_of_not_mem hnl text

theorem physicalLines_first (hnl : '\n' ∉ line) :
    ∃ rest, (physicalLines (line ++ text))[0]? = some (line ++ rest) := by
  by_cases htext : '\n' ∈ text
  · obtain ⟨rest, text, rfl, hrest⟩ := List.eq_append_cons_of_mem htext
    refine ⟨rest, ?_⟩
    rw [← List.append_assoc, physicalLines_line (by simp [hnl, hrest])]
    rfl
  · refine ⟨text, ?_⟩
    rw [physicalLines, List.splitOn_eq_singleton (by simp [hnl, htext])]
    rfl

/-- What `p` holds of its line, without a newline at the end. -/
def Piece.LiesIn (p : Piece) (ℓ : List Char) : Prop :=
  ∃ body rest, ℓ = p.before ++ body ++ rest ∧ (p.text = body ∨ p.text = body ++ ['\n'])

theorem piecesFrom_line {p : Piece} (hnl : '\n' ∉ before ++ line)
    (hp : p ∈ piecesFrom n i before line text) :
    i ≤ p.line ∧
      ∃ ℓ, (physicalLines (before ++ line ++ text))[p.line - i]? = some ℓ ∧ p.LiesIn ℓ := by
  induction text generalizing i before line with
  | nil =>
    rw [piecesFrom] at hp
    split at hp
    · cases hp
    · obtain rfl := List.mem_singleton.mp hp
      obtain ⟨rest, hrest⟩ : ∃ rest, (physicalLines (before ++ line ++ []))[0]? =
          some (before ++ line ++ rest) := physicalLines_first hnl
      exact ⟨Nat.le_refl i, _, by rw [Nat.sub_self]; exact hrest, line, rest, rfl, .inl rfl⟩
  | cons c text ih =>
    rw [piecesFrom] at hp
    split at hp
    · next hc =>
      subst hc
      rw [physicalLines_line hnl]
      rcases List.mem_cons.mp hp with rfl | hp
      · refine ⟨Nat.le_refl i, before ++ line, by simp, line, [], ?_, .inr rfl⟩
        rw [List.append_nil]
      · obtain ⟨hle, ℓ, hℓ, hlies⟩ := ih (by simp) hp
        refine ⟨by omega, ℓ, ?_, hlies⟩
        rwa [show p.line - i = p.line - (i + 1) + 1 by omega, List.getElem?_cons_succ]
    · next hc =>
      have hnl' : '\n' ∉ before ++ (line ++ [c]) := by
        simpa [Ne.symm hc] using hnl
      have hmore : before ++ line ++ c :: text = before ++ (line ++ [c]) ++ text := by simp
      split at hp
      · rcases List.mem_cons.mp hp with rfl | hp
        · obtain ⟨rest, hrest⟩ : ∃ rest, (physicalLines (before ++ (line ++ [c]) ++ text))[0]? =
              some (before ++ (line ++ [c]) ++ rest) := physicalLines_first hnl'
          refine ⟨Nat.le_refl i, _, ?_, line ++ [c], rest, rfl, .inl rfl⟩
          rw [Nat.sub_self, hmore]
          exact hrest
        · have h := ih (by simpa using hnl') hp
          rwa [List.append_nil, ← hmore] at h
      · rw [hmore]
        exact ih hnl' hp

theorem pieces_line {p : Piece} (hp : p ∈ pieces n text) :
    ∃ ℓ, (physicalLines text)[p.line]? = some ℓ ∧ p.LiesIn ℓ := by
  obtain ⟨-, h⟩ := piecesFrom_line (by simp) hp
  simpa using h

/-! ## The pieces of one line -/

/-- `q` stands after `p`, in a later line or further on in the same one. -/
def Piece.Precedes (p q : Piece) : Prop :=
  p.line < q.line ∨ p.line = q.line ∧ p.before ++ p.text <+: q.before

theorem piecesFrom_before {q : Piece} (hq : q ∈ piecesFrom n i before line text) :
    i < q.line ∨ i = q.line ∧ before <+: q.before := by
  induction text generalizing i before line with
  | nil =>
    rw [piecesFrom] at hq
    split at hq
    · cases hq
    · obtain rfl := List.mem_singleton.mp hq
      exact .inr ⟨rfl, List.prefix_refl _⟩
  | cons c text ih =>
    rw [piecesFrom] at hq
    split at hq
    · rcases List.mem_cons.mp hq with rfl | hq
      · exact .inr ⟨rfl, List.prefix_refl _⟩
      · rcases ih hq with hlt | ⟨heq, -⟩ <;> exact .inl (by omega)
    · split at hq
      · rcases List.mem_cons.mp hq with rfl | hq
        · exact .inr ⟨rfl, List.prefix_refl _⟩
        · exact (ih hq).imp id (And.imp id (List.prefix_append _ _).trans)
      · exact ih hq

theorem piecesFrom_pairwise : (piecesFrom n i before line text).Pairwise Piece.Precedes := by
  induction text generalizing i before line with
  | nil =>
    rw [piecesFrom]
    split
    · exact .nil
    · exact List.pairwise_singleton _ _
  | cons c text ih =>
    rw [piecesFrom]
    split
    · refine List.pairwise_cons.mpr ⟨fun q hq => ?_, ih⟩
      rcases piecesFrom_before hq with hlt | ⟨heq, -⟩ <;> exact .inl (by simp only; omega)
    · split
      · exact List.pairwise_cons.mpr ⟨fun q hq => piecesFrom_before hq, ih⟩
      · exact ih

theorem pieces_pairwise : (pieces n text).Pairwise Piece.Precedes := piecesFrom_pairwise

end Lib.Lines
