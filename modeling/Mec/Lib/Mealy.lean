import Mathlib.Data.List.Basic

/-!
# Machines that read one symbol at a time

A machine reads a symbol, moves and may put out a value. What it puts out on a
word does not depend on how the word is cut (`outputs_append`). `segments` is
the rule for soundness: if the state always describes the symbols read since
the last output (`I`), and an output `b` is only put out where those symbols
are a segment for `b` (`Seg`), then the word is a sequence of such segments,
one for each output, and a rest.
-/

namespace Lib.Mealy

variable {σ α β : Type*} {step : σ → α → σ × Option β}

def run (step : σ → α → σ × Option β) (s : σ) (l : List α) : σ := l.foldl (fun s a => (step s a).1) s

def outputs (step : σ → α → σ × Option β) : σ → List α → List β
  | _, [] => []
  | s, a :: l => (step s a).2.toList ++ outputs step (step s a).1 l

theorem run_append (s : σ) (l m : List α) : run step s (l ++ m) = run step (run step s l) m :=
  List.foldl_append

theorem outputs_append (s : σ) (l m : List α) :
    outputs step s (l ++ m) = outputs step s l ++ outputs step (run step s l) m := by
  induction l generalizing s with
  | nil => rfl
  | cons a l ih =>
    show _ ++ outputs step (step s a).1 (l ++ m) = _
    rw [ih, ← List.append_assoc]
    rfl

/-- **Segments.** `u` is what was read since the last output. -/
theorem segments {I : σ → List α → Prop} {Seg : β → List α → Prop}
    (hnone : ∀ s u a, I s u → (step s a).2 = none → I (step s a).1 (u ++ [a]))
    (hsome : ∀ s u a b, I s u → (step s a).2 = some b →
      Seg b (u ++ [a]) ∧ I (step s a).1 [])
    (l : List α) {s : σ} {u : List α} (hs : I s u) :
    ∃ (pieces : List (List α × β)) (rest : List α),
      u ++ l = pieces.flatMap Prod.fst ++ rest ∧ outputs step s l = pieces.map Prod.snd ∧
        (∀ piece ∈ pieces, Seg piece.2 piece.1) ∧ I (run step s l) rest := by
  induction l generalizing s u with
  | nil => exact ⟨[], u, by simp, rfl, by simp, hs⟩
  | cons a l ih =>
    cases ha : (step s a).2 with
    | none =>
      obtain ⟨pieces, rest, hl, hout, hseg, hI⟩ := ih (hnone s u a hs ha)
      refine ⟨pieces, rest, ?_, ?_, hseg, hI⟩
      · rw [← hl, List.append_assoc, List.singleton_append]
      · rw [outputs, ha]
        exact hout
    | some b =>
      obtain ⟨hb, hs'⟩ := hsome s u a b hs ha
      obtain ⟨pieces, rest, hl, hout, hseg, hI⟩ := ih hs'
      refine ⟨(u ++ [a], b) :: pieces, rest, ?_, ?_, ?_, hI⟩
      · rw [List.flatMap_cons, List.append_assoc, ← hl, List.append_assoc]
        rfl
      · rw [outputs, ha, hout]
        rfl
      · rintro piece (_ | ⟨_, hp⟩)
        · exact hb
        · exact hseg piece hp

end Lib.Mealy
