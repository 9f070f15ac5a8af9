import Mathlib.Data.List.Basic
import Mathlib.Data.List.Induction

/-!
# Typestates

A resource with a protocol is a partial automaton: in state `s` the event `e`
is either allowed, and leads to a state, or is an error (`none`). `run` is the
automaton along a trace. A component emits events call by call; its calls obey
the protocol when an automaton over the calls themselves is simulated by the
one over the events (`run_emits`).
-/

namespace Lib.Typestate

variable {σ ε τ α π : Type*}

/-- The state after a trace, if none of its events is an error. -/
def run (step : σ → ε → Option σ) : σ → List ε → Option σ
  | s, [] => some s
  | s, e :: evs => (step s e).bind fun t => run step t evs

variable {step : σ → ε → Option σ}

theorem run_cons (s : σ) (e : ε) (evs : List ε) :
    run step s (e :: evs) = (step s e).bind fun t => run step t evs := rfl

theorem run_cons_of_some {s t : σ} {e : ε} {evs : List ε} (h : step s e = some t) :
    run step s (e :: evs) = run step t evs := by
  rw [run_cons, h]
  rfl

theorem run_cons_of_none {s : σ} {e : ε} {evs : List ε} (h : step s e = none) :
    run step s (e :: evs) = none := by
  rw [run_cons, h]
  rfl

theorem run_append (s : σ) (evs evs' : List ε) :
    run step s (evs ++ evs') = (run step s evs).bind fun t => run step t evs' := by
  induction evs generalizing s with
  | nil => rfl
  | cons e evs ih =>
    rw [List.cons_append, run_cons, run_cons]
    cases step s e with
    | none => rfl
    | some t => exact ih t

/-- What an event has to find is found by every trace that goes through. -/
theorem run_split {s u : σ} {evs evs' : List ε} {e : ε}
    (h : run step s (evs ++ e :: evs') = some u) :
    ∃ t t', run step s evs = some t ∧ step t e = some t' ∧ run step t' evs' = some u := by
  rw [run_append] at h
  obtain ⟨t, ht, hrest⟩ := Option.bind_eq_some_iff.mp h
  rw [run_cons] at hrest
  obtain ⟨t', hstep, hrest⟩ := Option.bind_eq_some_iff.mp hrest
  exact ⟨t, t', ht, hstep, hrest⟩

/-- A flag that only `set` sets and `clear` clears: where it is up, `set` came
last. -/
theorem run_flag {f : σ → Bool} {set clear : ε}
    (hset : ∀ s e t, step s e = some t → e ≠ set → f t → f s)
    (hclear : ∀ s t, step s clear = some t → f t = false)
    {s t : σ} {evs : List ε} (h : run step s evs = some t) (hs : f s = false) (ht : f t) :
    ∃ before since, evs = before ++ set :: since ∧ set ∉ since ∧ clear ∉ since := by
  induction evs using List.reverseRecOn generalizing t with
  | nil =>
    cases h
    rw [hs] at ht
    cases ht
  | append_singleton evs e ih =>
    obtain ⟨u, u', hu, hstep, hnil⟩ := run_split h
    cases hnil
    by_cases he : e = set
    · subst he
      exact ⟨evs, [], rfl, List.not_mem_nil, List.not_mem_nil⟩
    · obtain ⟨before, since, rfl, hnset, hnclear⟩ := ih hu (hset _ _ _ hstep he ht)
      have hne : e ≠ clear := by
        rintro rfl
        rw [hclear _ _ hstep] at ht
        cases ht
      refine ⟨before, since ++ [e], by simp, ?_, ?_⟩
      · simp only [List.mem_append, List.mem_singleton, not_or]
        exact ⟨hnset, Ne.symm he⟩
      · simp only [List.mem_append, List.mem_singleton, not_or]
        exact ⟨hnclear, Ne.symm hne⟩

/-! ## Components -/

def moves (move : τ → α → τ) (t : τ) (calls : List α) : τ := calls.foldl move t

/-- The events of its calls. -/
def emits (move : τ → α → τ) (emit : τ → α → List ε) : τ → List α → List ε
  | _, [] => []
  | t, a :: calls => emit t a ++ emits move emit (move t a) calls

/-- **Calls that obey the protocol.** If `next` allows a call exactly when the
events of the call are allowed, it allows a list of calls exactly when all of
its events are. `R` relates the component, the resource and the phase. -/
theorem run_emits {move : τ → α → τ} {emit : τ → α → List ε} {next : π → α → Option π}
    {R : τ → σ → π → Prop}
    (hstep : ∀ t s p a, R t s p →
      (∃ s' p', run step s (emit t a) = some s' ∧ next p a = some p' ∧ R (move t a) s' p') ∨
        run step s (emit t a) = none ∧ next p a = none)
    {t : τ} {s : σ} {p : π} (h : R t s p) (calls : List α) :
    (∃ s' p', run step s (emits move emit t calls) = some s' ∧ run next p calls = some p' ∧
        R (moves move t calls) s' p') ∨
      run step s (emits move emit t calls) = none ∧ run next p calls = none := by
  induction calls generalizing t s p with
  | nil => exact .inl ⟨s, p, rfl, rfl, h⟩
  | cons a calls ih =>
    rw [emits, run_append]
    rcases hstep t s p a h with ⟨s', p', hrun, hnext, hR⟩ | ⟨hrun, hnext⟩
    · rw [hrun, run_cons_of_some hnext]
      exact ih hR
    · rw [hrun, run_cons_of_none hnext]
      exact .inr ⟨rfl, rfl⟩

end Lib.Typestate
