import Mathlib.Data.List.Basic
import Mathlib.Data.List.Induction
import Mathlib.Order.Bounds.Basic

/-!
# Runs of a labelled transition system

A system is a partial step function: in state `s` the action `a` is either
not enabled (`none`) or leads to a state together with the result the caller
sees. `Run step s tr t`: the system goes from `s` to `t` with the trace `tr`
of actions and results, in order.

The rules here are the ones every invariant and refinement proof uses: a
property kept by one step is kept by a run (`Run.invariant`, or `Run.history`
where it speaks of the trace so far), a property that a step keeps under a
condition only is kept by the runs that meet it (`Run.history_of`, `Run.stepwise`), what only
certain steps bring about traces back to one of them (`Run.occurs`), steps that use up a
budget are no more than it (`Run.budget`), what is emitted as a clock goes on comes in order
(`Run.increasing`), and a relation kept by one step against an abstract system carries a run over
(`Run.simulates`).
-/

namespace Lib.Lts

variable {σ τ α β ε : Type*}

inductive Run (step : σ → α → Option (σ × ε)) : σ → List (α × ε) → σ → Prop where
  | nil (s : σ) : Run step s [] s
  | cons {s t u : σ} {a : α} {e : ε} {tr : List (α × ε)} :
      step s a = some (t, e) → Run step t tr u → Run step s ((a, e) :: tr) u

variable {step : σ → α → Option (σ × ε)}

theorem Run.append {s t u : σ} {tr tr' : List (α × ε)} (h : Run step s tr t)
    (h' : Run step t tr' u) : Run step s (tr ++ tr') u := by
  induction h with
  | nil => exact h'
  | cons hs _ ih => exact .cons hs (ih h')

theorem Run.single {s t : σ} {a : α} {e : ε} (h : step s a = some (t, e)) :
    Run step s [(a, e)] t := .cons h (.nil t)

theorem Run.snoc {s t u : σ} {a : α} {e : ε} {tr : List (α × ε)} (h : Run step s tr t)
    (hs : step t a = some (u, e)) : Run step s (tr ++ [(a, e)]) u := h.append (.single hs)

theorem Run.split {s u : σ} : ∀ {tr tr' : List (α × ε)}, Run step s (tr ++ tr') u →
    ∃ t, Run step s tr t ∧ Run step t tr' u
  | [], _, h => ⟨s, .nil s, h⟩
  | _ :: _, _, .cons hs rest => by
    obtain ⟨t, h1, h2⟩ := rest.split
    exact ⟨t, .cons hs h1, h2⟩

/-- Some state of the run has `P`. -/
def Visits (step : σ → α → Option (σ × ε)) (s : σ) (tr : List (α × ε)) (P : σ → Prop) : Prop :=
  ∃ tr₁ tr₂ u, tr = tr₁ ++ tr₂ ∧ Run step s tr₁ u ∧ P u

theorem Run.exists_step {s t : σ} {tr : List (α × ε)} (h : Run step s tr t) {x : α × ε}
    (hx : x ∈ tr) : ∃ u v, step u x.1 = some (v, x.2) := by
  induction h with
  | nil => exact absurd hx List.not_mem_nil
  | cons h1 _ ih =>
    rcases List.mem_cons.mp hx with rfl | hx
    · exact ⟨_, _, h1⟩
    · exact ih hx

theorem Run.det {s t t' : σ} {tr : List (α × ε)} (h : Run step s tr t) (h' : Run step s tr t') :
    t = t' := by
  induction h with
  | nil => cases h'; rfl
  | cons hs _ ih =>
    cases h' with
    | cons hs' rest' =>
      rw [hs] at hs'
      cases hs'
      exact ih rest'

theorem Visits.nil_iff {s : σ} {P : σ → Prop} : Visits step s [] P ↔ P s := by
  constructor
  · rintro ⟨tr₁, tr₂, u, heq, hu, hP⟩
    obtain ⟨rfl, rfl⟩ := List.append_eq_nil_iff.mp heq.symm
    cases hu
    exact hP
  · exact fun hP => ⟨[], [], s, rfl, .nil s, hP⟩

theorem Run.visits_snoc {s t : σ} {tr : List (α × ε)} {x : α × ε} {P : σ → Prop}
    (h : Run step s (tr ++ [x]) t) : Visits step s (tr ++ [x]) P ↔ Visits step s tr P ∨ P t := by
  constructor
  · rintro ⟨tr₁, tr₂, u, heq, hu, hP⟩
    rcases List.eq_nil_or_concat' tr₂ with rfl | ⟨tr₂, y, rfl⟩
    · rw [List.append_nil] at heq
      obtain rfl := h.det (heq ▸ hu)
      exact .inr hP
    · rw [← List.append_assoc] at heq
      exact .inl ⟨tr₁, tr₂, u, (List.append_inj' heq rfl).1, hu, hP⟩
  · rintro (⟨tr₁, tr₂, u, rfl, hu, hP⟩ | hP)
    · exact ⟨tr₁, tr₂ ++ [x], u, by simp, hu, hP⟩
    · exact ⟨_, [], t, by simp, h, hP⟩

def play (step : σ → α → Option (σ × ε)) (s : σ) : List α → List (α × ε) × σ
  | [] => ([], s)
  | a :: as => match step s a with
    | none => ([], s)
    | some (t, e) => ((a, e) :: (play step t as).1, (play step t as).2)

theorem run_play (step : σ → α → Option (σ × ε)) (s : σ) (as : List α) :
    Run step s (play step s as).1 (play step s as).2 := by
  induction as generalizing s with
  | nil => exact .nil s
  | cons a as ih =>
    unfold play
    split
    · exact .nil s
    · next hstep => exact .cons hstep (ih _)

theorem mem_of_play {s : σ} {as : List α} {x : α × ε} (hx : x ∈ (play step s as).1) :
    x.1 ∈ as := by
  induction as generalizing s with
  | nil => exact absurd hx List.not_mem_nil
  | cons a as ih =>
    unfold play at hx
    split at hx
    · exact absurd hx List.not_mem_nil
    · rcases List.mem_cons.mp hx with rfl | hx
      · exact List.mem_cons_self
      · exact List.mem_cons_of_mem _ (ih hx)

/-- The actions meet `K` where they are played. -/
def Meets (step : σ → α → Option (σ × ε)) (K : σ → α → Prop) (s : σ) : List α → Prop
  | [] => True
  | a :: as => K s a ∧ match step s a with
    | none => True
    | some (t, _) => Meets step K t as

instance instDecidableMeets {K : σ → α → Prop} [∀ s a, Decidable (K s a)] :
    ∀ (s : σ) (as : List α), Decidable (Meets step K s as)
  | _, [] => .isTrue trivial
  | s, a :: as => @instDecidableAnd _ _ inferInstance <| match step s a with
    | none => .isTrue trivial
    | some (t, _) => instDecidableMeets t as

theorem meets_play {K : σ → α → Prop} {s : σ} {as : List α} (h : Meets step K s as)
    (tr₁ : List (α × ε)) (a : α) (e : ε) (tr₂ : List (α × ε)) (u : σ)
    (htr : (play step s as).1 = tr₁ ++ (a, e) :: tr₂) (hu : Run step s tr₁ u) : K u a := by
  induction as generalizing s tr₁ with
  | nil =>
    rw [play] at htr
    simp at htr
  | cons b as ih =>
    obtain ⟨hb, hrest⟩ := h
    unfold play at htr
    split at htr
    · simp at htr
    · next t d hstep =>
      rw [hstep] at hrest
      cases hu with
      | nil =>
        obtain ⟨hx, -⟩ := List.cons.inj htr
        obtain ⟨rfl, -⟩ := Prod.mk.inj hx
        exact hb
      | cons hfirst hu =>
        obtain ⟨hx, htail⟩ := List.cons.inj htr
        obtain ⟨rfl, rfl⟩ := Prod.mk.inj hx
        rw [hstep] at hfirst
        obtain ⟨rfl, -⟩ := Prod.mk.inj (Option.some.inj hfirst)
        exact ih hrest _ htail hu

/-- **Invariant rule.** What one step keeps, a run keeps. -/
theorem Run.invariant {I : σ → Prop} (hstep : ∀ s a t e, I s → step s a = some (t, e) → I t)
    {s t : σ} {tr : List (α × ε)} (h : Run step s tr t) (hs : I s) : I t := by
  induction h with
  | nil => exact hs
  | cons h1 _ ih => exact ih (hstep _ _ _ _ hs h1)

/-- The invariant rule for properties of the state and the trace that led to it. -/
theorem Run.history {I : List (α × ε) → σ → Prop}
    (hstep : ∀ tr s a t e, I tr s → step s a = some (t, e) → I (tr ++ [(a, e)]) t)
    {s t : σ} {tr tr₀ : List (α × ε)} (h : Run step s tr t) (hs : I tr₀ s) : I (tr₀ ++ tr) t := by
  induction h generalizing tr₀ with
  | nil => rwa [List.append_nil]
  | cons h1 _ ih =>
    rw [List.append_cons]
    exact ih (hstep _ _ _ _ _ hs h1)

theorem Run.history_nil {I : List (α × ε) → σ → Prop}
    (hstep : ∀ tr s a t e, I tr s → step s a = some (t, e) → I (tr ++ [(a, e)]) t)
    {s t : σ} {tr : List (α × ε)} (h : Run step s tr t) (hs : I [] s) : I tr t :=
  h.history hstep hs

/-- The history rule for what a step keeps only under a condition `K`, over the runs
whose steps all meet it. -/
theorem Run.history_of {I : List (α × ε) → σ → Prop} {K : σ → α → Prop}
    (hstep : ∀ tr s a t e, I tr s → K s a → step s a = some (t, e) → I (tr ++ [(a, e)]) t)
    {s u : σ} {tr : List (α × ε)} (h : Run step s tr u) (hs : I [] s)
    (hK : ∀ tr₁ a e tr₂ t, tr = tr₁ ++ (a, e) :: tr₂ → Run step s tr₁ t → K t a) : I tr u := by
  induction tr using List.reverseRecOn generalizing u with
  | nil => cases h; exact hs
  | append_singleton tr x ih =>
    obtain ⟨v, hv, hlast⟩ := h.split
    have hI := ih hv fun tr₁ a e tr₂ t htr => hK tr₁ a e (tr₂ ++ [x]) t (by rw [htr]; simp)
    cases hlast with
    | cons h₁ hnil =>
      cases hnil
      exact hstep _ _ _ _ _ hI (hK tr _ _ [] v rfl hv) h₁

/-- **Stepwise rule.** If under the invariant `I` a step keeps `P` exactly when it
meets `K`, then `P` holds all along a run exactly when every step of it meets
`K`. -/
theorem Run.stepwise {I P : σ → Prop} {K : σ → α → Prop}
    (hinv : ∀ s a t e, I s → step s a = some (t, e) → I t)
    (hstep : ∀ s a t e, I s → P s → step s a = some (t, e) → (P t ↔ K s a))
    {s u : σ} {tr : List (α × ε)} (h : Run step s tr u) (hI : I s) (hP : P s) :
    (∀ tr₁ tr₂ t, tr = tr₁ ++ tr₂ → Run step s tr₁ t → P t) ↔
      ∀ tr₁ a e tr₂ t, tr = tr₁ ++ (a, e) :: tr₂ → Run step s tr₁ t → K t a := by
  constructor
  · rintro hall tr₁ a e tr₂ t rfl h₁
    obtain ⟨t', h₁', hrest⟩ := h.split
    obtain rfl := h₁.det h₁'
    cases hrest with
    | cons hs _ =>
      have hnext := hall (tr₁ ++ [(a, e)]) tr₂ _ (by simp) (h₁.snoc hs)
      exact (hstep _ _ _ _ (h₁.invariant hinv hI) (hall tr₁ _ _ rfl h₁) hs).mp hnext
  · intro hall tr₁
    -- on the prefix, from its end
    induction tr₁ using List.reverseRecOn with
    | nil =>
      rintro tr₂ t - h₁
      cases h₁
      exact hP
    | append_singleton tr₁ x ih =>
      rintro tr₂ t rfl h₁
      obtain ⟨t', h₁', hlast⟩ := h₁.split
      have hP' := ih (x :: tr₂) t' (by simp) h₁'
      have hK := hall tr₁ x.1 x.2 tr₂ t' (by simp) h₁'
      cases hlast with
      | cons hs hnil =>
        cases hnil
        exact (hstep _ _ _ _ (h₁'.invariant hinv hI) hP' hs).mpr hK

/-- What no step undoes and only a step that meets `B` brings about, holds at the
end of a run exactly if some step of it met `B`. -/
theorem Run.occurs {I Q : σ → Prop} {B : σ → α → Prop}
    (hinv : ∀ s a t e, I s → step s a = some (t, e) → I t)
    (hstep : ∀ s a t e, I s → step s a = some (t, e) → (Q t ↔ Q s ∨ B s a))
    {s u : σ} {tr : List (α × ε)} (h : Run step s tr u) (hI : I s) (hQ : ¬ Q s) :
    Q u ↔ ∃ tr₁ a e tr₂ t, tr = tr₁ ++ (a, e) :: tr₂ ∧ Run step s tr₁ t ∧ B t a := by
  induction tr using List.reverseRecOn generalizing u with
  | nil =>
    cases h
    simp [hQ]
  | append_singleton tr x ih =>
    obtain ⟨v, hv, hlast⟩ := h.split
    obtain ⟨b, e'⟩ := x
    cases hlast with
    | cons h₁ hnil =>
      cases hnil
      rw [hstep v b _ e' (hv.invariant hinv hI) h₁, ih hv]
      constructor
      · rintro (⟨tr₁, a, e, tr₂, t, rfl, ht, hB⟩ | hB)
        · exact ⟨tr₁, a, e, tr₂ ++ [(b, e')], t, by simp, ht, hB⟩
        · exact ⟨tr, b, e', [], v, rfl, hv, hB⟩
      · rintro ⟨tr₁, a, e, tr₂, t, heq, ht, hB⟩
        rcases List.eq_nil_or_concat' tr₂ with rfl | ⟨tr₂, y, rfl⟩
        · obtain ⟨rfl, hlast⟩ := List.append_inj' heq rfl
          cases hlast
          obtain rfl := ht.det hv
          exact .inr hB
        · rw [← List.cons_append, ← List.append_assoc] at heq
          obtain ⟨rfl, -⟩ := List.append_inj' heq rfl
          exact .inl ⟨tr₁, a, e, tr₂, t, rfl, ht, hB⟩

/-- **Projection rule.** If every step of a system is a run of one of its parts, a run of
the system is one of the part. -/
theorem Run.project {δ : Type*} {part : τ → β → Option (τ × δ)} {f : σ → τ}
    {g : α × ε → List (β × δ)}
    (hstep : ∀ s a t e, step s a = some (t, e) → Run part (f s) (g (a, e)) (f t))
    {s t : σ} {tr : List (α × ε)} (h : Run step s tr t) : Run part (f s) (tr.flatMap g) (f t) := by
  induction h with
  | nil => exact .nil _
  | cons h1 _ ih =>
    rw [List.flatMap_cons]
    exact (hstep _ _ _ _ h1).append ih

/-- **Budget rule.** If every step that counts uses up some of the budget and no other step
adds to it, a run has no more of them than the budget it began with. -/
theorem Run.budget {I : σ → Prop} (left : σ → Nat) (counts : α × ε → Bool)
    (hstep : ∀ s a t e, I s → step s a = some (t, e) →
      I t ∧ left t + (if counts (a, e) then 1 else 0) ≤ left s)
    {s t : σ} {tr : List (α × ε)} (h : Run step s tr t) (hs : I s) :
    I t ∧ tr.countP counts + left t ≤ left s := by
  induction h with
  | nil => exact ⟨hs, (Nat.zero_add _).le⟩
  | cons h1 _ ih =>
    obtain ⟨ht, hle⟩ := hstep _ _ _ _ hs h1
    obtain ⟨hu, hrest⟩ := ih ht
    refine ⟨hu, ?_⟩
    rw [List.countP_cons]
    omega

/-- **Order rule.** If what a step emits lies between the clock before it and the clock after
it, a run emits in strictly increasing order. -/
theorem Run.increasing {δ : Type*} [Preorder δ] (clock : σ → δ) (emit : α × ε → Option δ)
    (hstep : ∀ s a t e, step s a = some (t, e) →
      clock s ≤ clock t ∧ ∀ d ∈ emit (a, e), clock s ≤ d ∧ d < clock t)
    {s t : σ} {tr : List (α × ε)} (h : Run step s tr t) :
    clock s ≤ clock t ∧ (tr.filterMap emit).Pairwise (· < ·) ∧
      ∀ d ∈ tr.filterMap emit, clock s ≤ d := by
  induction h with
  | nil => exact ⟨le_rfl, .nil, fun d hd => absurd hd List.not_mem_nil⟩
  | @cons s t u a e tr h1 _ ih =>
    obtain ⟨hle, hemit⟩ := hstep _ _ _ _ h1
    obtain ⟨hrest, hpair, hlower⟩ := ih
    have hlower' : ∀ d ∈ tr.filterMap emit, clock s ≤ d := fun d hd => hle.trans (hlower d hd)
    refine ⟨hle.trans hrest, ?_⟩
    cases he : emit (a, e) with
    | none =>
      rw [List.filterMap_cons_none he]
      exact ⟨hpair, hlower'⟩
    | some d =>
      rw [List.filterMap_cons_some he]
      obtain ⟨hd, hlt⟩ := hemit d he
      refine ⟨.cons (fun d' hd' => hlt.trans_le (hlower d' hd')) hpair, fun d' hd' => ?_⟩
      rcases List.mem_cons.mp hd' with rfl | hd'
      · exact hd
      · exact hlower' d' hd'

theorem Run.isGreatest {δ : Type*} [LinearOrder δ] {f g : σ → δ}
    (hstep : ∀ s a t e, step s a = some (t, e) → f t = max (f s) (g t))
    {s u : σ} {tr : List (α × ε)} (h : Run step s tr u) (hs : f s = g s) :
    IsGreatest {d | ∃ tr₁ tr₂ t, tr = tr₁ ++ tr₂ ∧ Run step s tr₁ t ∧ d = g t} (f u) := by
  induction tr using List.reverseRecOn generalizing u with
  | nil =>
    cases h
    refine ⟨⟨[], [], s, rfl, .nil s, hs⟩, ?_⟩
    rintro d ⟨tr₁, tr₂, t, heq, ht, rfl⟩
    obtain ⟨rfl, -⟩ := List.append_eq_nil_iff.mp heq.symm
    cases ht
    exact hs.ge
  | append_singleton tr x ih =>
    obtain ⟨v, hv, hlast⟩ := h.split
    obtain ⟨⟨tr₁, tr₂, t, htr, ht, hmax⟩, hupper⟩ := ih hv
    have hu : f u = max (f v) (g u) := by
      cases hlast with
      | cons h₁ hnil =>
        cases hnil
        exact hstep _ _ _ _ h₁
    constructor
    · rcases le_total (f v) (g u) with hle | hle
      · exact ⟨tr ++ [x], [], u, by simp, h, by rw [hu, max_eq_right hle]⟩
      · exact ⟨tr₁, tr₂ ++ [x], t, by rw [htr]; simp, ht, by rw [hu, max_eq_left hle, hmax]⟩
    · rintro d ⟨tr₃, tr₄, w, heq, hw, rfl⟩
      rw [hu]
      rcases List.eq_nil_or_concat' tr₄ with rfl | ⟨tr₄, y, rfl⟩
      · rw [List.append_nil] at heq
        obtain rfl := h.det (heq ▸ hw)
        exact le_max_right _ _
      · rw [← List.append_assoc] at heq
        obtain ⟨heq, -⟩ := List.append_inj' heq rfl
        exact (hupper ⟨tr₃, tr₄, w, heq, hw, rfl⟩).trans (le_max_left _ _)

/-- A run of an abstract system whose steps are a relation. -/
inductive Steps (Next : τ → β → τ → Prop) : τ → List β → τ → Prop where
  | nil (x : τ) : Steps Next x [] x
  | cons {x y z : τ} {b : β} {bs : List β} : Next x b y → Steps Next y bs z →
      Steps Next x (b :: bs) z

/-- A step with a visible label, or no move at all. -/
def Moves (Next : τ → β → τ → Prop) (x : τ) (lab : Option β) (y : τ) : Prop :=
  match lab with
  | some b => Next x b y
  | none => y = x

/-- **Simulation rule.** If `R` relates the start and every concrete step moves
the abstract system by the label `lab` gives it, then a concrete run is an
abstract run over its visible labels. -/
theorem Run.simulates {Next : τ → β → τ → Prop} {R : σ → τ → Prop} {lab : α × ε → Option β}
    (hstep : ∀ s x a t e, R s x → step s a = some (t, e) →
      ∃ y, R t y ∧ Moves Next x (lab (a, e)) y)
    {s t : σ} {tr : List (α × ε)} (h : Run step s tr t) {x : τ} (hx : R s x) :
    ∃ y, R t y ∧ Steps Next x (tr.filterMap lab) y := by
  induction h generalizing x with
  | nil => exact ⟨x, hx, .nil x⟩
  | @cons s t u a e tr h1 _ ih =>
    obtain ⟨y, hy, hl⟩ := hstep _ _ _ _ _ hx h1
    obtain ⟨z, hz, hr⟩ := ih hy
    refine ⟨z, hz, ?_⟩
    cases hlab : lab (a, e) with
    | none =>
      rw [hlab] at hl
      obtain rfl : y = x := hl
      rwa [List.filterMap_cons_none hlab]
    | some b =>
      rw [hlab] at hl
      rw [List.filterMap_cons_some hlab]
      exact .cons hl hr

end Lib.Lts
