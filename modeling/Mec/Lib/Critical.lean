import Mec.Lib.Lts

/-!
# Critical sections

An object under a mutex, seen from close by: an operation gets the mutex, changes
the object in small steps and gives the mutex back, and anyone may look at the
object at any time without it. If every section, left to itself, does what one step
of the system `step` does (`Implements`), then so it does among the others: the
operations take effect one after the other in the order in which they got the mutex
(`run_serial`). A look may fall into a section; what it sees lies between the states
on entry and at the end of the operation in every order that the small steps go along
with (`look_between`).
-/

namespace Lib.Critical

open Lib.Lts

variable {σ β ε L : Type*}

/-- What the operations do under the mutex: `enter` up to the first point at which
the object can be looked at, `body` from one such point to the next, `none` at the
end. `L` are the local variables. -/
structure Code (σ β L : Type*) where
  enter : β → σ → σ × L
  body : β → σ × L → Option (σ × L)

/-- The rest of a section, left to itself, ends with the object in the last state. -/
inductive Ends (code : Code σ β L) (b : β) : σ × L → σ → Prop where
  | leave {s : σ} {l : L} : code.body b (s, l) = none → Ends code b (s, l) s
  | body {x y : σ × L} {t : σ} : code.body b x = some y → Ends code b y t → Ends code b x t

/-- A section on its own is a step of the system. -/
def Implements (code : Code σ β L) (step : σ → β → Option (σ × ε)) : Prop :=
  ∀ s b, ∃ t e, step s b = some (t, e) ∧ Ends code b (code.enter b s) t

/-- The object, and the operation that has the mutex. -/
structure Shared (σ β L : Type*) where
  state : σ
  inside : Option (β × L)

inductive Act (β : Type*) where
  | enter (b : β)
  | body
  | leave
  | look

/-- A look tells the state of the object. -/
def sharedStep (code : Code σ β L) (s : Shared σ β L) : Act β → Option (Shared σ β L × Option σ)
  | .enter b =>
    match s.inside with
    | none => some (⟨(code.enter b s.state).1, some (b, (code.enter b s.state).2)⟩, none)
    | some _ => none
  | .body => s.inside.bind fun (b, l) =>
    (code.body b (s.state, l)).map fun (state, l) => (⟨state, some (b, l)⟩, none)
  | .leave => s.inside.bind fun (b, l) =>
    if (code.body b (s.state, l)).isNone then some (⟨s.state, none⟩, none) else none
  | .look => some (s, some s.state)

abbrev SharedTrace (σ β : Type*) := List (Act β × Option σ)

def Act.entered? : Act β → Option β
  | .enter b => some b
  | _ => none

/-- The operations that got the mutex, in order. -/
def entered (tr : SharedTrace σ β) : List β := tr.filterMap (·.1.entered?)

/-- An order in which the small steps of the sections go. -/
structure Along (code : Code σ β L) (R : β → σ → σ → Prop) : Prop where
  refl : ∀ b s, R b s s
  trans : ∀ b s t u, R b s t → R b t u → R b s u
  body : ∀ b x y, code.body b x = some y → R b x.1 y.1

theorem Ends.along {code : Code σ β L} {R : β → σ → σ → Prop} (hR : Along code R) {b : β}
    {x : σ × L} {t : σ} (h : Ends code b x t) : R b x.1 t := by
  induction h with
  | leave _ => exact hR.refl _ _
  | body hbody _ ih => exact hR.trans _ _ _ _ (hR.body _ _ _ hbody) ih

/-- The operation that has the mutex found the object in the state `u`. -/
structure Within (code : Code σ β L) (step : σ → β → Option (σ × ε)) (R : β → σ → σ → Prop)
    (u s : σ) (b : β) (l : L) : Prop where
  since : R b (code.enter b u).1 s
  ends : ∃ t e, step u b = some (t, e) ∧ Ends code b (s, l) t

/-- `bs` got the mutex one after the other, and the operations before the last one that
still has it took effect in this order. -/
inductive Serial (code : Code σ β L) (step : σ → β → Option (σ × ε)) (R : β → σ → σ → Prop)
    (start : σ) : List β → Shared σ β L → Prop where
  | outside {tr : List (β × ε)} {u : σ} : Run step start tr u →
      Serial code step R start (tr.map Prod.fst) ⟨u, none⟩
  | inside {tr : List (β × ε)} {u s : σ} {b : β} {l : L} : Run step start tr u →
      Within code step R u s b l →
      Serial code step R start (tr.map Prod.fst ++ [b]) ⟨s, some (b, l)⟩

section Run

variable {code : Code σ β L} {step : σ → β → Option (σ × ε)} {R : β → σ → σ → Prop} {start : σ}

theorem Serial.next (himpl : Implements code step) (hR : Along code R) {bs : List β}
    {s t : Shared σ β L} {a : Act β} {e : Option σ} (hs : Serial code step R start bs s)
    (h : sharedStep code s a = some (t, e)) :
    Serial code step R start (bs ++ a.entered?.toList) t := by
  cases a with
  | look =>
    obtain ⟨rfl, -⟩ := Prod.mk.inj (Option.some.inj h)
    simpa [Act.entered?] using hs
  | enter b =>
    cases hs with
    | inside _ _ => cases h
    | @outside tr u hrun =>
      obtain ⟨rfl, -⟩ := Prod.mk.inj (Option.some.inj h)
      exact .inside hrun ⟨hR.refl _ _, himpl u b⟩
  | body =>
    cases hs with
    | outside _ => cases h
    | @inside tr u s b l hrun hwithin =>
      obtain ⟨⟨s', l'⟩, hbody, heq⟩ := Option.map_eq_some_iff.mp h
      obtain ⟨rfl, -⟩ := Prod.mk.inj heq
      obtain ⟨v, e, hstep, hends⟩ := hwithin.ends
      simp only [Act.entered?, Option.toList_none, List.append_nil]
      refine .inside hrun ⟨hR.trans _ _ _ _ hwithin.since (hR.body _ _ _ hbody), v, e, hstep, ?_⟩
      cases hends with
      | leave hnone => cases hnone.symm.trans hbody
      | body hbody' hends =>
        obtain rfl := Option.some.inj (hbody.symm.trans hbody')
        exact hends
  | leave =>
    cases hs with
    | outside _ => cases h
    | @inside tr u s b l hrun hwithin =>
      obtain ⟨hnone, heq⟩ := Option.ite_none_right_eq_some.mp h
      obtain ⟨rfl, -⟩ := Prod.mk.inj (Option.some.inj heq)
      obtain ⟨v, e, hstep, hends⟩ := hwithin.ends
      simp only [Act.entered?, Option.toList_none, List.append_nil]
      rw [show tr.map Prod.fst ++ [b] = (tr ++ [(b, e)]).map Prod.fst by simp]
      refine .outside (hrun.snoc ?_)
      cases hends with
      | leave _ => exact hstep
      | body hbody _ =>
        rw [hbody] at hnone
        cases hnone

/-- **Atomicity.** However the sections of many threads are scheduled, the operations take
effect one after the other. -/
theorem run_serial (himpl : Implements code step) (hR : Along code R) {tr : SharedTrace σ β}
    {s : Shared σ β L} (h : Run (sharedStep code) ⟨start, none⟩ tr s) :
    Serial code step R start (entered tr) s := by
  refine h.history_nil (I := fun tr s => Serial code step R start (entered tr) s)
    (fun tr s a t e hs hstep => ?_) (.outside (.nil start))
  have hone : entered [(a, e)] = a.entered?.toList := by
    cases ha : a.entered? <;> simp [entered, ha]
  rw [entered, List.filterMap_append, ← entered, ← entered, hone]
  exact hs.next himpl hR hstep

/-- **Looks.** What is seen at any time, with or without the mutex, is the state after some
of the operations, or lies between the entry and the end of the one that has it. -/
theorem look_between (himpl : Implements code step) (hR : Along code R)
    {tr₁ tr₂ : SharedTrace σ β} {seen : σ} {s : Shared σ β L}
    (h : Run (sharedStep code) ⟨start, none⟩ (tr₁ ++ (.look, some seen) :: tr₂) s) :
    ∃ tr u, Run step start tr u ∧
      ((seen = u ∧ entered tr₁ = tr.map Prod.fst) ∨
        ∃ b t e, entered tr₁ = tr.map Prod.fst ++ [b] ∧ step u b = some (t, e) ∧
          R b (code.enter b u).1 seen ∧ R b seen t) := by
  obtain ⟨v, hv, hrest⟩ := h.split
  cases hrest with
  | cons hlook _ =>
    obtain ⟨-, hseen⟩ := Prod.mk.inj (Option.some.inj hlook)
    obtain rfl := Option.some.inj hseen
    have hserial := run_serial himpl hR hv
    generalize entered tr₁ = bs at hserial
    cases hserial with
    | @outside tr u hrun => exact ⟨tr, u, hrun, .inl ⟨rfl, rfl⟩⟩
    | @inside tr u s b l hrun hwithin =>
      obtain ⟨t, e, hstep, hends⟩ := hwithin.ends
      exact ⟨tr, u, hrun, .inr ⟨b, t, e, rfl, hstep, hwithin.since, hends.along hR⟩⟩

end Run

end Lib.Critical
