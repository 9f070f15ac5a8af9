import Mathlib.Data.List.Basic
import Mathlib.Logic.Relation

/-!
# Lock order

`Code` describes what a piece of code does to the locks `L` of a program: critical
sections, awaiting the end of another thread, other actions `C`, sequence, choice
and repetition. Its traces are sequences of `Op`. If every section's lock ranks
above the ones held around it and threads are awaited with no lock held, along a
hierarchy of threads (`Code.Fits`), then what a thread still has to do is `Legal`
after each of its steps; and if that is so of all threads, no thread waits for a
lock of its own and the waits between threads have no cycle.
-/

namespace Lib.LockOrder

variable {L T C : Type}

/-- A step of a thread. -/
inductive Op (L T C : Type) where
  | acquire (m : L)
  | release (m : L)
  | await (u : T)
  | call (c : C)

/-- The lock structure of a piece of code; `any` is one of countably many choices. -/
inductive Code (L T C : Type) where
  | done
  | lock (m : L) (body : Code L T C)
  | await (u : T)
  | call (c : C)
  | seq (first second : Code L T C)
  | alt (left right : Code L T C)
  | any (choice : Nat → Code L T C)
  | star (body : Code L T C)

/-- The sequences of steps a piece of code may take. -/
inductive Trace : Code L T C → List (Op L T C) → Prop where
  | done : Trace .done []
  | lock {m : L} {body : Code L T C} {tr : List (Op L T C)} :
      Trace body tr → Trace (.lock m body) (.acquire m :: (tr ++ [.release m]))
  | await {u : T} : Trace (.await u) [.await u]
  | call {c : C} : Trace (.call c) [.call c]
  | seq {c d : Code L T C} {tr tr' : List (Op L T C)} :
      Trace c tr → Trace d tr' → Trace (.seq c d) (tr ++ tr')
  | left {c d : Code L T C} {tr : List (Op L T C)} : Trace c tr → Trace (.alt c d) tr
  | right {c d : Code L T C} {tr : List (Op L T C)} : Trace d tr → Trace (.alt c d) tr
  | any {f : Nat → Code L T C} {n : Nat} {tr : List (Op L T C)} :
      Trace (f n) tr → Trace (.any f) tr
  | starNil {c : Code L T C} : Trace (.star c) []
  | starCons {c : Code L T C} {tr tr' : List (Op L T C)} :
      Trace c tr → Trace (.star c) tr' → Trace (.star c) (tr ++ tr')

namespace Code

def guard (m : L) : Code L T C := .lock m .done

def opt (c : Code L T C) : Code L T C := .alt .done c

def block : List (Code L T C) → Code L T C
  | [] => .done
  | [c] => c
  | c :: cs => .seq c (block cs)

/-- One of the traces: the first choice, no repetition. -/
def first : Code L T C → List (Op L T C)
  | .done => []
  | .lock m body => .acquire m :: (first body ++ [.release m])
  | .await u => [.await u]
  | .call c => [.call c]
  | .seq c d => first c ++ first d
  | .alt c _ => first c
  | .any f => first (f 0)
  | .star _ => []

theorem trace_first (c : Code L T C) : Trace c c.first := by
  induction c with
  | done => exact .done
  | lock m body ih => exact .lock ih
  | await u => exact .await
  | call c => exact .call
  | seq c d ihc ihd => exact .seq ihc ihd
  | alt c d ihc _ => exact .left ihc
  | any f ih => exact .any (ih 0)
  | star c _ => exact .starNil

/-- The code respects the ranks of the locks and the levels of the threads when it
runs on a thread of level `top` that holds locks of ranks below `n` only. -/
def Fits (rank : L → Nat) (level : T → Nat) (top : Nat) : Nat → Code L T C → Prop
  | _, .done => True
  | n, .lock m body => n ≤ rank m ∧ body.Fits rank level top (rank m + 1)
  | n, .await u => n = 0 ∧ level u < top
  | _, .call _ => True
  | n, .seq c d => c.Fits rank level top n ∧ d.Fits rank level top n
  | n, .alt c d => c.Fits rank level top n ∧ d.Fits rank level top n
  | n, .any f => ∀ i, (f i).Fits rank level top n
  | n, .star c => c.Fits rank level top n

variable {rank : L → Nat} {level : T → Nat} {top n : Nat}

@[simp] theorem fits_done : (done : Code L T C).Fits rank level top n := trivial

@[simp] theorem fits_lock {m : L} {body : Code L T C} :
    (lock m body).Fits rank level top n ↔ n ≤ rank m ∧ body.Fits rank level top (rank m + 1) :=
  .rfl

@[simp] theorem fits_await {u : T} :
    (await u : Code L T C).Fits rank level top n ↔ n = 0 ∧ level u < top := .rfl

@[simp] theorem fits_call {c : C} : (call c : Code L T C).Fits rank level top n := trivial

@[simp] theorem fits_seq {c d : Code L T C} : (seq c d).Fits rank level top n ↔
    c.Fits rank level top n ∧ d.Fits rank level top n := .rfl

@[simp] theorem fits_alt {c d : Code L T C} : (alt c d).Fits rank level top n ↔
    c.Fits rank level top n ∧ d.Fits rank level top n := .rfl

@[simp] theorem fits_any {f : Nat → Code L T C} :
    (any f).Fits rank level top n ↔ ∀ i, (f i).Fits rank level top n := .rfl

@[simp] theorem fits_star {c : Code L T C} :
    (star c).Fits rank level top n ↔ c.Fits rank level top n := .rfl

@[simp] theorem fits_guard {m : L} :
    (guard m : Code L T C).Fits rank level top n ↔ n ≤ rank m := by simp [guard]

@[simp] theorem fits_opt {c : Code L T C} :
    (opt c).Fits rank level top n ↔ c.Fits rank level top n := by simp [opt]

@[simp] theorem fits_block_nil : (block [] : Code L T C).Fits rank level top n := trivial

@[simp] theorem fits_block_cons {c : Code L T C} {cs : List (Code L T C)} :
    (block (c :: cs)).Fits rank level top n ↔
      c.Fits rank level top n ∧ (block cs).Fits rank level top n := by
  cases cs with
  | nil => simp [block]
  | cons d cs => rfl

end Code

section Legal

variable [DecidableEq L] {rank : L → Nat} {level : T → Nat} {top : Nat}

/-- What a thread of level `top` with the locks `held` has still to do: it acquires
above what it holds, releases what it holds, and awaits threads of a lower level
with no lock held. -/
def Legal (rank : L → Nat) (level : T → Nat) (top : Nat) : List L → List (Op L T C) → Prop
  | _, [] => True
  | held, .acquire m :: rest =>
    (∀ h ∈ held, rank h < rank m) ∧ Legal rank level top (m :: held) rest
  | held, .release m :: rest => m ∈ held ∧ Legal rank level top (held.erase m) rest
  | held, .await u :: rest => (held = [] ∧ level u < top) ∧ Legal rank level top held rest
  | held, .call _ :: rest => Legal rank level top held rest

theorem Trace.legal {c : Code L T C} {tr : List (Op L T C)} (h : Trace c tr) :
    ∀ {n : Nat} {held : List L} {rest : List (Op L T C)},
      c.Fits rank level top n → (∀ m ∈ held, rank m < n) →
      Legal rank level top held rest → Legal rank level top held (tr ++ rest) := by
  induction h with
  | done => intro n held rest _ _ hrest; exact hrest
  | @lock m body tr _ ih =>
    intro n held rest hfits hheld hrest
    have hlt : ∀ h ∈ held, rank h < rank m := fun h hh =>
      Nat.lt_of_lt_of_le (hheld h hh) hfits.1
    refine ⟨hlt, ?_⟩
    show Legal rank level top (m :: held) (tr ++ [.release m] ++ rest)
    rw [List.append_assoc]
    refine ih hfits.2 (fun h hh => ?_) ⟨List.mem_cons_self, ?_⟩
    · rcases List.mem_cons.mp hh with rfl | hh
      · exact Nat.lt_succ_self _
      · exact Nat.lt_succ_of_lt (hlt h hh)
    · rw [List.erase_cons_head]
      exact hrest
  | await =>
    intro n held rest hfits hheld hrest
    refine ⟨⟨List.eq_nil_iff_forall_not_mem.mpr fun m hm => ?_, hfits.2⟩, hrest⟩
    have := hheld m hm
    rw [hfits.1] at this
    omega
  | call => intro n held rest _ _ hrest; exact hrest
  | seq _ _ ih ih' =>
    intro n held rest hfits hheld hrest
    rw [List.append_assoc]
    exact ih hfits.1 hheld (ih' hfits.2 hheld hrest)
  | left _ ih =>
    intro n held rest hfits hheld hrest
    exact ih hfits.1 hheld hrest
  | right _ ih =>
    intro n held rest hfits hheld hrest
    exact ih hfits.2 hheld hrest
  | any _ ih =>
    intro n held rest hfits hheld hrest
    exact ih (hfits _) hheld hrest
  | starNil => intro n held rest _ _ hrest; exact hrest
  | starCons _ _ ih ih' =>
    intro n held rest hfits hheld hrest
    rw [List.append_assoc]
    exact ih hfits hheld (ih' hfits hheld hrest)

theorem Trace.legal_start {c : Code L T C} {tr : List (Op L T C)} (h : Trace c tr)
    (hfits : c.Fits rank level top 0) : Legal rank level top [] tr := by
  have hnil : Legal rank level top [] (tr ++ []) :=
    h.legal hfits (fun m hm => by cases hm) trivial
  rwa [List.append_nil] at hnil

end Legal

/-! ## Waiting -/

section Waiting

variable {held : T → List L} {todo : T → List (Op L T C)} {t u : T}

/-- The next step of `t` is to get a lock that it holds itself. -/
def SelfWaits (held : T → List L) (todo : T → List (Op L T C)) (t : T) : Prop :=
  ∃ m rest, todo t = .acquire m :: rest ∧ m ∈ held t

/-- The next step of `t` needs a lock of `u`, or the end of `u`. -/
def Waits (held : T → List L) (todo : T → List (Op L T C)) (t u : T) : Prop :=
  (∃ m rest, todo t = .acquire m :: rest ∧ m ∈ held u) ∨
    ((∃ rest, todo t = .await u :: rest) ∧ todo u ≠ [])

variable [DecidableEq L] {rank : L → Nat} {level : T → Nat}

/-- Whoever is reached from a thread that waits for `m` holds a lock that ranks no
lower. -/
theorem holds_of_waits_lock (hlegal : ∀ t, Legal rank level (level t) (held t) (todo t)) {m : L}
    {rest : List (Op L T C)} (hnext : todo t = .acquire m :: rest)
    (h : Relation.TransGen (Waits held todo) t u) : ∃ h ∈ held u, rank m ≤ rank h := by
  induction h with
  | single hw =>
    rcases hw with ⟨m', rest', hnext', hmem⟩ | ⟨⟨rest', hnext'⟩, -⟩
    · cases hnext.symm.trans hnext'
      exact ⟨m, hmem, Nat.le_refl _⟩
    · cases hnext.symm.trans hnext'
  | @tail v w _ hw ih =>
    obtain ⟨h, hh, hle⟩ := ih
    have hv := hlegal v
    rcases hw with ⟨m', rest', hnext', hmem⟩ | ⟨⟨rest', hnext'⟩, -⟩
    · rw [hnext'] at hv
      exact ⟨m', hmem, Nat.le_of_lt (Nat.lt_of_le_of_lt hle (hv.1 h hh))⟩
    · -- who awaits a thread holds nothing
      rw [hnext'] at hv
      rw [hv.1.1] at hh
      cases hh

/-- Whoever is reached from a thread that awaits another ranks below it, or holds a
lock. -/
theorem below_of_waits_thread (hlegal : ∀ t, Legal rank level (level t) (held t) (todo t)) {v : T}
    {rest : List (Op L T C)} (hnext : todo t = .await v :: rest)
    (h : Relation.TransGen (Waits held todo) t u) : level u < level t ∨ held u ≠ [] := by
  induction h with
  | single hw =>
    rcases hw with ⟨m, rest', hnext', hmem⟩ | ⟨⟨rest', hnext'⟩, -⟩
    · exact .inr (List.ne_nil_of_mem hmem)
    · cases hnext.symm.trans hnext'
      have ht := hlegal t
      rw [hnext] at ht
      exact .inl ht.1.2
  | @tail w x _ hw ih =>
    rcases hw with ⟨m, rest', hnext', hmem⟩ | ⟨⟨rest', hnext'⟩, -⟩
    · exact .inr (List.ne_nil_of_mem hmem)
    · have hw := hlegal w
      rw [hnext'] at hw
      rcases ih with hlt | hne
      · exact .inl (Nat.lt_trans hw.1.2 hlt)
      · exact absurd hw.1.1 hne

/-- **No self-deadlock.** -/
theorem not_selfWaits (hlegal : ∀ t, Legal rank level (level t) (held t) (todo t)) (t : T) :
    ¬SelfWaits held todo t := by
  rintro ⟨m, rest, hnext, hmem⟩
  have ht := hlegal t
  rw [hnext] at ht
  exact Nat.lt_irrefl _ (ht.1 m hmem)

/-- **No cycle** of waits. -/
theorem waits_acyclic (hlegal : ∀ t, Legal rank level (level t) (held t) (todo t)) (t : T) :
    ¬Relation.TransGen (Waits held todo) t t := by
  intro hcycle
  have ht := hlegal t
  obtain ⟨u, hw, -⟩ := Relation.TransGen.head'_iff.mp hcycle
  rcases hw with ⟨m, rest, hnext, -⟩ | ⟨⟨rest, hnext⟩, -⟩
  · obtain ⟨h, hh, hle⟩ := holds_of_waits_lock hlegal hnext hcycle
    rw [hnext] at ht
    exact Nat.lt_irrefl _ (Nat.lt_of_le_of_lt hle (ht.1 h hh))
  · have hbelow := below_of_waits_thread hlegal hnext hcycle
    rw [hnext] at ht
    rcases hbelow with hlt | hne
    · exact Nat.lt_irrefl _ hlt
    · exact hne ht.1.1

end Waiting

end Lib.LockOrder
