import Mathlib.Data.List.Basic

/-!
# Stores into a buffer

A program that only writes to a buffer is the list of its stores. `cell` is
what they leave at an offset, `none` where nothing was stored and the old
contents shine through. `Spells S p cs` says that the stores `S` leave exactly
the cells `cs` from offset `p` on; stores behind one another spell the cells
behind one another, gaps included. A struct of scalars, each aligned to its own
size, is the case the last section is about.
-/

namespace Lib.Stores

variable {β : Type}

structure Store (β : Type) where
  pos : Nat
  bytes : List β

/-- What a store puts at `i`. -/
def Store.byte? (s : Store β) (i : Nat) : Option β :=
  if s.pos ≤ i then s.bytes[i - s.pos]? else none

def Store.apply (m : Nat → β) (s : Store β) (i : Nat) : β := (s.byte? i).getD (m i)

def applyStores (m : Nat → β) (S : List (Store β)) : Nat → β := S.foldl Store.apply m

/-- The last thing stored at `i`. -/
def cell : List (Store β) → Nat → Option β
  | [], _ => none
  | s :: S, i => (cell S i).or (s.byte? i)

theorem applyStores_apply (m : Nat → β) (S : List (Store β)) (i : Nat) :
    applyStores m S i = (cell S i).getD (m i) := by
  induction S generalizing m with
  | nil => rfl
  | cons s S ih =>
    have h : applyStores m (s :: S) i = applyStores (s.apply m) S i := rfl
    rw [h, ih, cell, Store.apply]
    cases cell S i <;> rfl

theorem cell_append (S T : List (Store β)) (i : Nat) :
    cell (S ++ T) i = (cell T i).or (cell S i) := by
  induction S with
  | nil => rw [List.nil_append, cell, Option.or_none]
  | cons s S ih => rw [List.cons_append, cell, ih, cell, Option.or_assoc]

/-! ## Cells spelled out -/

def Spells (S : List (Store β)) (p : Nat) (cs : List (Option β)) : Prop :=
  ∀ i, cell S i = if p ≤ i then cs[i - p]?.join else none

theorem Spells.single (p : Nat) (bs : List β) : Spells [⟨p, bs⟩] p (bs.map some) := by
  intro i
  simp only [cell, Option.none_or, Store.byte?]
  split
  · rw [List.getElem?_map]
    cases bs[i - p]? <;> rfl
  · rfl

theorem Spells.gap (p k : Nat) : Spells ([] : List (Store β)) p (List.replicate k none) := by
  intro i
  rw [cell]
  split
  · rw [List.getElem?_replicate]
    split <;> rfl
  · rfl

theorem Spells.nil (p : Nat) : Spells ([] : List (Store β)) p [] := Spells.gap p 0

theorem Spells.append {S T : List (Store β)} {p q : Nat} {cs ds : List (Option β)}
    (hS : Spells S p cs) (hT : Spells T q ds) (hq : q = p + cs.length) :
    Spells (S ++ T) p (cs ++ ds) := by
  subst hq
  intro i
  rw [cell_append, hS i, hT i]
  by_cases hp : p ≤ i
  · by_cases hlt : i - p < cs.length
    · have hout : ¬ p + cs.length ≤ i := by omega
      rw [if_neg hout, if_pos hp, if_pos hp, List.getElem?_append_left hlt, Option.none_or]
    · have hin : p + cs.length ≤ i := by omega
      have hnone : cs[i - p]? = none := List.getElem?_eq_none (by omega)
      have hidx : i - (p + cs.length) = i - p - cs.length := by omega
      rw [if_pos hin, if_pos hp, if_pos hp, hnone, List.getElem?_append_right (by omega), hidx]
      exact Option.or_none
  · have hout : ¬ p + cs.length ≤ i := by omega
    rw [if_neg hp, if_neg hout, if_neg hp]
    rfl

theorem Spells.applyStores {S : List (Store β)} {p : Nat} {cs : List (Option β)}
    (h : Spells S p cs) (m : Nat → β) (i : Nat) :
    applyStores m S (p + i) = cs[i]?.join.getD (m (p + i)) := by
  rw [applyStores_apply, h, if_pos (Nat.le_add_right p i), Nat.add_sub_cancel_left]

theorem join_getElem?_eq_none {cs : List (Option β)} {i : Nat} (h : i < cs.length) :
    cs[i]?.join = none ↔ (cs.map Option.isNone)[i]? = some true := by
  rw [List.getElem?_map, List.getElem?_eq_getElem h]
  cases cs[i] with
  | none => exact iff_of_true rfl rfl
  | some b =>
    apply iff_of_false
    · exact Option.some_ne_none b
    · simp

theorem map_isNone_some (bs : List β) :
    (bs.map some).map Option.isNone = List.replicate bs.length false := by
  rw [List.map_map]
  exact List.map_const'

def slice (m : Nat → β) (p n : Nat) : List β := (List.range n).map fun j => m (p + j)

theorem slice_congr {m m' : Nat → β} {p n : Nat} (h : ∀ j < n, m (p + j) = m' (p + j)) :
    slice m p n = slice m' p n :=
  List.map_congr_left fun j hj => h j (List.mem_range.mp hj)

theorem Spells.slice {S : List (Store β)} {p : Nat} {cs : List (Option β)} (h : Spells S p cs)
    (m : Nat → β) {off : Nat} {bs : List β}
    (hbs : (cs.drop off).take bs.length = bs.map some) :
    slice (Stores.applyStores m S) (p + off) bs.length = bs := by
  apply List.ext_getElem?
  intro j
  rw [Stores.slice, List.getElem?_map]
  by_cases hj : j < bs.length
  · have hcell : cs[off + j]? = some (some bs[j]) := by
      have hget := congrArg (·[j]?) hbs
      simp only [List.getElem?_map, List.getElem?_eq_getElem hj, Option.map_some] at hget
      rwa [List.getElem?_take_of_lt hj, List.getElem?_drop] at hget
    rw [List.getElem?_range hj, List.getElem?_eq_getElem hj, Option.map_some, Nat.add_assoc,
      h.applyStores, hcell]
    rfl
  · rw [List.getElem?_eq_none (by rw [List.length_range]; omega),
      List.getElem?_eq_none (by omega)]
    rfl

theorem Spells.slice_block {S : List (Store β)} {p : Nat} {cs block rest : List (Option β)}
    (h : Spells S p cs) (m : Nat → β) {start off : Nat} {bs : List β}
    (hblock : cs.drop start = block ++ rest)
    (hbs : (block.drop off).take bs.length = bs.map some) :
    Stores.slice (Stores.applyStores m S) (p + (start + off)) bs.length = bs := by
  have hin : bs.length ≤ block.length - off := by
    have hlen := congrArg List.length hbs
    rw [List.length_take, List.length_map, List.length_drop] at hlen
    omega
  have hcells : (cs.drop (start + off)).take bs.length = bs.map some := by
    rw [← List.drop_drop, hblock, List.drop_append, List.take_append_of_le_length, hbs]
    rw [List.length_drop]
    exact hin
  exact h.slice m hcells

/-! ## Blocks of one length -/

theorem drop_flatMap_const {α : Type} {c : Nat} {f : α → List β} (hf : ∀ a, (f a).length = c)
    (l : List α) (k : Nat) : (l.flatMap f).drop (c * k) = (l.drop k).flatMap f := by
  induction k generalizing l with
  | zero => rfl
  | succ k ih =>
    cases l with
    | nil => simp
    | cons a l =>
      have hsplit : c * (k + 1) = (f a).length + c * k := by rw [hf, Nat.mul_succ, Nat.add_comm]
      rw [List.flatMap_cons, hsplit, List.drop_append, List.drop_eq_nil_of_le (by omega),
        List.nil_append, Nat.add_sub_cancel_left, ih, List.drop_succ_cons]

/-! ## Structs of scalars -/

/-- The bytes to skip at `pos` to reach a multiple of `align`. -/
def padding (align pos : Nat) : Nat := (align - pos % align) % align

def alignment (sizes : List Nat) : Nat := sizes.foldr max 1

/-- Where the fields end when the first starts at `pos`. -/
def fieldsEnd : Nat → List Nat → Nat
  | pos, [] => pos
  | pos, n :: sizes => fieldsEnd (pos + padding n pos + n) sizes

def structSize (sizes : List Nat) : Nat :=
  fieldsEnd 0 sizes + padding (alignment sizes) (fieldsEnd 0 sizes)

/-- The stores of the fields into a struct at `base`, from offset `pos` on. -/
def fieldStores (base : Nat) : Nat → List (List β) → List (Store β)
  | _, [] => []
  | pos, f :: fs =>
    ⟨base + (pos + padding f.length pos), f⟩ ::
      fieldStores base (pos + padding f.length pos + f.length) fs

def fieldCells : Nat → List (List β) → List (Option β)
  | _, [] => []
  | pos, f :: fs =>
    List.replicate (padding f.length pos) none ++ (f.map some ++
      fieldCells (pos + padding f.length pos + f.length) fs)

/-- The assignment of every field of a struct at `base`. -/
def structStores (base : Nat) (fields : List (List β)) : List (Store β) := fieldStores base 0 fields

/-- The image of a struct: its fields with the padding between and behind. -/
def structCells (fields : List (List β)) : List (Option β) :=
  fieldCells 0 fields ++
    List.replicate (padding (alignment (fields.map List.length)) (fieldCells 0 fields).length) none

theorem length_fieldCells (pos : Nat) (fields : List (List β)) :
    pos + (fieldCells pos fields).length = fieldsEnd pos (fields.map List.length) := by
  induction fields generalizing pos with
  | nil => rfl
  | cons f fs ih =>
    rw [List.map_cons, fieldsEnd, ← ih, fieldCells, List.length_append, List.length_append,
      List.length_replicate, List.length_map]
    omega

theorem length_structCells (fields : List (List β)) :
    (structCells fields).length = structSize (fields.map List.length) := by
  have h := length_fieldCells 0 fields
  rw [Nat.zero_add] at h
  rw [structCells, structSize, List.length_append, List.length_replicate, h]

theorem spells_fieldStores (base pos : Nat) (fields : List (List β)) :
    Spells (fieldStores base pos fields) (base + pos) (fieldCells pos fields) := by
  induction fields generalizing pos with
  | nil => exact Spells.nil _
  | cons f fs ih =>
    have hgap := @Spells.gap β (base + pos) (padding f.length pos)
    have hfield := (Spells.single (base + (pos + padding f.length pos)) f).append
      (ih (pos + padding f.length pos + f.length)) (by rw [List.length_map]; omega)
    exact hgap.append hfield (by rw [List.length_replicate]; omega)

theorem spells_structStores (base : Nat) (fields : List (List β)) :
    Spells (structStores base fields) base (structCells fields) := by
  have htail := @Spells.gap β (base + 0 + (fieldCells 0 fields).length)
    (padding (alignment (fields.map List.length)) (fieldCells 0 fields).length)
  have h := (spells_fieldStores base 0 fields).append htail rfl
  rw [List.append_nil] at h
  exact h

/-! ## Bounds -/

/-- No store reaches `n` or beyond. -/
def Within (S : List (Store β)) (n : Nat) : Prop := ∀ s ∈ S, s.pos + s.bytes.length ≤ n

theorem Within.nil (n : Nat) : Within ([] : List (Store β)) n := fun _ h => absurd h List.not_mem_nil

theorem Within.mono {S : List (Store β)} {n m : Nat} (h : Within S n) (hnm : n ≤ m) : Within S m :=
  fun s hs => Nat.le_trans (h s hs) hnm

theorem Within.append {S T : List (Store β)} {n : Nat} (hS : Within S n) (hT : Within T n) :
    Within (S ++ T) n := by
  intro s hs
  rcases List.mem_append.mp hs with hs | hs
  · exact hS s hs
  · exact hT s hs

theorem Within.cons {s : Store β} {S : List (Store β)} {n : Nat}
    (hs : s.pos + s.bytes.length ≤ n) (hS : Within S n) : Within (s :: S) n := by
  intro s' hs'
  rcases List.mem_cons.mp hs' with rfl | hs'
  · exact hs
  · exact hS s' hs'

theorem le_fieldsEnd (pos : Nat) (sizes : List Nat) : pos ≤ fieldsEnd pos sizes := by
  induction sizes generalizing pos with
  | nil => exact Nat.le_refl _
  | cons n sizes ih =>
    have := ih (pos + padding n pos + n)
    rw [fieldsEnd]
    omega

theorem within_fieldStores (base pos : Nat) (fields : List (List β)) :
    Within (fieldStores base pos fields) (base + fieldsEnd pos (fields.map List.length)) := by
  induction fields generalizing pos with
  | nil => exact .nil _
  | cons f fs ih =>
    rw [List.map_cons, fieldsEnd]
    refine .cons ?_ (ih _)
    have := le_fieldsEnd (pos + padding f.length pos + f.length) (fs.map List.length)
    dsimp only
    omega

theorem within_structStores (base : Nat) (fields : List (List β)) :
    Within (structStores base fields) (base + structSize (fields.map List.length)) :=
  (within_fieldStores base 0 fields).mono (by unfold structSize; omega)

end Lib.Stores
