import Mec.Config.Basic
import Mec.Lib.Pieces

/-!
# One line, one entry?

`config_load` takes what `fgets` returns for a line. A line of 511 bytes or more
comes in pieces, and every piece after the first is read like a line of its own.
`madeFrom` keeps the piece every entry was read from; `Harmless` says when the
text in front of a piece makes no difference.
-/

namespace Mec

open Lib.Lines

/-- The text in front of the first `=`. -/
def keyText (text : List Char) : List Char := (cstr text).takeWhile (· ≠ '=')

/-- What the loop stores of a key and of a value. -/
def keyOf (front : List Char) : List Char := (front.dropWhile isBlank).take 127

def valueOf (back : List Char) : List Char :=
  ((back.rdropWhile isTrailing).dropWhile isBlank).take 511

/-- The pieces the loop makes its entries from, up to 200. -/
def readPieces (text : List Char) : List Piece :=
  ((pieces 511 text).filter fun p => (parseEntry p.text).isSome).take mecMaxConfigs

/-- The entries of a file, each with the piece it was read from. -/
def madeFrom (text : List Char) : List (Piece × ConfigEntry) :=
  ((pieces 511 text).filterMap fun p => (parseEntry p.text).map (Prod.mk p)).take mecMaxConfigs

/-- The line is no comment, and the `=` the piece was split at is its first. The
value is what the piece holds of the text behind it. -/
def SplitsFirst (ℓ : List Char) (p : Piece) (e : ConfigEntry) : Prop :=
  ℓ.head? ≠ some '#' ∧
    ∃ after, ℓ = p.before ++ keyText p.text ++ '=' :: after ∧
      '=' ∉ p.before ++ keyText p.text ∧
      e.key = keyOf (p.before ++ keyText p.text) ∧ ∃ part, part <+: after ∧ e.value = valueOf part

/-- Every entry has a line of its own, and is that line split at its first `=`. -/
def OneEntryPerLine (text : List Char) (made : List (Piece × ConfigEntry)) : Prop :=
  (made.map fun x => x.1.line).Nodup ∧
    ∀ x ∈ made, ∃ ℓ, (physicalLines text)[x.1.line]? = some ℓ ∧ SplitsFirst ℓ x.1 x.2

/-- In front of the piece stand no `#` at the start and no `=`, and nothing that
would change the stored key. -/
def Harmless (p : Piece) : Prop :=
  p.before.head? ≠ some '#' ∧ '=' ∉ p.before ∧
    keyOf (p.before ++ keyText p.text) = keyOf (keyText p.text)

instance (p : Piece) : Decidable (Harmless p) := inferInstanceAs (Decidable (_ ∧ _))

variable {text : List Char}

/-! ## Entries and their pieces -/

theorem filterMap_pieces (ps : List Piece) :
    (ps.filterMap fun p => (parseEntry p.text).map (Prod.mk p)).map Prod.snd =
      (ps.map Piece.text).filterMap parseEntry := by
  rw [List.map_filterMap, List.filterMap_map]
  refine List.filterMap_congr fun p _ => ?_
  rw [Option.map_map]
  exact Option.map_id'

theorem madeFrom_snd : (madeFrom text).map Prod.snd =
    ((chunks 511 text).filterMap parseEntry).take mecMaxConfigs := by
  rw [madeFrom, List.map_take, filterMap_pieces, pieces_text]

theorem madeFrom_fst : (madeFrom text).map Prod.fst = readPieces text := by
  rw [madeFrom, readPieces, List.map_take, List.map_filterMap]
  congr 1
  induction pieces 511 text with
  | nil => rfl
  | cons p ps ih =>
    cases hp : parseEntry p.text with
    | none =>
      rw [List.filterMap_cons_none (by simp [hp]), ih, List.filter_cons_of_neg (by simp [hp])]
    | some e =>
      rw [List.filter_cons_of_pos (by simp [hp]), ← ih]
      exact List.filterMap_cons_some (by simp [hp])

theorem mem_madeFrom {x : Piece × ConfigEntry} (hx : x ∈ madeFrom text) :
    x.1 ∈ pieces 511 text ∧ parseEntry x.1.text = some x.2 := by
  obtain ⟨p, hp, hx⟩ := List.mem_filterMap.mp (List.mem_of_mem_take hx)
  obtain ⟨e, he, rfl⟩ := Option.map_eq_some_iff.mp hx
  exact ⟨hp, he⟩

theorem readPieces_pairwise : (readPieces text).Pairwise Piece.Precedes :=
  (pieces_pairwise.sublist List.filter_sublist).sublist (List.take_sublist _ _)

/-! ## What the loop reads of a piece -/

theorem parseEntry_eq_some {e : ConfigEntry} (h : parseEntry text = some e) :
    (keyText text).head? ≠ some '#' ∧ '=' ∉ keyText text ∧ e.key = keyOf (keyText text) ∧
      ∃ back, cstr text = keyText text ++ '=' :: back ∧ e.value = valueOf back := by
  unfold parseEntry at h
  simp only at h
  split at h
  · cases h
  · next hskip =>
    split at h
    · cases h
    · next c back hdrop =>
      cases h
      have hc : c = '=' := by
        have hnot := List.head?_dropWhile_not (· ≠ '=') (cstr text)
        rw [hdrop] at hnot
        simpa using hnot
      subst hc
      have hcut : cstr text = keyText text ++ '=' :: back := by
        rw [keyText, ← hdrop, List.takeWhile_append_dropWhile]
      refine ⟨fun hhead => hskip (.inl ?_), fun hmem => ?_, rfl, back, hcut, rfl⟩
      · rw [hcut, List.head?_append, hhead]
        rfl
      · exact absurd (List.mem_takeWhile_imp hmem) (by decide)

theorem line_of_piece {p : Piece} {e : ConfigEntry} {ℓ : List Char} (hlies : p.LiesIn ℓ)
    (hp : parseEntry p.text = some e) :
    ∃ after part, ℓ = p.before ++ keyText p.text ++ '=' :: after ∧ part <+: after ∧
      e.value = valueOf part := by
  obtain ⟨-, -, -, back, hcut, hvalue⟩ := parseEntry_eq_some hp
  obtain ⟨junk, hjunk⟩ : cstr p.text <+: p.text := List.takeWhile_prefix _
  rw [hcut] at hjunk
  generalize keyText p.text = front at hjunk ⊢
  obtain ⟨body, rest, rfl, htext | htext⟩ := hlies
  · refine ⟨back ++ junk ++ rest, back, ?_, by simp, hvalue⟩
    rw [← htext, ← hjunk]
    simp
  · rw [htext] at hjunk
    rcases List.eq_nil_or_concat' junk with rfl | ⟨junk, c, rfl⟩
    · -- the newline is the end of the value, and trimmed
      rcases List.eq_nil_or_concat' back with rfl | ⟨back, c, rfl⟩
      · rw [List.append_nil] at hjunk
        obtain ⟨-, h⟩ := List.append_inj' hjunk rfl
        cases h
      · rw [List.append_nil, ← List.cons_append, ← List.append_assoc] at hjunk
        obtain ⟨hbody, hc⟩ := List.append_inj' hjunk rfl
        cases hc
        refine ⟨back ++ rest, back, by rw [← hbody]; simp, by simp, ?_⟩
        rw [hvalue, valueOf, valueOf, List.rdropWhile_concat_pos isTrailing back '\n' (by decide)]
    · rw [← List.append_assoc] at hjunk
      obtain ⟨hbody, -⟩ := List.append_inj' hjunk rfl
      exact ⟨back ++ junk ++ rest, back, by rw [← hbody]; simp, by simp, hvalue⟩

theorem splitsFirst_iff {p : Piece} {e : ConfigEntry} {ℓ : List Char} (hlies : p.LiesIn ℓ)
    (hp : parseEntry p.text = some e) : SplitsFirst ℓ p e ↔ Harmless p := by
  obtain ⟨hhash, heq, hkey, -⟩ := parseEntry_eq_some hp
  constructor
  · rintro ⟨hhead, after, rfl, hfirst, hkey', -⟩
    refine ⟨fun h => hhead ?_, fun h => hfirst (List.mem_append_left _ h), ?_⟩
    · rw [List.append_assoc, List.head?_append, h]
      rfl
    · rw [← hkey', hkey]
  · rintro ⟨hhead, hbefore, hmoved⟩
    obtain ⟨after, part, rfl, hpart, hvalue⟩ := line_of_piece hlies hp
    refine ⟨?_, after, rfl, ?_, by rw [hmoved, hkey], part, hpart, hvalue⟩
    · cases hb : p.before with
      | cons c before => simpa [hb] using hhead
      | nil =>
        cases hk : keyText p.text with
        | cons c front => simpa [hk] using hhash
        | nil => simp
    · rw [List.mem_append]
      exact not_or.mpr ⟨hbefore, heq⟩

theorem lines_nodup (h : ∀ p ∈ readPieces text, '=' ∉ p.before) :
    ((readPieces text).map Piece.line).Nodup := by
  refine List.pairwise_map.mpr (readPieces_pairwise.imp_of_mem fun {p q} hp hq hpq hline => ?_)
  rcases hpq with hlt | ⟨-, hfront⟩
  · omega
  · -- the `=` of the earlier piece stands in front of the later one
    obtain ⟨-, hsome⟩ := List.mem_filter.mp (List.mem_of_mem_take hp)
    obtain ⟨e, he⟩ := Option.isSome_iff_exists.mp hsome
    obtain ⟨-, -, -, back, hcut, -⟩ := parseEntry_eq_some he
    have hmem : '=' ∈ cstr p.text := by simp [hcut]
    have heq : '=' ∈ p.text := (List.takeWhile_prefix _).subset hmem
    exact h q hq (hfront.subset (List.mem_append_right _ heq))

theorem oneEntryPerLine_iff :
    OneEntryPerLine text (madeFrom text) ↔ ∀ p ∈ readPieces text, Harmless p := by
  have hsplit : ∀ x ∈ madeFrom text,
      (∃ ℓ, (physicalLines text)[x.1.line]? = some ℓ ∧ SplitsFirst ℓ x.1 x.2) ↔ Harmless x.1 := by
    intro x hx
    obtain ⟨hmem, hparse⟩ := mem_madeFrom hx
    obtain ⟨ℓ, hℓ, hlies⟩ := pieces_line hmem
    simp only [hℓ, Option.some.injEq, exists_eq_left', splitsFirst_iff hlies hparse]
  rw [← madeFrom_fst, List.forall_mem_map]
  constructor
  · rintro ⟨-, hall⟩ x hx
    exact (hsplit x hx).mp (hall x hx)
  · intro hall
    have hbefore : ∀ p ∈ readPieces text, '=' ∉ p.before := by
      rw [← madeFrom_fst, List.forall_mem_map]
      exact fun x hx => (hall x hx).2.1
    have hnodup := lines_nodup hbefore
    rw [← madeFrom_fst, List.map_map] at hnodup
    exact ⟨hnodup, fun x hx => (hsplit x hx).mpr (hall x hx)⟩

/-- **One line, one entry** holds of a file exactly if every piece that yields an
entry is harmless: nothing in front of it in its line says otherwise. -/
theorem configLoad_one_entry {env : LoadEnv} {config : Config} (hfile : env.file = some text)
    (hload : configLoad env = (.ok, some config)) :
    config.entries = (madeFrom text).map Prod.snd ∧
      (OneEntryPerLine text (madeFrom text) ↔ ∀ p ∈ readPieces text, Harmless p) :=
  ⟨by rw [configLoad_entries hfile hload, madeFrom_snd], oneEntryPerLine_iff⟩

theorem configLoad_one_entry_short :
    OneEntryPerLine "# a=0\na=1\n".toList (madeFrom "# a=0\na=1\n".toList) := by
  have h := @configLoad_one_entry _ ⟨some "# a=0\na=1\n".toList, true, true⟩ _ rfl rfl
  exact h.2.mpr (by decide)

/-- What stands behind the first 511 bytes of a comment is read as a line. -/
theorem comment_tail_read {front tail : List Char} {c : Char} (hnl : '\n' ∉ '#' :: front ++ [c])
    (hlen : ('#' :: front).length + 1 = 511) {p : Piece}
    (htail : piecesFrom 511 0 ('#' :: front ++ [c]) [] tail = [p])
    (hp : (parseEntry p.text).isSome) : readPieces ('#' :: front ++ c :: tail) = [p] := by
  have hcomment : parseEntry ('#' :: front ++ [c]) = none := by simp [parseEntry, cstr]
  have hpieces : pieces 511 ('#' :: front ++ c :: tail) =
      ⟨0, [], '#' :: front ++ [c]⟩ :: piecesFrom 511 0 ('#' :: front ++ [c]) [] tail :=
    piecesFrom_full hnl hlen
  have hkeep : [p].filter (fun p => (parseEntry p.text).isSome) = [p] := by simp [hp]
  rw [readPieces, hpieces, htail, List.filter_cons_of_neg (by rw [hcomment]; decide), hkeep]
  rfl

/-- A comment of 514 bytes, with `a=1` where its second piece begins. -/
def longComment : List Char := '#' :: List.replicate 509 'x' ++ 'x' :: "a=1".toList

/-- The end of a long comment is an entry. -/
theorem configLoad_long_comment : ∃ config : Config,
    configLoad ⟨some longComment, true, true⟩ = (.ok, some config) ∧
      config.entries = (madeFrom longComment).map Prod.snd ∧
      ¬ OneEntryPerLine longComment (madeFrom longComment) := by
  have hload : configLoad ⟨some longComment, true, true⟩ =
      (.ok, some (loadLines ⟨[], Nat.zero_le _⟩ (chunks 511 longComment))) := rfl
  refine ⟨_, hload, by rw [configLoad_entries rfl hload, madeFrom_snd], fun h => ?_⟩
  have hnl : ∀ n, '\n' ∉ '#' :: List.replicate n 'x' ++ ['x'] := by simp [List.mem_replicate]
  have hlen : ('#' :: List.replicate 509 'x').length + 1 = 511 := by
    rw [List.length_cons, List.length_replicate]
  have hread : readPieces longComment = _ := comment_tail_read (hnl 509) hlen rfl rfl
  exact (oneEntryPerLine_iff.mp h _ (hread ▸ List.mem_singleton_self _)).1 rfl

end Mec
