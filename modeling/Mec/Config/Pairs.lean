import Mec.Config.Sections

/-!
# Pairs with blanks around them

A file of `key = value` lines with any blanks on either side of both parts,
between comments and blank lines. `config_load` trims the value on both sides
and the key on the left; the blanks between key and `=` stay part of the stored
key, and no lookup asks for a key that ends in a blank. `Found` are the pairs a
lookup can see; `pair_lookup_iff` says when that is enough.
-/

namespace Mec

open Lib.Lines

/-- A key as a lookup can ask for it and a line can hold it. -/
structure ConfKey where
  chars : List Char
  ne_nil : chars ≠ []
  short : chars.length < 128
  line : ∀ c ∈ chars, c ≠ '=' ∧ c ≠ '\n' ∧ c ≠ '\x00'
  head : ∀ c ∈ chars.head?, c ≠ '#' ∧ isBlank c = false
  last : ∀ c ∈ chars.getLast?, isBlank c = false

/-- Spaces, tabs and carriage returns. -/
structure Trailing where
  chars : List Char
  trailing : ∀ c ∈ chars, isTrailing c = true ∧ c ≠ '\n'

structure ConfPair where
  key : ConfKey
  before : Blanks
  after : Blanks
  value : ConfValue
  trail : Trailing

namespace ConfPair

def render (p : ConfPair) : List Char :=
  p.key.chars ++ p.before.chars ++ '=' :: (p.after.chars ++ p.value.chars ++ p.trail.chars)

/-- What `config_load` makes of the line. A line that begins with a carriage
return counts as empty. -/
def entry (p : ConfPair) : Option ConfigEntry :=
  if p.key.chars.head? = some '\r' then none
  else some (.cut (p.key.chars ++ p.before.chars) p.value.chars)

/-- No blank is left at the end of the stored key: there is none before the `=`,
or the key fills the buffer. -/
def Found (p : ConfPair) : Prop :=
  (p.before.chars = [] ∨ p.key.chars.length = 127) ∧ p.key.chars.head? ≠ some '\r'

instance (p : ConfPair) : Decidable p.Found := inferInstanceAs (Decidable (_ ∧ _))

end ConfPair

inductive PairLine where
  | comment (text : ConfComment)
  | blank (spaces : Trailing)
  | pair (p : ConfPair)

namespace PairLine

def render : PairLine → List Char
  | comment text => '#' :: text.chars
  | blank spaces => spaces.chars
  | pair p => p.render

def pair? : PairLine → Option ConfPair
  | pair p => some p
  | _ => none

end PairLine

def pairsOf (file : List PairLine) : List ConfPair := file.filterMap PairLine.pair?

def pairText (ended : Bool) (file : List PairLine) : List Char :=
  joinLines ended (file.map PairLine.render)

/-! ## What a line leaves -/

namespace ConfPair

variable (p : ConfPair)

theorem front_line : ∀ c ∈ p.key.chars ++ p.before.chars, c ≠ '=' ∧ c ≠ '\n' ∧ c ≠ '\x00' := by
  intro c hc
  rcases List.mem_append.mp hc with hc | hc
  · exact p.key.line c hc
  · refine ⟨?_, ?_, ?_⟩ <;> (rintro rfl; exact not_mem_of_all p.before.blank (by decide) hc)

theorem back_line : ∀ c ∈ p.after.chars ++ p.value.chars ++ p.trail.chars,
    c ≠ '\n' ∧ c ≠ '\x00' := by
  intro c hc
  simp only [List.mem_append] at hc
  rcases hc with (hc | hc) | hc
  · constructor <;> (rintro rfl; exact not_mem_of_all p.after.blank (by decide) hc)
  · exact p.value.line c hc
  · obtain ⟨htrail, hnl⟩ := p.trail.trailing c hc
    refine ⟨hnl, ?_⟩
    rintro rfl
    exact absurd htrail (by decide)

theorem newline_not_mem_render : '\n' ∉ p.render := by
  intro hc
  rcases List.mem_append.mp hc with hc | hc
  · exact (p.front_line _ hc).2.1 rfl
  · rcases List.mem_cons.mp hc with hc | hc
    · cases hc
    · exact (p.back_line _ hc).1 rfl

theorem front_head : (p.key.chars ++ p.before.chars).head? = p.key.chars.head? :=
  List.head?_append_of_ne_nil _ p.key.ne_nil

/-- The blanks on the right of the key are not trimmed. -/
theorem front_trimmed :
    (p.key.chars ++ p.before.chars).dropWhile isBlank = p.key.chars ++ p.before.chars := by
  obtain ⟨k, ks, hk⟩ := List.exists_cons_of_ne_nil p.key.ne_nil
  have hblank : isBlank k = false := (p.key.head k (by rw [hk]; rfl)).2
  rw [hk, List.cons_append, List.dropWhile_cons_of_neg (by rw [hblank]; decide)]

theorem parseEntry_render {newline : List Char} (hnl : ∀ c ∈ newline, c = '\n') :
    parseEntry (p.render ++ newline) = p.entry := by
  have htail : ∀ c ∈ p.trail.chars ++ newline, isTrailing c = true := by
    intro c hc
    rcases List.mem_append.mp hc with hc | hc
    · exact (p.trail.trailing c hc).1
    · rw [hnl c hc]
      decide
  have hline : p.render ++ newline = p.key.chars ++ p.before.chars ++
      '=' :: (p.after.chars ++ p.value.chars ++ (p.trail.chars ++ newline)) := by
    simp only [render, List.append_assoc, List.cons_append]
  have hzero : '\x00' ∉ p.render ++ newline := by
    intro hc
    rcases List.mem_append.mp hc with hc | hc
    · rcases List.mem_append.mp hc with hc | hc
      · exact (p.front_line _ hc).2.2 rfl
      · rcases List.mem_cons.mp hc with hc | hc
        · cases hc
        · exact (p.back_line _ hc).2 rfl
    · exact absurd (hnl _ hc) (by decide)
  unfold entry
  by_cases hcr : p.key.chars.head? = some '\r'
  · have hhead : (cstr (p.render ++ newline)).head? = some '\r' := by
      rw [cstr_of_not_mem hzero, hline, List.append_assoc,
        List.head?_append_of_ne_nil _ p.key.ne_nil, hcr]
    rw [if_pos hcr]
    simp only [parseEntry, hhead, or_true, if_true]
  · have hhead : ∀ c ∈ (p.key.chars ++ p.before.chars).head?, c ≠ '#' ∧ c ≠ '\n' ∧ c ≠ '\r' := by
      intro c hc
      rw [p.front_head] at hc
      refine ⟨(p.key.head c hc).1, (p.key.line c (List.mem_of_mem_head? hc)).2.1, ?_⟩
      rintro rfl
      exact hcr hc
    rw [hline] at hzero ⊢
    rw [if_neg hcr, parseEntry_split (fun hc => (p.front_line _ hc).1 rfl) hzero hhead,
      p.front_trimmed, trim_value p.after p.value htail]

theorem entry_key_iff {p : ConfPair} {e : ConfigEntry} (he : p.entry = some e) (key : ConfKey) :
    e.key = key.chars ↔ p.key.chars = key.chars ∧ p.Found := by
  unfold entry at he
  split at he
  · cases he
  next hcr =>
  cases he
  have hshort : p.key.chars.length ≤ 127 := Nat.lt_succ_iff.mp p.key.short
  show (p.key.chars ++ p.before.chars).take 127 = key.chars ↔ _
  by_cases hfull : p.before.chars = [] ∨ p.key.chars.length = 127
  · have htake : (p.key.chars ++ p.before.chars).take 127 = p.key.chars := by
      rcases hfull with hnil | hlen
      · rw [hnil, List.append_nil, List.take_of_length_le hshort]
      · rw [← hlen, List.take_left]
    rw [htake]
    exact ⟨fun h => ⟨h, hfull, hcr⟩, fun h => h.1⟩
  · -- the stored key ends in a blank
    refine iff_of_false (fun hkey => ?_) fun h => hfull h.2.1
    obtain ⟨hnil, hlen⟩ := not_or.mp hfull
    obtain ⟨m, hm⟩ : ∃ m, 127 - p.key.chars.length = m + 1 :=
      ⟨126 - p.key.chars.length, by omega⟩
    obtain ⟨b, bs, hb⟩ := List.exists_cons_of_ne_nil hnil
    rw [List.take_append, List.take_of_length_le hshort, hm, hb, List.take_succ_cons] at hkey
    have hne : (b :: bs.take m) ≠ [] := List.cons_ne_nil _ _
    have hlast : key.chars.getLast? = some ((b :: bs.take m).getLast hne) := by
      rw [← hkey, List.getLast?_append_of_ne_nil _ hne, List.getLast?_eq_some_getLast hne]
    have hmem : (b :: bs.take m).getLast hne ∈ p.before.chars := by
      rw [hb]
      rcases List.mem_cons.mp (List.getLast_mem hne) with h | h
      · rw [h]
        exact List.mem_cons_self
      · exact List.mem_cons_of_mem _ (List.mem_of_mem_take h)
    have hblank := p.before.blank _ hmem
    rw [key.last _ hlast] at hblank
    cases hblank

end ConfPair

namespace PairLine

def entry (line : PairLine) : Option ConfigEntry := line.pair?.bind ConfPair.entry

theorem newline_not_mem_render (line : PairLine) : '\n' ∉ line.render := by
  cases line with
  | comment text =>
    intro hc
    rcases List.mem_cons.mp hc with hc | hc
    · cases hc
    · exact text.line _ hc rfl
  | blank spaces => exact fun hc => (spaces.trailing _ hc).2 rfl
  | pair p => exact p.newline_not_mem_render

theorem parseEntry_render (line : PairLine) {newline : List Char}
    (hnl : ∀ c ∈ newline, c = '\n') : parseEntry (line.render ++ newline) = line.entry := by
  cases line with
  | comment text => simp [render, parseEntry, cstr, entry, pair?]
  | blank spaces =>
    refine parseEntry_eq_none fun hc => ?_
    rcases List.mem_append.mp hc with hc | hc
    · exact absurd (spaces.trailing _ hc).1 (by decide)
    · exact absurd (hnl _ hc) (by decide)
  | pair p => exact p.parseEntry_render hnl

end PairLine

/-! ## What a file leaves -/

theorem filterMap_entry (file : List PairLine) :
    file.filterMap PairLine.entry = (pairsOf file).filterMap ConfPair.entry := by
  rw [pairsOf, List.filterMap_filterMap]
  rfl

theorem configLoad_pairs {env : LoadEnv} {ended : Bool} {file : List PairLine} {config : Config}
    (hfile : env.file = some (pairText ended file))
    (hlen : ∀ line ∈ file, line.render.length < 512) (hcount : (pairsOf file).length ≤ 200)
    (hload : configLoad env = (.ok, some config)) :
    config.entries = (pairsOf file).filterMap ConfPair.entry := by
  have hshort : ((pairsOf file).filterMap ConfPair.entry).length ≤ mecMaxConfigs :=
    (List.length_filterMap_le _ _).trans hcount
  rw [configLoad_rendered PairLine.newline_not_mem_render
    (fun line _ hnl => line.parseEntry_render hnl) hfile hlen hload, filterMap_entry,
    List.take_of_length_le hshort]

theorem find_entry (pairs : List ConfPair) (key : ConfKey) :
    (pairs.filterMap ConfPair.entry).find? (fun e => e.key = key.chars) =
      (pairs.find? fun p => p.key.chars = key.chars ∧ p.Found).map fun p =>
        .cut (p.key.chars ++ p.before.chars) p.value.chars := by
  induction pairs with
  | nil => rfl
  | cons p pairs ih =>
    cases he : p.entry with
    | none =>
      have hnot : ¬(p.key.chars = key.chars ∧ p.Found) := by
        rintro ⟨-, -, hcr⟩
        rw [ConfPair.entry, if_neg hcr] at he
        cases he
      rw [List.filterMap_cons_none he, List.find?_cons_of_neg (by simpa using hnot), ih]
    | some e =>
      have hkey := ConfPair.entry_key_iff he key
      rw [List.filterMap_cons_some he]
      by_cases hfound : p.key.chars = key.chars ∧ p.Found
      · rw [List.find?_cons_of_pos (by simpa using hkey.mpr hfound),
          List.find?_cons_of_pos (by simpa using hfound)]
        rw [ConfPair.entry, if_neg hfound.2.2] at he
        exact he.symm
      · rw [List.find?_cons_of_neg (by simpa using mt hkey.mp hfound),
          List.find?_cons_of_neg (by simpa using hfound), ih]

theorem value_length {file : List PairLine} (hlen : ∀ line ∈ file, line.render.length < 512)
    {p : ConfPair} (hp : p ∈ pairsOf file) : p.value.chars.length ≤ 511 := by
  obtain ⟨line, hline, hpair⟩ := List.mem_filterMap.mp hp
  cases line with
  | comment text => cases hpair
  | blank spaces => cases hpair
  | pair q =>
    cases hpair
    have hlt := hlen _ hline
    simp only [PairLine.render, ConfPair.render, List.length_append, List.length_cons] at hlt
    omega

/-- **When config entries round-trip.** After a load of such a file, the lookup of
a key answers with the value of the first pair with that key, for every large
enough buffer and every default, exactly if that is also the value of the first
such pair that is written without a blank between key and `=`. -/
theorem pair_lookup_iff {env : LoadEnv} {ended : Bool} {file : List PairLine} {config : Config}
    (hfile : env.file = some (pairText ended file))
    (hlen : ∀ line ∈ file, line.render.length < 512) (hcount : (pairsOf file).length ≤ 200)
    (hload : configLoad env = (.ok, some config)) (key : ConfKey) (first : ConfPair) :
    (pairsOf file).find? (fun p => p.key.chars = key.chars) = some first →
    ((∀ outSize defaultValue, first.value.chars.length < outSize →
      configGetString true config key.chars outSize defaultValue =
        (.ok, some first.value.chars)) ↔
    ∃ p, (pairsOf file).find? (fun p => p.key.chars = key.chars ∧ p.Found) = some p ∧
      p.value.chars = first.value.chars) := by
  intro _
  have hfind := find_entry (pairsOf file) key
  rw [← configLoad_pairs hfile hlen hcount hload] at hfind
  cases hp : (pairsOf file).find? (fun p => p.key.chars = key.chars ∧ p.Found) with
  | none =>
    rw [hp] at hfind
    refine iff_of_false (fun h => ?_) (fun ⟨p, h, _⟩ => by cases h)
    -- without a default nothing is found
    have hget := h (first.value.chars.length + 1) none (Nat.lt_succ_self _)
    unfold configGetString at hget
    rw [if_neg (Nat.succ_ne_zero _), if_pos rfl, hfind] at hget
    cases hget
  | some p =>
    rw [hp] at hfind
    have hshort := value_length hlen (List.mem_of_find?_eq_some hp)
    have hget : ∀ outSize defaultValue, outSize ≠ 0 →
        configGetString true config key.chars outSize defaultValue =
          (.ok, some (p.value.chars.take (outSize - 1))) := by
      intro outSize defaultValue hout
      rw [configGetString_found hfind hout]
      show (MecErrorCode.ok, some ((p.value.chars.take 511).take (outSize - 1))) = _
      rw [List.take_of_length_le hshort]
    constructor
    · intro h
      refine ⟨p, rfl, ?_⟩
      let outSize := first.value.chars.length + p.value.chars.length + 1
      have hanswer := h outSize none (by omega)
      rw [hget outSize none (Nat.succ_ne_zero _), List.take_of_length_le (by omega)] at hanswer
      exact Option.some.inj (congrArg Prod.snd hanswer)
    · rintro ⟨q, hq, hvalue⟩ outSize defaultValue hout
      cases hq
      rw [hget outSize defaultValue (by omega), List.take_of_length_le (by rw [hvalue]; omega),
        hvalue]

/-! ## A pair with and without the blank -/

def rateKey : ConfKey where
  chars := "rate".toList
  ne_nil := by decide
  short := by decide
  line := by simp
  head := by rintro c ⟨⟩; exact ⟨by decide, rfl⟩
  last := by rintro c ⟨⟩; rfl

def ratePair (before : Blanks) : ConfPair :=
  ⟨rateKey, before, .space, twoAndAHalf, ⟨[], List.forall_mem_nil _⟩⟩

example : pairText true [.pair (ratePair .space)] = "rate = 2.5\n".toList := by decide

def ratePairEnv (before : Blanks) : LoadEnv :=
  ⟨some (pairText true [.pair (ratePair before)]), true, true⟩

theorem pair_lookup_iff_attached :
    ∃ config, configLoad (ratePairEnv .none) = (.ok, some config) ∧
      configGetString true config "rate".toList 512 none = (.ok, some "2.5".toList) := by
  have hfile : (ratePairEnv .none).file = some (pairText true [.pair (ratePair .none)]) := rfl
  have hload : configLoad (ratePairEnv .none) = (.ok, some _) := rfl
  exact ⟨_, hload, (pair_lookup_iff hfile (by decide) (by decide) hload rateKey (ratePair .none)
    rfl).mpr ⟨ratePair .none, rfl, rfl⟩ 512 none (by decide)⟩

/-- With a blank before the `=` the key is not found. -/
theorem spaced_key_not_found :
    ¬∀ (env : LoadEnv) (ended : Bool) (file : List PairLine) (config : Config) (key : ConfKey)
        (first : ConfPair) (outSize : Nat) (defaultValue : Option (List Char)),
        env.file = some (pairText ended file) →
        (∀ line ∈ file, line.render.length < 512) → (pairsOf file).length ≤ 200 →
        configLoad env = (.ok, some config) →
        (pairsOf file).find? (fun p => p.key.chars = key.chars) = some first →
        first.value.chars.length < outSize →
        configGetString true config key.chars outSize defaultValue =
          (.ok, some first.value.chars) := by
  intro hclaim
  have h := hclaim (ratePairEnv .space) true _ _ rateKey (ratePair .space) 512 none rfl
    (by decide) (by decide) rfl rfl (by decide)
  revert h
  decide

end Mec
