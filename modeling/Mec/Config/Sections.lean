import Mec.Config.Basic

/-!
# Sectioned configuration files

The shipped `config/mec.conf` groups its keys under `[section]` lines, and `main`
asks for `section.key`. `ConfLine` is a line of such a file and `sectionedValue`
says what the dotted name means in it. `config_load` keeps no section: a header
has no `=` and leaves no entry, and an entry's key is what stands before the `=`.
No key it loads has a dot, so every lookup by a dotted name falls back to the
default.
-/

namespace Mec

open Lib.Lines Lib.Scan

def isNameChar (c : Char) : Bool :=
  !isSpace c && c ≠ '\x00' && c ≠ '#' && c ≠ '=' && c ≠ '.' && c ≠ '[' && c ≠ ']'

structure ConfName where
  chars : List Char
  ne_nil : chars ≠ []
  name : ∀ c ∈ chars, isNameChar c = true

structure Blanks where
  chars : List Char
  blank : ∀ c ∈ chars, isBlank c = true

namespace Blanks

def none : Blanks := ⟨[], List.forall_mem_nil _⟩

def space : Blanks := ⟨[' '], List.forall_mem_singleton.mpr rfl⟩

end Blanks

/-- A value without the blanks around it, as it can stand on a line. -/
structure ConfValue where
  chars : List Char
  line : ∀ c ∈ chars, c ≠ '\n' ∧ c ≠ '\x00'
  head : ∀ c ∈ chars.head?, isBlank c = false
  last : ∀ c ∈ chars.getLast?, isTrailing c = false

structure ConfComment where
  chars : List Char
  line : ∀ c ∈ chars, c ≠ '\n'

inductive ConfLine where
  | header (indent : Blanks) (name : ConfName) (trail : Blanks)
  | comment (text : ConfComment)
  | blank (spaces : Blanks)
  | setting (indent : Blanks) (key : ConfName) (before after : Blanks) (value : ConfValue)
      (trail : Blanks)

namespace ConfLine

def render : ConfLine → List Char
  | header indent name trail => indent.chars ++ '[' :: name.chars ++ ']' :: trail.chars
  | comment text => '#' :: text.chars
  | blank spaces => spaces.chars
  | setting indent key before after value trail =>
    indent.chars ++ key.chars ++ before.chars ++ '=' :: (after.chars ++ value.chars ++ trail.chars)

/-- What `config_load` makes of the line: the key keeps the blanks before the `=`. -/
def entry : ConfLine → Option ConfigEntry
  | setting _ key before _ value _ => some (.cut (key.chars ++ before.chars) value.chars)
  | _ => none

end ConfLine

/-- The text of a file; its last line may lack the newline. -/
def fileText (ended : Bool) : List ConfLine → List Char
  | [] => []
  | [line] => line.render ++ if ended then ['\n'] else []
  | line :: rest => line.render ++ '\n' :: fileText ended rest

/-- The value of the first setting of `key` under a header of `sec`; `current` is
the section the lines begin in. -/
def valueIn (sec key : List Char) (current : Option (List Char)) :
    List ConfLine → Option (List Char)
  | [] => none
  | .header _ name _ :: rest => valueIn sec key (some name.chars) rest
  | .setting _ k _ _ value _ :: rest =>
    if current = some sec ∧ k.chars = key then some value.chars
    else valueIn sec key current rest
  | _ :: rest => valueIn sec key current rest

/-- What `section.key` means in the file. -/
def sectionedValue (file : List ConfLine) (sec key : ConfName) : Option (List Char) :=
  valueIn sec.chars key.chars none file

/-- What a lookup should answer: the value, or the caller's default if there is none. -/
def lookupSpec (value : Option (List Char)) (outSize : Nat) (defaultValue : Option (List Char)) :
    MecErrorCode × Option (List Char) :=
  match value.or defaultValue with
  | some v => (.ok, some (v.take (outSize - 1)))
  | none => (.notFound, none)

/-! ## What a line leaves -/

theorem not_mem_of_all {p : Char → Bool} {cs : List Char} {c : Char}
    (h : ∀ c ∈ cs, p c = true) (hc : p c = false) : c ∉ cs := by
  intro hmem
  rw [h c hmem] at hc
  cases hc

theorem cstr_of_not_mem {cs : List Char} (h : '\x00' ∉ cs) : cstr cs = cs :=
  List.takeWhile_eq_self_iff.mpr fun c hc => by
    simp only [decide_eq_true_eq]
    rintro rfl
    exact h hc

theorem parseEntry_eq_none {buffer : List Char} (h : '=' ∉ buffer) : parseEntry buffer = none := by
  have hrest : (cstr buffer).dropWhile (· ≠ '=') = [] := by
    refine List.dropWhile_eq_nil_iff.mpr fun c hc => ?_
    simp only [decide_eq_true_eq]
    rintro rfl
    exact h ((List.takeWhile_sublist _).subset hc)
  simp only [parseEntry, hrest, ite_self]

theorem rdropWhile_append {p : Char → Bool} {cs tail : List Char} (htail : ∀ c ∈ tail, p c = true) :
    (cs ++ tail).rdropWhile p = cs.rdropWhile p := by
  unfold List.rdropWhile
  rw [List.reverse_append, List.dropWhile_append_of_pos]
  intro c hc
  exact htail c (List.mem_reverse.mp hc)

theorem trim_value (after : Blanks) (value : ConfValue) {tail : List Char}
    (htail : ∀ c ∈ tail, isTrailing c = true) :
    ((after.chars ++ value.chars ++ tail).rdropWhile isTrailing).dropWhile isBlank =
      value.chars := by
  rw [rdropWhile_append htail]
  by_cases hnil : value.chars = []
  · have hafter : after.chars.rdropWhile isTrailing = [] :=
      List.rdropWhile_eq_nil_iff.mpr fun c hc => by simp [isTrailing, after.blank c hc]
    rw [hnil, List.append_nil, hafter]
    rfl
  · have hlast : ∀ h : after.chars ++ value.chars ≠ [],
        ¬isTrailing ((after.chars ++ value.chars).getLast h) = true := by
      intro h
      rw [List.getLast_append_of_ne_nil h hnil, value.last _ (List.getLast?_eq_some_getLast hnil)]
      decide
    rw [List.rdropWhile_eq_self_iff.mpr hlast, List.dropWhile_append_of_pos after.blank]
    obtain ⟨c, cs, hc⟩ := List.exists_cons_of_ne_nil hnil
    have hhead : isBlank c = false := value.head c (by rw [hc]; rfl)
    rw [hc, List.dropWhile_cons_of_neg (by simp [hhead])]

theorem parseEntry_split {front back : List Char} (heq : '=' ∉ front)
    (hzero : '\x00' ∉ front ++ '=' :: back)
    (hhead : ∀ c ∈ front.head?, c ≠ '#' ∧ c ≠ '\n' ∧ c ≠ '\r') :
    parseEntry (front ++ '=' :: back) =
      some (.cut (front.dropWhile isBlank) ((back.rdropWhile isTrailing).dropWhile isBlank)) := by
  have hskip : ¬((front ++ '=' :: back).head? = some '#' ∨ (front ++ '=' :: back).head? = some '\n' ∨
      (front ++ '=' :: back).head? = some '\r') := by
    cases front with
    | nil => simp
    | cons c front =>
      obtain ⟨h1, h2, h3⟩ := hhead c rfl
      simp [h1, h2, h3]
  have hpos : ∀ c ∈ front, decide (c ≠ '=') = true := by
    intro c hc
    simp only [decide_eq_true_eq]
    rintro rfl
    exact heq hc
  have hback : (front ++ '=' :: back).dropWhile (· ≠ '=') = '=' :: back := by
    rw [List.dropWhile_append_of_pos hpos, List.dropWhile_cons_of_neg (by decide)]
  have hfront : (front ++ '=' :: back).takeWhile (· ≠ '=') = front := by
    rw [List.takeWhile_append_of_pos hpos, List.takeWhile_cons_of_neg (by decide), List.append_nil]
  simp only [parseEntry, cstr_of_not_mem hzero, if_neg hskip, hback, hfront]

theorem parseEntry_setting (indent : Blanks) (key : ConfName) (before after : Blanks)
    (value : ConfValue) {tail : List Char} (htail : ∀ c ∈ tail, isTrailing c = true) :
    parseEntry (indent.chars ++ key.chars ++ before.chars ++
        '=' :: (after.chars ++ value.chars ++ tail)) =
      some (.cut (key.chars ++ before.chars) value.chars) := by
  have hfront : ∀ c ∈ indent.chars ++ key.chars ++ before.chars, c ≠ '=' ∧ c ≠ '\x00' := by
    intro c hc
    simp only [List.mem_append] at hc
    constructor
    all_goals
      rintro rfl
      rcases hc with (hc | hc) | hc
      · exact not_mem_of_all indent.blank (by decide) hc
      · exact not_mem_of_all key.name (by decide) hc
      · exact not_mem_of_all before.blank (by decide) hc
  have hzero : '\x00' ∉ indent.chars ++ key.chars ++ before.chars ++
      '=' :: (after.chars ++ value.chars ++ tail) := by
    intro hc
    rcases List.mem_append.mp hc with hc | hc
    · exact (hfront _ hc).2 rfl
    · rcases List.mem_cons.mp hc with hc | hc
      · cases hc
      · simp only [List.mem_append] at hc
        rcases hc with (hc | hc) | hc
        · exact not_mem_of_all after.blank (by decide) hc
        · exact (value.line _ hc).2 rfl
        · exact absurd (htail _ hc) (by decide)
  obtain ⟨k, ks, hk⟩ := List.exists_cons_of_ne_nil key.ne_nil
  have hname : isNameChar k = true := key.name k (by rw [hk]; exact List.mem_cons_self)
  -- the first character is a blank or belongs to the key
  have hhead : ∀ c ∈ (indent.chars ++ key.chars ++ before.chars).head?,
      c ≠ '#' ∧ c ≠ '\n' ∧ c ≠ '\r' := by
    intro c hc
    have hc' : isBlank c = true ∨ isNameChar c = true := by
      cases hi : indent.chars with
      | nil =>
        rw [hi, hk] at hc
        cases hc
        exact .inr hname
      | cons b bs =>
        rw [hi] at hc
        obtain rfl : b = c := Option.some.inj hc
        exact .inl (indent.blank b (by rw [hi]; exact List.mem_cons_self))
    refine ⟨?_, ?_, ?_⟩ <;> (rintro rfl; revert hc'; decide)
  have hkey : (indent.chars ++ key.chars ++ before.chars).dropWhile isBlank =
      key.chars ++ before.chars := by
    have hnot : ¬isBlank k = true := by
      intro hblank
      have hspace : isSpace k = true := by
        simp only [isBlank, Bool.or_eq_true, decide_eq_true_eq] at hblank
        rcases hblank with rfl | rfl <;> decide
      simp [isNameChar, hspace] at hname
    rw [List.append_assoc, List.dropWhile_append_of_pos indent.blank, hk, List.cons_append,
      List.dropWhile_cons_of_neg hnot]
  rw [parseEntry_split (fun hc => (hfront _ hc).1 rfl) hzero hhead, hkey,
    trim_value after value htail]

namespace ConfLine

theorem not_mem_header {c : Char} {indent trail : Blanks} {name : ConfName}
    (hblank : isBlank c = false) (hname : isNameChar c = false) (hopen : c ≠ '[')
    (hclose : c ≠ ']') : c ∉ (header indent name trail).render := by
  intro hc
  simp only [render, List.mem_append, List.mem_cons] at hc
  rcases hc with (hc | hc | hc) | hc | hc
  · exact not_mem_of_all indent.blank hblank hc
  · exact hopen hc
  · exact not_mem_of_all name.name hname hc
  · exact hclose hc
  · exact not_mem_of_all trail.blank hblank hc

theorem parseEntry_render (line : ConfLine) {newline : List Char}
    (hnl : ∀ c ∈ newline, c = '\n') : parseEntry (line.render ++ newline) = line.entry := by
  have hnot : ∀ c, c ≠ '\n' → c ∉ newline := fun c hc hmem => hc (hnl c hmem)
  cases line with
  | header indent name trail =>
    refine parseEntry_eq_none fun hc => ?_
    rcases List.mem_append.mp hc with hc | hc
    · exact not_mem_header (by decide) (by decide) (by decide) (by decide) hc
    · exact hnot _ (by decide) hc
  | comment text =>
    simp [render, parseEntry, cstr, entry]
  | blank spaces =>
    refine parseEntry_eq_none fun hc => ?_
    rcases List.mem_append.mp hc with hc | hc
    · exact not_mem_of_all spaces.blank (by decide) hc
    · exact hnot _ (by decide) hc
  | setting indent key before after value trail =>
    have htail : ∀ c ∈ trail.chars ++ newline, isTrailing c = true := by
      intro c hc
      rcases List.mem_append.mp hc with hc | hc
      · simp [isTrailing, trail.blank c hc]
      · rw [hnl c hc]
        decide
    have := parseEntry_setting indent key before after value htail
    simpa only [render, entry, List.append_assoc, List.cons_append] using this

theorem newline_not_mem_render (line : ConfLine) : '\n' ∉ line.render := by
  cases line with
  | header indent name trail =>
    exact not_mem_header (by decide) (by decide) (by decide) (by decide)
  | comment text =>
    intro hc
    rcases List.mem_cons.mp hc with hc | hc
    · cases hc
    · exact text.line _ hc rfl
  | blank spaces => exact not_mem_of_all spaces.blank (by decide)
  | setting indent key before after value trail =>
    intro hc
    simp only [render, List.mem_append, List.mem_cons] at hc
    rcases hc with ((hc | hc) | hc) | hc | (hc | hc) | hc
    · exact not_mem_of_all indent.blank (by decide) hc
    · exact not_mem_of_all key.name (by decide) hc
    · exact not_mem_of_all before.blank (by decide) hc
    · cases hc
    · exact not_mem_of_all after.blank (by decide) hc
    · exact (value.line _ hc).1 rfl
    · exact not_mem_of_all trail.blank (by decide) hc

end ConfLine

/-! ## What a file leaves -/

theorem fileText_eq (ended : Bool) (file : List ConfLine) :
    fileText ended file = joinLines ended (file.map ConfLine.render) := by
  induction file using fileText.induct with
  | case1 => rfl
  | case2 line => rfl
  | case3 line rest hrest ih =>
    obtain ⟨next, rest, rfl⟩ := List.exists_cons_of_ne_nil hrest
    rw [fileText, ih]
    · rfl
    · exact hrest

theorem configLoad_file {env : LoadEnv} {ended : Bool} {file : List ConfLine} {config : Config}
    (hfile : env.file = some (fileText ended file))
    (hlen : ∀ line ∈ file, line.render.length < 512)
    (hload : configLoad env = (.ok, some config)) :
    config.entries = (file.filterMap ConfLine.entry).take mecMaxConfigs := by
  rw [fileText_eq] at hfile
  exact configLoad_rendered ConfLine.newline_not_mem_render
    (fun line _ hnl => line.parseEntry_render hnl) hfile hlen hload

theorem ConfLine.dot_not_mem {line : ConfLine} {entry : ConfigEntry} (h : line.entry = some entry) :
    '.' ∉ entry.key := by
  cases line with
  | setting indent key before after value trail =>
    cases h
    intro hc
    rcases List.mem_append.mp (List.mem_of_mem_take hc) with hc | hc
    · exact not_mem_of_all key.name (by decide) hc
    · exact not_mem_of_all before.blank (by decide) hc
  | header indent name trail => cases h
  | comment text => cases h
  | blank spaces => cases h

theorem dotted_not_found {config : Config} {file : List ConfLine}
    (hentries : config.entries = (file.filterMap ConfLine.entry).take mecMaxConfigs)
    (sec key : List Char) :
    config.entries.find? (fun entry => entry.key = sec ++ '.' :: key) = none := by
  refine List.find?_eq_none.mpr fun entry hmem => ?_
  rw [hentries] at hmem
  obtain ⟨line, -, hline⟩ := List.mem_filterMap.mp (List.mem_of_mem_take hmem)
  simp only [decide_eq_true_eq]
  intro hkey
  refine line.dot_not_mem hline ?_
  rw [hkey]
  exact List.mem_append_right _ List.mem_cons_self

/-- **When a sectioned file means what `main` reads.** After a load of such a file
a lookup of `section.key` answers as it should exactly if the section has no such
key, or its value reads like the caller's default: the lookup always answers with
the default. -/
theorem sectioned_lookup_iff {env : LoadEnv} {ended : Bool} {file : List ConfLine}
    {config : Config} (hfile : env.file = some (fileText ended file))
    (hlen : ∀ line ∈ file, line.render.length < 512)
    (hload : configLoad env = (.ok, some config)) (sec key : ConfName) {outSize : Nat}
    (hout : outSize ≠ 0) (defaultValue : Option (List Char)) :
    configGetString true config (sec.chars ++ '.' :: key.chars) outSize defaultValue =
        lookupSpec (sectionedValue file sec key) outSize defaultValue ↔
      sectionedValue file sec key = none ∨
        ∃ value dflt, sectionedValue file sec key = some value ∧ defaultValue = some dflt ∧
          value.take (outSize - 1) = dflt.take (outSize - 1) := by
  have hnone := dotted_not_found (configLoad_file hfile hlen hload) sec.chars key.chars
  have hcode : configGetString true config (sec.chars ++ '.' :: key.chars) outSize defaultValue =
      lookupSpec none outSize defaultValue := by
    unfold configGetString lookupSpec
    rw [if_neg hout, if_pos rfl, hnone]
    cases defaultValue <;> rfl
  rw [hcode]
  cases sectionedValue file sec key with
  | none => simp
  | some value =>
    cases defaultValue with
    | none => simp [lookupSpec]
    | some dflt =>
      simp only [lookupSpec, Option.or_some, Prod.mk.injEq, Option.some.injEq, true_and,
        reduceCtorEq, false_or]
      constructor
      · intro h
        exact ⟨value, dflt, rfl, rfl, h.symm⟩
      · rintro ⟨v, d, rfl, rfl, h⟩
        exact h.symm

def fusionName : ConfName where
  chars := "fusion".toList
  ne_nil := by decide
  name := List.all_eq_true.mp (by decide)

def thresholdName : ConfName where
  chars := "association_threshold".toList
  ne_nil := by decide
  name := List.all_eq_true.mp (by decide)

/-- A file in the form of `config/mec.conf`, its threshold set to `value`. -/
def fusionFile (value : ConfValue) : List ConfLine :=
  [.header .none fusionName .none,
    .setting .none thresholdName .space .space value .none]

def twoAndAHalf : ConfValue where
  chars := "2.5".toList
  line := by simp
  head := by rintro c ⟨⟩; rfl
  last := by rintro c ⟨⟩; rfl

example : fileText true (fusionFile twoAndAHalf) =
    "[fusion]\nassociation_threshold = 2.5\n".toList := by decide

def loadedFrom (file : List ConfLine) : LoadEnv := ⟨some (fileText true file), true, true⟩

/-- The threshold of the section is 2.5 and the lookup answers 5.0. -/
theorem sectioned_value_ignored :
    ¬ ∀ (env : LoadEnv) (ended : Bool) (file : List ConfLine) (config : Config)
        (sec key : ConfName) (outSize : Nat) (defaultValue : Option (List Char)),
        env.file = some (fileText ended file) →
        (∀ line ∈ file, line.render.length < 512) →
        configLoad env = (.ok, some config) → outSize ≠ 0 →
        configGetString true config (sec.chars ++ '.' :: key.chars) outSize defaultValue =
          lookupSpec (sectionedValue file sec key) outSize defaultValue := by
  intro hclaim
  have h := hclaim (loadedFrom (fusionFile twoAndAHalf)) true _ _ fusionName thresholdName 512
    (some "5.0".toList) rfl (by decide) rfl (by decide)
  revert h
  decide

theorem sectioned_lookup_iff_default :
    ∃ config, configLoad (loadedFrom (fusionFile twoAndAHalf)) = (.ok, some config) ∧
      configGetString true config "fusion.association_threshold".toList 512
        (some "2.5".toList) = (.ok, some "2.5".toList) := by
  have hfile : (loadedFrom (fusionFile twoAndAHalf)).file =
      some (fileText true (fusionFile twoAndAHalf)) := rfl
  have hload : configLoad (loadedFrom (fusionFile twoAndAHalf)) = (.ok, some _) := rfl
  exact ⟨_, hload, (sectioned_lookup_iff hfile (by decide) hload fusionName thresholdName
    (by decide) (some "2.5".toList)).mpr (.inr ⟨_, _, rfl, rfl, by decide⟩)⟩

end Mec
