import Mathlib.Data.List.DropRight
import Mec.Lib.Lines
import Mec.Lib.Scan

/-!
# The configuration store (`config.c`)

`config_load` reads a file line by line, keeps what stands before and after the
first `=` of each line, and stops at 200 entries; the lookups return the first
entry whose key is the name asked for, or the caller's default. Texts are C
strings, without their terminating zero.
-/

namespace Mec

open Lib.Lines Lib.Scan

/-- The codes of `mec_error_code_t` that the configuration uses. -/
inductive MecErrorCode where
  | ok
  | invalidParam
  | outOfMemory
  | initFailed
  | notFound
  | internal
  deriving DecidableEq, Repr

def mecMaxConfigs : Nat := 200

/-- `config_entry_t`; both texts fit their buffers of 128 and 512 bytes. -/
structure ConfigEntry where
  key : List Char
  value : List Char
  key_lt : key.length < 128
  value_lt : value.length < 512

/-- The entries of a `config_t`. -/
structure Config where
  entries : List ConfigEntry
  count_le : entries.length ≤ mecMaxConfigs

def isBlank (c : Char) : Bool := c = ' ' || c = '\t'

/-- What is trimmed from the end of a value. -/
def isTrailing (c : Char) : Bool := isBlank c || c = '\n' || c = '\r'

/-- Both texts cut to their buffers. -/
def ConfigEntry.cut (key value : List Char) : ConfigEntry where
  key := key.take 127
  value := value.take 511
  key_lt := by rw [List.length_take]; omega
  value_lt := by rw [List.length_take]; omega

/-- The entry of a line, if it has one: the key loses its leading blanks, the
value its trailing and then its leading ones. -/
def parseEntry (buffer : List Char) : Option ConfigEntry :=
  let line := cstr buffer
  if line.head? = some '#' ∨ line.head? = some '\n' ∨ line.head? = some '\r' then none
  else match line.dropWhile (· ≠ '=') with
    | [] => none
    | _ :: value =>
      some (.cut ((line.takeWhile (· ≠ '=')).dropWhile isBlank)
        ((value.rdropWhile isTrailing).dropWhile isBlank))

/-- The loop of `config_load` over the lines read. -/
def loadLines (config : Config) : List (List Char) → Config
  | [] => config
  | line :: rest =>
    if h : config.entries.length < mecMaxConfigs then
      match parseEntry line with
      | none => loadLines config rest
      | some entry => loadLines
          { entries := config.entries ++ [entry]
            count_le := by rw [List.length_append]; exact h } rest
    else config

/-- What the outside answers to `config_load`: the file, the block and the lock. -/
structure LoadEnv where
  file : Option (List Char)
  mallocOk : Bool
  lockOk : Bool

/-- `config_load` on non-`NULL` arguments, with the object a caller may use. -/
def configLoad (env : LoadEnv) : MecErrorCode × Option Config :=
  match env.file with
  | none => (.notFound, none)
  | some text =>
    if env.mallocOk then
      if env.lockOk then (.ok, some (loadLines ⟨[], Nat.zero_le _⟩ (chunks 511 text)))
      else (.initFailed, none)
    else (.outOfMemory, none)

/-- `config_get_string` on non-`NULL` pointers, `defaultValue` aside, with what it
writes to `out_value`; `lockOk` says whether the read lock is got. -/
def configGetString (lockOk : Bool) (config : Config) (key : List Char) (outSize : Nat)
    (defaultValue : Option (List Char)) : MecErrorCode × Option (List Char) :=
  if outSize = 0 then (.invalidParam, none)
  else if lockOk then
    match config.entries.find? (fun entry => entry.key = key) with
    | some entry => (.ok, some (entry.value.take (outSize - 1)))
    | none =>
      match defaultValue with
      | some value => (.ok, some (value.take (outSize - 1)))
      | none => (.notFound, none)
  else (.internal, none)

/-- `config_get_int` on non-`NULL` pointers. -/
def configGetInt (lockOk : Bool) (config : Config) (key : List Char) (defaultValue : Int) :
    MecErrorCode × Int :=
  match configGetString lockOk config key 512 none with
  | (.ok, some value) => (.ok, atoi value)
  | _ => (.ok, defaultValue)

/-- `config_get_double` on non-`NULL` pointers. -/
def configGetDouble {K : Type} [Zero K] (scanDouble : ScanDouble K) (lockOk : Bool)
    (config : Config) (key : List Char) (defaultValue : K) : MecErrorCode × K :=
  match configGetString lockOk config key 512 none with
  | (.ok, some value) => (.ok, atof scanDouble value)
  | _ => (.ok, defaultValue)

theorem loadLines_entries {lines : List (List Char)} : ∀ {config : Config},
    (loadLines config lines).entries =
      (config.entries ++ lines.filterMap parseEntry).take mecMaxConfigs := by
  induction lines with
  | nil =>
    intro config
    rw [List.filterMap_nil, List.append_nil, List.take_of_length_le config.count_le]
    rfl
  | cons line rest ih =>
    intro config
    unfold loadLines
    split
    · cases hline : parseEntry line with
      | none =>
        rw [List.filterMap_cons_none hline]
        exact ih
      | some entry =>
        rw [List.filterMap_cons_some hline]
        simp only [ih, List.append_assoc, List.singleton_append]
    · next hfull =>
      have hlen : config.entries.length = mecMaxConfigs :=
        Nat.le_antisymm config.count_le (Nat.le_of_not_lt hfull)
      rw [← hlen, List.take_left]

theorem configLoad_entries {env : LoadEnv} {text : List Char} {config : Config}
    (hfile : env.file = some text) (hload : configLoad env = (.ok, some config)) :
    config.entries = ((chunks 511 text).filterMap parseEntry).take mecMaxConfigs := by
  unfold configLoad at hload
  rw [hfile] at hload
  simp only at hload
  split at hload
  · split at hload
    · cases hload
      rw [loadLines_entries, List.nil_append]
    · cases hload
  · cases hload

/-- A file printed line by line leaves the entries of its lines, in order:
`render` prints a line, and `entry` is what is read from it, with or without a
newline at its end. -/
theorem configLoad_rendered {ι : Type} {render : ι → List Char} {entry : ι → Option ConfigEntry}
    (hrender : ∀ line, '\n' ∉ render line)
    (hparse : ∀ line newline, (∀ c ∈ newline, c = '\n') →
      parseEntry (render line ++ newline) = entry line)
    {env : LoadEnv} {ended : Bool} {file : List ι} {config : Config}
    (hfile : env.file = some (joinLines ended (file.map render)))
    (hlen : ∀ line ∈ file, (render line).length < 512)
    (hload : configLoad env = (.ok, some config)) :
    config.entries = (file.filterMap entry).take mecMaxConfigs := by
  have hterm : ∀ line, parseEntry (render line ++ ['\n']) = entry line := fun line =>
    hparse line ['\n'] (by simp)
  have hbare : ∀ line, parseEntry (render line) = entry line := fun line => by
    have h := hparse line [] (by simp)
    rwa [List.append_nil] at h
  rw [configLoad_entries hfile hload, filterMap_chunks (by decide) rfl (by decide),
    List.filterMap_map]
  · exact congrArg (List.take mecMaxConfigs) (List.filterMap_congr fun line _ => hbare line)
  · intro l hl
    obtain ⟨line, hmem, rfl⟩ := List.mem_map.mp hl
    exact ⟨hrender line, Nat.lt_succ_iff.mp (hlen line hmem),
      (hterm line).trans (hbare line).symm⟩

theorem configGetString_found {config : Config} {key : List Char} {entry : ConfigEntry}
    (hfind : config.entries.find? (fun entry => entry.key = key) = some entry) {outSize : Nat}
    (hout : outSize ≠ 0) (defaultValue : Option (List Char)) :
    configGetString true config key outSize defaultValue =
      (.ok, some (entry.value.take (outSize - 1))) := by
  unfold configGetString
  rw [if_neg hout, if_pos rfl, hfind]

end Mec
