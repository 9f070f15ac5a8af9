import Mathlib.Logic.Function.Basic
import Mec.Config.Basic

/-!
# The configuration handle

`config_load` and `config_reload` write through `config_t **config`. The heap
here holds the live `config_t` objects by address, the handle `*config`, and the
history of what was passed to `free`. A handle to an address with no object
dangles. `config_reload` frees the old object before anything can fail
(`configReload_failed`), so it keeps it only where nothing fails.
-/

namespace Mec

open Lib.Lines

structure ConfigHeap where
  object : Nat → Option Config
  config : Option Nat
  freed : List Nat

/-- What the outside answers to a load: whether `filename` is given, the file,
the block `malloc` returns and the lock. -/
structure HandleEnv where
  named : Bool
  file : Option (List Char)
  block : Option Nat
  lockOk : Bool

namespace HandleEnv

def loadEnv (env : HandleEnv) : LoadEnv :=
  { file := env.file, mallocOk := env.block.isSome, lockOk := env.lockOk }

/-- `fopen`, `malloc` and the lock initialisation all succeed. -/
def Succeeds (env : HandleEnv) : Prop :=
  env.file.isSome ∧ env.block.isSome ∧ env.lockOk = true

instance (env : HandleEnv) : Decidable env.Succeeds := inferInstanceAs (Decidable (_ ∧ _))

end HandleEnv

namespace ConfigHeap

def free (h : ConfigHeap) (a : Nat) : ConfigHeap :=
  { h with object := Function.update h.object a none, freed := h.freed ++ [a] }

def store (h : ConfigHeap) (a : Nat) (config : Config) : ConfigHeap :=
  { h with object := Function.update h.object a (some config) }

def configFree (h : ConfigHeap) (config : Option Nat) : ConfigHeap :=
  match config with
  | some a => h.free a
  | none => h

/-- `config_load` on a non-`NULL` handle. -/
def configLoad (h : ConfigHeap) (env : HandleEnv) : MecErrorCode × ConfigHeap :=
  if env.named then
    match env.file with
    | none => (.notFound, h)
    | some text =>
      match env.block with
      | none => (.outOfMemory, { h with config := none })
      | some b =>
        let h := { h.store b ⟨[], Nat.zero_le _⟩ with config := some b }
        if env.lockOk then (.ok, h.store b (loadLines ⟨[], Nat.zero_le _⟩ (chunks 511 text)))
        else (.initFailed, h.free b)
  else (.invalidParam, h)

/-- `config_reload` on a non-`NULL` handle. -/
def configReload (h : ConfigHeap) (env : HandleEnv) : MecErrorCode × ConfigHeap :=
  if env.named then (h.configFree h.config).configLoad env else (.invalidParam, h)

/-- `config_get_string` through the handle; `none` where it reads an object that
is not there. -/
def configGetString (h : ConfigHeap) (lockOk : Bool) (key : List Char) (outSize : Nat)
    (defaultValue : Option (List Char)) : Option (MecErrorCode × Option (List Char)) :=
  match h.config with
  | none => some (.invalidParam, none)
  | some a => (h.object a).map fun config =>
      Mec.configGetString lockOk config key outSize defaultValue

variable {h : ConfigHeap} {env : HandleEnv}

theorem configLoad_eq (hnamed : env.named = true) :
    (h.configLoad env).1 = (Mec.configLoad env.loadEnv).1 ∧
      ∀ config, (Mec.configLoad env.loadEnv).2 = some config →
        ∃ b, env.block = some b ∧ (h.configLoad env).2.config = some b ∧
          (h.configLoad env).2.object b = some config := by
  obtain ⟨named, file, block, lockOk⟩ := env
  cases hnamed
  cases file with
  | none => exact ⟨rfl, fun _ hload => nomatch hload⟩
  | some text =>
    cases block with
    | none => exact ⟨rfl, fun _ hload => nomatch hload⟩
    | some b =>
      cases lockOk with
      | false => exact ⟨rfl, fun _ hload => nomatch hload⟩
      | true =>
        refine ⟨rfl, fun config hload => ⟨b, rfl, rfl, ?_⟩⟩
        rw [← hload]
        exact Function.update_self b _ _

theorem configLoad_ok_iff (hnamed : env.named = true) :
    (h.configLoad env).1 = .ok ↔ env.Succeeds := by
  obtain ⟨named, file, block, lockOk⟩ := env
  cases hnamed
  cases file <;> cases block <;> cases lockOk <;> simp [configLoad, HandleEnv.Succeeds]

theorem configLoad_freed (hnamed : env.named = true) (hok : env.Succeeds) :
    (h.configLoad env).2.freed = h.freed := by
  obtain ⟨named, file, block, lockOk⟩ := env
  obtain ⟨hfile, hblock, hlock⟩ := hok
  obtain ⟨text, rfl⟩ := Option.isSome_iff_exists.mp hfile
  obtain ⟨b, rfl⟩ := Option.isSome_iff_exists.mp hblock
  cases hnamed
  cases hlock
  rfl

theorem configLoad_failed (hfail : ¬ env.Succeeds)
    (hnone : ∀ a, h.config = some a → h.object a = none) :
    ∀ a, (h.configLoad env).2.config = some a → (h.configLoad env).2.object a = none := by
  obtain ⟨named, file, block, lockOk⟩ := env
  cases named with
  | false => exact hnone
  | true =>
    cases file with
    | none => exact hnone
    | some text =>
      cases block with
      | none => exact fun a ha => nomatch ha
      | some b =>
        cases lockOk with
        | true => exact absurd ⟨rfl, rfl, rfl⟩ hfail
        | false =>
          rintro a ha
          cases ha
          exact Function.update_self b _ _

/-- The first thing a reload does is give the old object away. -/
theorem configReload_named {a : Nat} (hnamed : env.named = true) (hhandle : h.config = some a) :
    h.configReload env = (h.free a).configLoad env := by
  rw [configReload, if_pos hnamed, hhandle]
  rfl

/-- After a reload that fails on the file, the block or the lock, the handle is
`NULL` or dangles. -/
theorem configReload_failed {a : Nat} (hnamed : env.named = true) (hfail : ¬ env.Succeeds)
    (hhandle : h.config = some a) :
    ∀ b, (h.configReload env).2.config = some b → (h.configReload env).2.object b = none := by
  rw [configReload_named hnamed hhandle]
  refine configLoad_failed hfail fun b hb => ?_
  obtain rfl : a = b := Option.some.inj (hhandle.symm.trans hb)
  exact Function.update_self a _ _

/-- What a caller of `config_reload` with a live handle counts on. -/
structure KeepsOld (h : ConfigHeap) (a : Nat) (result : MecErrorCode × ConfigHeap) : Prop where
  failed : result.1 ≠ .ok →
    result.2.config = some a ∧ result.2.object a = h.object a ∧ result.2.freed = h.freed
  reloaded : result.1 = .ok → result.2.freed = h.freed ++ [a]

/-- **A failed reload keeps the old configuration** exactly if there is no failed
reload after the check of the name: for every live handle, what `config_reload`
promises holds if and only if `filename` is `NULL`, or the file is opened, the
block allocated and the lock initialised. -/
theorem configReload_keeps_old {a : Nat} {config : Config} (hhandle : h.config = some a)
    (hlive : h.object a = some config) :
    KeepsOld h a (h.configReload env) ↔ env.named = false ∨ env.Succeeds := by
  cases hnamed : env.named with
  | false =>
    have hsame : h.configReload env = (.invalidParam, h) := by
      rw [configReload, if_neg (by simp [hnamed])]
    rw [hsame]
    exact ⟨fun _ => .inl rfl, fun _ => ⟨fun _ => ⟨hhandle, rfl, rfl⟩, fun hok => nomatch hok⟩⟩
  | true =>
    have hok : (h.configReload env).1 = .ok ↔ env.Succeeds := by
      rw [configReload_named hnamed hhandle]
      exact configLoad_ok_iff hnamed
    constructor
    · intro hkeeps
      refine .inr (by_contra fun hfail => ?_)
      obtain ⟨hconfig, hobject, -⟩ := hkeeps.failed (mt hok.mp hfail)
      have hgone := configReload_failed hnamed hfail hhandle a hconfig
      rw [hobject, hlive] at hgone
      cases hgone
    · rintro (hfalse | hs)
      · cases hfalse
      · refine ⟨fun hnot => absurd (hok.mpr hs) hnot, fun _ => ?_⟩
        rw [configReload_named hnamed hhandle, configLoad_freed hnamed hs]
        rfl

def oneObject (config : Config) : ConfigHeap :=
  { object := Function.update (fun _ => none) 0 (some config), config := some 0, freed := [] }

/-- The file is there, and the new object gets the address of the old one. -/
theorem configReload_keeps_old_reused :
    KeepsOld (oneObject ⟨[], Nat.zero_le _⟩) 0
      ((oneObject ⟨[], Nat.zero_le _⟩).configReload ⟨true, some "a=1".toList, some 0, true⟩) :=
  (configReload_keeps_old rfl rfl).mpr (.inr (by decide))

/-- The file is missing: the handle still names the object that has been freed, a
lookup reads it, and `config_free` frees it again. -/
theorem configReload_missing_file :
    ∃ (h : ConfigHeap) (config : Config), h.config = some 0 ∧ h.object 0 = some config ∧
      (h.configReload ⟨true, none, some 1, true⟩).1 = .notFound ∧
      ¬ KeepsOld h 0 (h.configReload ⟨true, none, some 1, true⟩) ∧
      let t := (h.configReload ⟨true, none, some 1, true⟩).2
      t.configGetString true "a".toList 8 none = none ∧ (t.configFree t.config).freed = [0, 0] := by
  refine ⟨oneObject ⟨[], Nat.zero_le _⟩, ⟨[], Nat.zero_le _⟩, rfl, rfl, rfl, fun hkeeps => ?_,
    rfl, rfl⟩
  obtain ⟨-, -, hfreed⟩ := hkeeps.failed (by decide)
  cases hfreed

end ConfigHeap

end Mec
