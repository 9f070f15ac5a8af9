import Mathlib.Data.Rat.Cast.Order
import Mec.Config.Basic
import Mec.Fusion.Commute
import Mec.Fusion.Decisions

/-!
# Reloading the configuration (`main.c`)

The fusion thresholds exist three times: in the configuration object, in
`main`'s `fusion_cfg`, and in the copy `fusion_processor_create` took of it. A
reload brings the first two up to date. The processor decides by the third, which
nothing writes after its creation.
-/

namespace Mec

open Lib.Lts Lib.Scan

variable {K : Type}

section Thresholds

variable [Field K]

/-- `config_get_double` of the association and the confidence threshold. -/
def loadedAssociation (scanDouble : ScanDouble K) (config : Config) : K :=
  (configGetDouble scanDouble true config "fusion.association_threshold".toList 5.0).2

def loadedConfidence (scanDouble : ScanDouble K) (config : Config) : K :=
  (configGetDouble scanDouble true config "fusion.confidence_threshold".toList 0.3).2

/-- The `fusion_cfg` that `main` sets up, as far as the processor reads it. -/
def mainFusionCfg (scanDouble : ScanDouble K) : Option Config → FusionConfig K
  | some config =>
    { associationThreshold := loadedAssociation scanDouble config
      confidenceThreshold := loadedConfidence scanDouble config
      maxTrackAge := (configGetInt true config "fusion.max_track_age".toList 50).2 }
  | none => { associationThreshold := 5.0, confidenceThreshold := 0.3, maxTrackAge := 50 }

end Thresholds

/-- `config_reload` on non-`NULL` arguments: the old object, if any, is freed and
the file is loaded. -/
def configReload (env : LoadEnv) : MecErrorCode × Option Config := configLoad env

/-- `main` and the fusion processor. `config` is `NULL` or the last object a load
returned; `handled`, a history variable, says that a reload has been handled. -/
structure MainSys (K : Type) where
  reloadConfig : Bool
  config : Option Config
  fusionCfg : FusionConfig K
  processor : FusionProcessor K
  handled : Bool

/-- A reload requested (`signal_handler` on `SIGHUP`, for which `main` does not
install it), the reload check at the top of the main loop, a message fed by the
loop, and a pass of the fusion thread. -/
inductive MainAct (K : Type) where
  | hangup
  | loopTop (env : LoadEnv)
  | message (tracks : TrackList K) (sensorId : Int)
  | pass (env : PassEnv K)

/-- The thresholds the step's decisions compared something with. -/
structure Decisions (K : Type) where
  association : List K
  deletion : List K

def Decisions.none : Decisions K := { association := [], deletion := [] }

section Step

variable [Field K] [LinearOrder K]

/-- `main` once the configuration was loaded, or not, and the processor created. -/
def MainSys.start (scanDouble : ScanDouble K) (config : Option Config) (fresh : Fresh K) :
    MainSys K :=
  { reloadConfig := false
    config := config
    fusionCfg := mainFusionCfg scanDouble config
    processor := fusionProcessorCreate (mainFusionCfg scanDouble config) fresh
    handled := false }

def mainStep (libm : Libm K) (scanDouble : ScanDouble K) (s : MainSys K) :
    MainAct K → Option (MainSys K × Decisions K)
  | .hangup => some ({ s with reloadConfig := true }, .none)
  | .loopTop env =>
    if s.reloadConfig then
      match configReload env with
      | (.ok, some newCfg) =>
        some ({ s with
          reloadConfig := false
          config := some newCfg
          fusionCfg := { s.fusionCfg with
            associationThreshold := loadedAssociation scanDouble newCfg
            confidenceThreshold := loadedConfidence scanDouble newCfg }
          handled := true }, .none)
      | _ => some ({ s with reloadConfig := false, handled := true }, .none)
    else some (s, .none)
  | .message tracks sensorId =>
    let r := addTracksLogged libm sensorId s.processor tracks.contents
    some ({ s with processor := r.1 }, { association := r.2, deletion := [] })
  | .pass env =>
    let r := fusionPassLogged libm env s.processor
    some ({ s with processor := r.1 }, { association := [], deletion := r.2 })

end Step

/-! ## Which thresholds decide -/

section Deciding

variable [Field K] [LinearOrder K] {libm : Libm K} {scanDouble : ScanDouble K}

/-- The processor decides by the configuration it was created with, and its table
has room for a track. -/
def DecidesBy (c : FusionConfig K) (s : MainSys K) : Prop :=
  s.processor.config = c ∧ 0 < s.processor.trackCapacity

theorem mainStep_decidesBy (c : FusionConfig K) (s : MainSys K) (a : MainAct K) (t : MainSys K)
    (e : Decisions K) (hs : DecidesBy c s) (h : mainStep libm scanDouble s a = some (t, e)) :
    DecidesBy c t := by
  cases a with
  | hangup =>
    cases h
    exact hs
  | loopTop env =>
    simp only [mainStep] at h
    split at h
    · split at h <;> cases h <;> exact hs
    · cases h
      exact hs
  | message tracks sensorId =>
    cases h
    unfold DecidesBy
    dsimp only
    rw [addTracksLogged_fst]
    exact addTracks_invariant
      (I := fun _ _ q => q.config = c ∧ 0 < q.trackCapacity) (S := [])
      (fun _ q meas hq => ⟨(addDetection_config libm sensorId q meas).trans hq.1, by
        rw [(addDetection_frame libm sensorId q meas).1]
        exact hq.2⟩) tracks.contents [] s.processor hs
  | pass env =>
    cases h
    have hframe := fusionPass_frame libm env s.processor
    unfold DecidesBy
    dsimp only
    rw [fusionPassLogged_fst, hframe.config, hframe.capacity]
    exact hs

namespace MainSys

/-- `main`'s own copy has the thresholds of the configuration object. -/
def Copied (scanDouble : ScanDouble K) (s : MainSys K) : Prop :=
  ∀ config, s.config = some config →
    s.fusionCfg.associationThreshold = loadedAssociation scanDouble config ∧
      s.fusionCfg.confidenceThreshold = loadedConfidence scanDouble config

/-- The decisions of a step taken in `s` after a handled reload use the
thresholds of the last configuration loaded. -/
def Follows (scanDouble : ScanDouble K) (s : MainSys K) (e : Decisions K) : Prop :=
  s.handled = true → ∀ config, s.config = some config →
    (∀ x ∈ e.association, x = loadedAssociation scanDouble config) ∧
      ∀ x ∈ e.deletion, x = loadedConfidence scanDouble config

/-- After a handled reload, a message whose detections find a track to be compared
with finds the association threshold last loaded equal to that of `c`, and a pass
over a track that is not too old the confidence threshold. -/
def Keeps (scanDouble : ScanDouble K) (c : FusionConfig K) (s : MainSys K) : MainAct K → Prop
  | .message tracks _ => s.handled = true → tracks.contents ≠ [] →
      (s.processor.trackCount ≠ 0 ∨ 2 ≤ tracks.contents.length) →
      ∀ config, s.config = some config →
        loadedAssociation scanDouble config = c.associationThreshold
  | .pass _ => s.handled = true → (∃ t ∈ s.processor.live, t.age + 1 ≤ c.maxTrackAge) →
      ∀ config, s.config = some config →
        loadedConfidence scanDouble config = c.confidenceThreshold
  | _ => True

end MainSys

/-- Main's copy is kept up to date by every reload, so that the log is right. -/
theorem fusionCfg_copied {config : Option Config} {fresh : Fresh K}
    {tr : List (MainAct K × Decisions K)} {s : MainSys K}
    (hrun : Run (mainStep libm scanDouble) (.start scanDouble config fresh) tr s) :
    s.Copied scanDouble := by
  refine hrun.invariant (I := MainSys.Copied scanDouble) (fun s a t e hs h => ?_) ?_
  · cases a with
    | hangup =>
      cases h
      exact hs
    | loopTop env =>
      simp only [mainStep] at h
      split at h
      · split at h <;> cases h
        · rintro config ⟨⟩
          exact ⟨rfl, rfl⟩
        · exact hs
      · cases h
        exact hs
    | message tracks sensorId =>
      cases h
      exact hs
    | pass env =>
      cases h
      exact hs
  · rintro config ⟨⟩
    exact ⟨rfl, rfl⟩

theorem follows_iff {c : FusionConfig K} {s t : MainSys K} {a : MainAct K} {e : Decisions K}
    (hs : DecidesBy c s) (h : mainStep libm scanDouble s a = some (t, e)) :
    s.Follows scanDouble e ↔ s.Keeps scanDouble c a := by
  have hnone : s.Follows scanDouble .none := fun _ config _ => by simp [Decisions.none]
  cases a with
  | hangup =>
    cases h
    exact iff_of_true hnone trivial
  | loopTop env =>
    refine iff_of_true ?_ trivial
    simp only [mainStep] at h
    split at h
    · split at h <;> cases h <;> exact hnone
    · cases h
      exact hnone
  | message tracks sensorId =>
    cases h
    obtain ⟨hall, hsome⟩ := addTracksLogged_snd libm sensorId tracks.contents s.processor hs.2
    rw [hs.1] at hall
    constructor
    · intro hf hh hne hfound config hc
      obtain ⟨x, hx⟩ := List.exists_mem_of_ne_nil _ (hsome.mpr ⟨hne, hfound⟩)
      rw [← (hf hh config hc).1 x hx, hall x hx]
    · intro hk hh config hc
      refine ⟨fun x hx => ?_, fun x hx => by cases hx⟩
      obtain ⟨hne, hfound⟩ := hsome.mp (List.ne_nil_of_mem hx)
      rw [hall x hx, hk hh hne hfound config hc]
  | pass env =>
    cases h
    have hmem (x : K) := mem_fusionPassLogged libm env s.processor (x := x)
    rw [hs.1] at hmem
    constructor
    · intro hf hh hyoung config hc
      exact ((hf hh config hc).2 _ ((hmem _).mpr ⟨hyoung, rfl⟩)).symm
    · intro hk hh config hc
      refine ⟨fun x hx => (by cases hx), fun x hx => ?_⟩
      obtain ⟨hyoung, rfl⟩ := (hmem x).mp hx
      exact (hk hh hyoung config hc).symm

end Deciding

/-- **When a reload takes effect.** In a run of `main` and the fusion thread every
decision after a handled reload uses the thresholds last loaded if and only if,
wherever a detection is compared with a track and wherever the confidence of a
track is tested after a handled reload, the threshold last loaded is the one `main`
started with. -/
theorem reload_effective_iff [Field K] [LinearOrder K] {libm : Libm K}
    {scanDouble : ScanDouble K} {config : Option Config} {fresh : Fresh K}
    {tr : List (MainAct K × Decisions K)} {s : MainSys K}
    (hrun : Run (mainStep libm scanDouble) (.start scanDouble config fresh) tr s) :
    (∀ tr₁ a e tr₂ t, tr = tr₁ ++ (a, e) :: tr₂ →
      Run (mainStep libm scanDouble) (.start scanDouble config fresh) tr₁ t →
      t.Follows scanDouble e) ↔
    ∀ tr₁ a e tr₂ t, tr = tr₁ ++ (a, e) :: tr₂ →
      Run (mainStep libm scanDouble) (.start scanDouble config fresh) tr₁ t →
      t.Keeps scanDouble (mainFusionCfg scanDouble config) a := by
  have hstep : ∀ tr₁ a e tr₂ t, tr = tr₁ ++ (a, e) :: tr₂ →
      Run (mainStep libm scanDouble) (.start scanDouble config fresh) tr₁ t →
      (t.Follows scanDouble e ↔ t.Keeps scanDouble (mainFusionCfg scanDouble config) a) := by
    rintro tr₁ a e tr₂ t rfl h₁
    obtain ⟨t', h₁', hrest⟩ := hrun.split
    obtain rfl := h₁.det h₁'
    cases hrest with
    | cons h _ => exact follows_iff (h₁.invariant (mainStep_decidesBy _) ⟨rfl, Nat.succ_pos 99⟩) h
  constructor
  · intro hall tr₁ a e tr₂ t htr h₁
    exact (hstep tr₁ a e tr₂ t htr h₁).mp (hall tr₁ a e tr₂ t htr h₁)
  · intro hall tr₁ a e tr₂ t htr h₁
    exact (hstep tr₁ a e tr₂ t htr h₁).mpr (hall tr₁ a e tr₂ t htr h₁)

def thresholdEnv (value : String) : LoadEnv where
  file := some ("fusion.association_threshold=".toList ++ value.toList ++ ['\n'])
  mallocOk := true
  lockOk := true

def nearCar : TrackList ℚ :=
  { oneCar ⟨101, 0⟩ with
    tracks := [carAt 1.6]
    tracks_length := rfl }

/-- A car is in the table and the threshold is reloaded from 5.0 to 2.0; the next
detection, farther than 2.0 and nearer than 5.0, is compared with 5.0. -/
theorem reload_ignored :
    ¬ ∀ (config : Option Config) (fresh : Fresh ℚ) (tr : List (MainAct ℚ × Decisions ℚ))
        (s : MainSys ℚ),
        Run (mainStep .rat scanDecimal) (.start scanDecimal config fresh) tr s →
        ∀ tr₁ a e tr₂ t, tr = tr₁ ++ (a, e) :: tr₂ →
          Run (mainStep .rat scanDecimal) (.start scanDecimal config fresh) tr₁ t →
          t.Follows scanDecimal e := by
  intro hclaim
  have hreload : Run (mainStep .rat scanDecimal)
      (.start scanDecimal (configLoad (thresholdEnv "5.0")).2 none)
      [(.message (oneCar ⟨100, 0⟩) 1, _), (.hangup, .none),
        (.loopTop (thresholdEnv "2.0"), .none)] _ :=
    .cons rfl (.cons rfl (.cons rfl (.nil _)))
  have hrun := hreload.snoc (a := .message nearCar 1) rfl
  have hfollows := (hclaim _ _ _ _ hrun _ _ _ [] _ rfl hreload rfl _ rfl).1
  revert hfollows
  decide +kernel

theorem reload_effective_iff_same : ∃ (tr : List (MainAct ℚ × Decisions ℚ)) (s : MainSys ℚ),
    Run (mainStep .rat scanDecimal)
        (.start scanDecimal (configLoad (thresholdEnv "5.0")).2 none) tr s ∧
      s.handled = true ∧
      ∀ tr₁ a e tr₂ t, tr = tr₁ ++ (a, e) :: tr₂ →
        Run (mainStep .rat scanDecimal)
          (.start scanDecimal (configLoad (thresholdEnv "5.0")).2 none) tr₁ t →
        t.Follows scanDecimal e := by
  have hreload : Run (mainStep .rat scanDecimal)
      (.start scanDecimal (configLoad (thresholdEnv "5.0")).2 none)
      [(.message (oneCar ⟨100, 0⟩) 1, _), (.hangup, .none),
        (.loopTop (thresholdEnv "5.0"), .none)] _ :=
    .cons rfl (.cons rfl (.cons rfl (.nil _)))
  have hrun := hreload.snoc (a := .message nearCar 1) rfl
  refine ⟨_, _, hrun, rfl, (reload_effective_iff hrun).mpr ?_⟩
  rintro (_ | ⟨w, _ | ⟨x, _ | ⟨y, _ | ⟨z, tr₁⟩⟩⟩⟩) a e tr₂ t htr h₁
  · cases htr
    cases h₁
    intro hhandled
    cases hhandled
  · cases htr
    trivial
  · cases htr
    trivial
  · cases htr
    obtain rfl := h₁.det hreload
    rintro - - - config ⟨⟩
    rfl
  · simp at htr

end Mec
