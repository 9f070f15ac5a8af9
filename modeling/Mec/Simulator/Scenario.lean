import Mec.Common
import Mec.Lib.Lines
import Mec.Lib.Scan

/-!
# Scenario files (`simulator.c`)

A scenario is read in lines through a buffer of 512 bytes. A line that is a
comment or from which `sscanf` cannot convert all nine fields is skipped. How
`%lf` converts a number is the argument `scanDouble`.
-/

namespace Mec

open Lib.Lines Lib.Scan

variable {K : Type}

/-- The nine fields of a line. -/
structure ScenarioLine (K : Type) where
  relTimeMs : Int
  sensorId : Int
  id : Int
  type : Int
  lat : K
  lon : K
  vel : K
  heading : K
  conf : K

/-- `(target_type_t)code`. -/
def TargetType.ofCode (code : Int) : TargetType :=
  if code = 0 then .vehicle
  else if code = 1 then .nonVehicle
  else if code = 2 then .pedestrian
  else if code = 3 then .obstacle
  else .other code

/-- The `sscanf` of `simulator_thread`, `none` unless it returns 9. -/
def scanScenario (scanDouble : ScanDouble K) (line : List Char) : Option (ScenarioLine K) := do
  let (relTimeMs, rest) ← scanLong (cstr line)
  let (sensorId, rest) ← scanInt rest
  let (id, rest) ← scanInt rest
  let (type, rest) ← scanInt rest
  let (lat, rest) ← scanDouble rest
  let (lon, rest) ← scanDouble rest
  let (vel, rest) ← scanDouble rest
  let (heading, rest) ← scanDouble rest
  let (conf, _) ← scanDouble rest
  some { relTimeMs, sensorId, id, type, lat, lon, vel, heading, conf }

/-- The fields of a line that the thread does not skip. -/
def parseLine (scanDouble : ScanDouble K) (line : List Char) : Option (ScenarioLine K) :=
  if line.head? = some '#' ∨ line.head? = some '\n' then none else scanScenario scanDouble line

/-- The lines of a scenario file as the thread reads them. -/
def scenarioLines (text : List Char) : List (List Char) := chunks 511 text

/-- The detection of a line injected at `now`. -/
def ScenarioLine.track [Zero K] (r : ScenarioLine K) (now : Timeval) : TargetTrack K where
  id := r.id
  type := .ofCode r.type
  position := ⟨r.lat, r.lon, 0⟩
  velocity := r.vel
  heading := r.heading
  confidence := r.conf
  timestamp := now
  sensorId := r.sensorId

end Mec
