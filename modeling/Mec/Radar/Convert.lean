import Mec.Radar.Parser
import Mec.Fusion.Kalman

/-!
# From a detection to a track (`radar_processor.c`)

The polar coordinates of a detection become the metres of a plane, and these
are stored as the latitude and longitude of a track.
-/

namespace Mec

variable {K : Type} [Field K]

/-- `radar_config_t`, as far as a conversion reads it. -/
structure RadarConfig where
  radarId : Int

/-- `radar_polar_to_cartesian` on non-`NULL` results. -/
def radarPolarToCartesian (libm : Libm K) (range angle : K) : Int × K × K :=
  let angleRad := angle * mPi / 180.0
  (0, range * libm.cos angleRad, range * libm.sin angleRad)

/-- `radar_convert_to_track` on non-`NULL` arguments; every field of `*track` is
overwritten. -/
def radarConvertToTrack [LinearOrder K] (libm : Libm K) (detection : RadarDetection K)
    (config : RadarConfig) (track : TargetTrack K) : Int × TargetTrack K :=
  let (code, x, y) := radarPolarToCartesian libm detection.range detection.angle
  if code ≠ 0 then (-1, track)
  else
    (0,
      { id := detection.targetId
        type := .vehicle
        position := ⟨y, x, 0.0⟩
        velocity := detection.velocity
        heading := libm.atan2 y x * 180.0 / mPi
        confidence := if detection.rcs > -10.0 then 0.8 else 0.5
        sensorId := config.radarId
        timestamp := detection.timestamp })

end Mec
