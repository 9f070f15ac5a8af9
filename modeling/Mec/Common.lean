import Mathlib.Algebra.Order.Field.Basic

/-!
# Common data structures (`mec_common.h`)

Doubles are the elements of a type `K` that the numeric modules take to be an
ordered field, so that arithmetic is exact. The C `int` fields are integers;
where a width matters the operation on the field says so.
-/

namespace Mec

structure Timeval where
  tvSec : Int
  tvUsec : Int
  deriving DecidableEq, Repr

def Timeval.micros (t : Timeval) : Int := t.tvSec * 1000000 + t.tvUsec

structure Wgs84Coord (K : Type) where
  latitude : K
  longitude : K
  altitude : K
  deriving DecidableEq, Repr

/-- `target_type_t`. An `int` cast to the enumeration can carry any other code. -/
inductive TargetType where
  | vehicle
  | nonVehicle
  | pedestrian
  | obstacle
  | other (code : Int)
  deriving DecidableEq, Repr

structure TargetTrack (K : Type) where
  id : Int
  type : TargetType
  position : Wgs84Coord K
  velocity : K
  heading : K
  confidence : K
  timestamp : Timeval
  sensorId : Int
  deriving DecidableEq, Repr

end Mec
