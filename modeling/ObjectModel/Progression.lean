import ObjectModel.Arithmetic

/-!
# Arithmetic progressions

The values that a `range` runs through: from `start`, `step` apart, as long as they stand before
`stop` in the direction of the step.
-/

namespace ObjectModel

/-- Bounds of a range. -/
structure Progression where
  start : Int64
  stop : Int64
  step : Int64
  deriving DecidableEq

namespace Progression

/-- Whether `value` stands before the end in the direction of the step. -/
def admits (p : Progression) (value : Int64) : Bool :=
  if 0 < p.step then value < p.stop else p.stop < value

/-- Number of values: the distance to the end in units of the step, rounded up. -/
def length (p : Progression) : Nat :=
  if p.admits p.start then
    let distance := (p.stop.toInt - p.start.toInt).natAbs
    let unit := p.step.toInt.natAbs
    (distance + unit - 1) / unit
  else 0

/-- The value behind `value`; none past the integer range. -/
def after (p : Progression) (value : Int64) : Option Int64 := Arithmetic.add? value p.step

end Progression

end ObjectModel
