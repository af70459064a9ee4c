import SystemDynamics.Number.Whole
import SystemDynamics.Model.Horizon

namespace SystemDynamics

/-- The arithmetic a grid is laid out in. -/
class GridArithmetic (α : Type) extends Add α, Sub α, Mul α, Div α, OfScientific α, LT α, LE α where
  decidableLT : DecidableLT α
  decidableLE : DecidableLE α
  ofNat : Nat → α
  abs : α → α
  larger : α → α → α
  ceil : α → α
  round : α → α
  /-- The whole part, for numbers that are not negative. -/
  toNat : α → Nat

instance : GridArithmetic Float where
  decidableLT := inferInstance
  decidableLE := inferInstance
  ofNat := Float.ofNat
  abs := Float.abs
  larger := Number.larger
  ceil := Number.ceil
  round := Number.round
  toNat x := x.toUInt64.toNat

namespace Grid

variable {α : Type} [GridArithmetic α]

local instance decideLT : DecidableLT α := GridArithmetic.decidableLT

local instance decideLE : DecidableLE α := GridArithmetic.decidableLE

/-- The largest number of points there is a name for. -/
def mostPoints : Nat :=
  Nat.pow 2 64 - 1

/-- Steps after which the end is reached. Where their number is whole up to rounding, the end takes
the place of the last regular point. -/
def steps (start stop step : α) : α :=
  let steps := (stop - start) / step
  let nearest := GridArithmetic.round steps
  if GridArithmetic.abs (steps - nearest) ≤ 1e-9 * GridArithmetic.larger steps 1.0 then
    GridArithmetic.larger nearest 1.0
  else GridArithmetic.ceil steps

def pointCount (start stop step : α) : Nat :=
  if 0.0 < stop - start ∧ 0.0 < step then
    let steps := steps start stop step
    if GridArithmetic.ofNat (Nat.pow 2 64) ≤ steps then mostPoints
    else GridArithmetic.toNat steps + 1
  else 1

def points (start stop step : α) (count : Nat) : List α :=
  (List.range (count - 1)).map (fun i ↦ start + GridArithmetic.ofNat i * step) ++
    [GridArithmetic.larger stop start]

/-- The grid, unless it has more points than allowed; then their number. -/
def build (start stop step : α) (limit : Nat) : Except Nat (List α) :=
  let count := pointCount start stop step
  if limit < count then .error count else .ok (points start stop step count)

end Grid

end SystemDynamics
