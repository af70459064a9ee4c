import SystemDynamics.Number.Spelling

namespace SystemDynamics

inductive TimeUnit where
  | days | weeks | months | quarters | years
  deriving DecidableEq, Repr

def TimeUnit.all : List TimeUnit :=
  [days, weeks, months, quarters, years]

def TimeUnit.name : TimeUnit → String
  | days => "days"
  | weeks => "weeks"
  | months => "months"
  | quarters => "quarters"
  | years => "years"

structure Horizon where
  start : Float
  stop : Float
  step : Float
  unit : TimeUnit
  deriving DecidableEq

def Horizon.unsaid : Horizon :=
  ⟨0, 0, 1, .months⟩

end SystemDynamics
