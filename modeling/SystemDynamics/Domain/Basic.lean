import SystemDynamics.Domain.Aerodin
import SystemDynamics.Domain.Euromotion
import SystemDynamics.Text.Blank

namespace SystemDynamics

inductive Domain where
  | aerodin
  | euromotion
  deriving DecidableEq

namespace Domain

def all : List Domain :=
  [aerodin, euromotion]

def world : Domain → World
  | aerodin => .aerodin
  | euromotion => .euromotion

def name (d : Domain) : String :=
  d.world.name

def names : List String :=
  all.map name

/-- A domain by its name, whatever the case of its letters and the blanks around it. -/
def ofName? (name : String) : Option Domain :=
  all.find? (·.name == (Text.trim name).map Char.toLower)

def unknownMessage (name : String) : String :=
  "unknown domain '" ++ name ++ "' (expected one of: " ++ ", ".intercalate names ++ ")"

end Domain

end SystemDynamics
