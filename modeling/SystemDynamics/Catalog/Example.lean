import SystemDynamics.Catalog.Growth
import SystemDynamics.Catalog.Listing
import SystemDynamics.Catalog.Workforce
import SystemDynamics.Domain.Basic

namespace SystemDynamics

open Json (Value)

structure Example where
  id : String
  domain : Domain
  title : String
  document : Document

namespace Example

def all : List Example := [
  ⟨"aerodin_workforce", .aerodin, "Engineering workforce feeding a regulated program pipeline",
    Catalog.workforce⟩,
  ⟨"euromotion_growth", .euromotion, "Supply-constrained vehicle output and market growth",
    Catalog.growth⟩]

def ofId? (id : String) : Option Example :=
  all.find? (·.id == id)

def text (e : Example) : String :=
  e.document.listing ++ "\n"

def toJson (e : Example) : Value :=
  .object [("id", .text e.id), ("domain", .text e.domain.name), ("title", .text e.title)]

end Example

end SystemDynamics
