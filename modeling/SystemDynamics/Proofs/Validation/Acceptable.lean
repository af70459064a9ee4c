import SystemDynamics.Proofs.Dependency.Reads
import SystemDynamics.Proofs.Simulation.Grid
import SystemDynamics.Proofs.Text

namespace SystemDynamics

open Equation (Builtin)
open Relation (TransGen)
open Validation (foldCase forbiddenWords)

structure Heading where
  kind : Kind
  id : String
  name : String
  unit : String
  description : Option String

structure Heading.Acceptable (w : World) (h : Heading) : Prop where
  idLength : 1 ≤ h.id.length ∧ h.id.length ≤ 50
  idShape : ∃ c rest, h.id.toList = c :: rest ∧ ('a' ≤ c ∧ c ≤ 'z') ∧
    ∀ c ∈ rest, ('a' ≤ c ∧ c ≤ 'z') ∨ ('0' ≤ c ∧ c ≤ '9') ∨ c = '_'
  unreserved : h.id ≠ "time" ∧ h.id ≠ "t" ∧ ∀ f : Builtin, h.id ≠ f.name
  allowed : h.id ∈ w.allowedIds h.kind
  name : 1 ≤ h.name.length ∧ h.name.length ≤ 100
  unit : h.unit.length ≤ 30
  description : ∀ text ∈ h.description, text.length ≤ 200

structure Flow.Acceptable (w : World) (d : Document) (f : Flow) : Prop where
  ends : f.source ≠ none ∨ f.target ≠ none
  apart : ∀ s ∈ f.source, s ∉ f.target
  declared : ∀ s, s ∈ f.source ∨ s ∈ f.target → s ∈ d.stocks.map (·.id)
  allowed : ∀ s ∈ f.source, ∀ t ∈ f.target, (s, t) ∉ w.forbiddenEdges
  intermediates : ∀ rule ∈ w.mandatoryIntermediates, rule.target ∈ f.target → rule.via ∈ f.source

namespace Document

variable (w : World) (d : Document)

def headings : List Heading :=
  d.stocks.map (fun s ↦ ⟨.stock, s.id, s.name, s.unit, s.description⟩) ++
    d.flows.map (fun f ↦ ⟨.flow, f.id, f.name, f.unit, f.description⟩) ++
    d.parameters.map (fun p ↦ ⟨.parameter, p.id, p.name, p.unit, p.description⟩) ++
    d.auxiliaries.map (fun a ↦ ⟨.auxiliary, a.id, a.name, a.unit, a.description⟩)

structure AcceptableEquation (equation : String) : Prop where
  written : ∃ c ∈ equation.toList, Text.isBlank c = false
  length : equation.length ≤ 500
  parses : ∃ t, Equation.parse equation = .ok t ∧
    ∀ v ∈ t.names, v ∈ d.ids ∨ v = "time" ∨ v = "t"
  allowed : ∀ word, Text.IsWordOf word equation.toList →
    String.ofList (word.map foldCase) ∉ forbiddenWords

structure Acceptable : Prop where
  company : ∀ company ∈ d.company, Text.sameLetters (Text.trim company) w.name
  name : 1 ≤ d.name.length ∧ d.name.length ≤ 100
  description : 10 ≤ d.description.length ∧ d.description.length ≤ 500
  stockCount : 1 ≤ d.stocks.length ∧ d.stocks.length ≤ w.stockIds.length
  flowCount : 1 ≤ d.flows.length ∧ d.flows.length ≤ w.flowIds.length
  parameterCount : d.parameters.length ≤ w.parameterIds.length
  auxiliaryCount : d.auxiliaries.length ≤ w.auxiliaryIds.length
  headings : ∀ h ∈ d.headings, h.Acceptable w
  ids_nodup : d.ids.Nodup
  initialValue : ∀ s ∈ d.stocks, ∃ x, s.initialValue = some x ∧ x.isFinite ∧ 0 ≤ x
  value : ∀ p ∈ d.parameters, ∃ x, p.value = some x ∧ x.isFinite
  flows : ∀ f ∈ d.flows, f.Acceptable w d
  equations : ∀ e ∈ d.equations, d.AcceptableEquation e.2
  requirements : ∀ rule ∈ w.requiredDependencies, rule.flow ∈ d.flows.map (·.id) →
    ∀ stock ∈ rule.stocks, TransGen d.Reads rule.flow stock
  acyclic : ∀ id, ¬ TransGen d.Reads id id
  horizon : ∀ h ∈ d.horizon, ∃ start stop step, h.Bounded start stop step

end Document

end SystemDynamics
