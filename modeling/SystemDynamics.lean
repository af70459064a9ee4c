import SystemDynamics.Number.Spelling
import SystemDynamics.Number.Reading
import SystemDynamics.Number.Whole
import SystemDynamics.Text.Blank
import SystemDynamics.Text.Padding
import SystemDynamics.Text.Quoted
import SystemDynamics.Equation.Evaluation
import SystemDynamics.Json.Tree
import SystemDynamics.Json.Writing
import SystemDynamics.Json.Record
import SystemDynamics.Model.Exchange
import SystemDynamics.Simulation.Program
import SystemDynamics.Simulation.Grid
import SystemDynamics.Simulation.RungeKutta
import SystemDynamics.Simulation.Ledger
import SystemDynamics.Domain.Basic
import SystemDynamics.Domain.Exchange
import SystemDynamics.Validation.Acceptance
import SystemDynamics.Simulation.Run
import SystemDynamics.Simulation.Limits
import SystemDynamics.Simulation.Exchange
import SystemDynamics.Analysis.Scenario
import SystemDynamics.Analysis.Sensitivity
import SystemDynamics.Report.Violations
import SystemDynamics.Report.Table
import SystemDynamics.Report.Trace
import SystemDynamics.Catalog.Example
import SystemDynamics.CommandLine.Response
import SystemDynamics.Main
import SystemDynamics.Proofs.Outcome
import SystemDynamics.Proofs.NameMap
import SystemDynamics.Proofs.Number.Rounding
import SystemDynamics.Proofs.Number.Order
import SystemDynamics.Proofs.Number.Packing
import SystemDynamics.Proofs.Number.Double
import SystemDynamics.Proofs.Number.Arithmetic
import SystemDynamics.Proofs.Number.Quotient
import SystemDynamics.Proofs.Number.Whole
import SystemDynamics.Proofs.Number.Powers
import SystemDynamics.Proofs.Number.Shortest
import SystemDynamics.Proofs.Number.Accuracy
import SystemDynamics.Proofs.Equation.Term
import SystemDynamics.Proofs.Equation.Leaves
import SystemDynamics.Proofs.Equation.Unknown
import SystemDynamics.Proofs.Equation.Finite
import SystemDynamics.Proofs.Dependency.Walk
import SystemDynamics.Proofs.Dependency.Order
import SystemDynamics.Proofs.Validation.Acceptance
import SystemDynamics.Proofs.Simulation.Program
import SystemDynamics.Proofs.Validation.Equations
import SystemDynamics.Proofs.Simulation.ByName
import SystemDynamics.Proofs.Simulation.Naming
import SystemDynamics.Proofs.Simulation.Frame
import SystemDynamics.Proofs.Simulation.Evaluation
import SystemDynamics.Proofs.Simulation.Stages
import SystemDynamics.Proofs.Simulation.RungeKutta
import SystemDynamics.Proofs.Simulation.Ledger
import SystemDynamics.Proofs.Simulation.Agreement
import SystemDynamics.Proofs.Simulation.Grid
import SystemDynamics.Proofs.Simulation.Overflow
import SystemDynamics.Proofs.Dependency.Reads
import SystemDynamics.Proofs.Text
import SystemDynamics.Proofs.Validation.Acceptable
import SystemDynamics.Proofs.Validation.Rules
import SystemDynamics.Proofs.Validation.Outline
import SystemDynamics.Proofs.Validation.Completion
import SystemDynamics.Proofs.Simulation.Overrides
import SystemDynamics.Proofs.Simulation.Influence
import SystemDynamics.Proofs.Simulation.Unread
import SystemDynamics.Proofs.Simulation.Isolation
import SystemDynamics.Proofs.Equation.Phrase
import SystemDynamics.Proofs.Equation.Derivation
import SystemDynamics.Proofs.Equation.Parsing
import SystemDynamics.Proofs.Validation.Reordering
import SystemDynamics.Proofs.Simulation.Reordering
import SystemDynamics.Proofs.Equation.Arity
import SystemDynamics.Proofs.Simulation.Checked
import SystemDynamics.Proofs.Simulation.Bounds
import SystemDynamics.Proofs.Simulation.Walk
import SystemDynamics.Proofs.Simulation.Balance
import SystemDynamics.Proofs.Dependency.Components
import SystemDynamics.Proofs.Simulation.Points
import SystemDynamics.Proofs.Simulation.Spacing
import SystemDynamics.Proofs.Simulation.Extension
import SystemDynamics.Proofs.Simulation.Counting
import SystemDynamics.Proofs.Simulation.Advance
import SystemDynamics.Proofs.Simulation.Failure
import SystemDynamics.Proofs.Json.Scan
import SystemDynamics.Proofs.Json.Grammar
import SystemDynamics.Proofs.Json.Tree
import SystemDynamics.Proofs.Json.Reader
import SystemDynamics.Proofs.Json.Record
import SystemDynamics.Proofs.Json.Numeral
import SystemDynamics.Proofs.Json.Writing
import SystemDynamics.Proofs.Json.Scaling
import SystemDynamics.Proofs.Json.Reread
import SystemDynamics.Proofs.Model.Exchange
import SystemDynamics.Proofs.Model.Saving
import SystemDynamics.Proofs.Analysis.Sensitivity
import SystemDynamics.Proofs.Simulation.FourthOrder
import SystemDynamics.Proofs.Equation.Renaming
import SystemDynamics.Proofs.Simulation.Reading
import SystemDynamics.Proofs.Simulation.Independence
import SystemDynamics.Proofs.Simulation.Faults
import SystemDynamics.Proofs.Simulation.Reuse
import SystemDynamics.Proofs.Equation.Lexeme
import SystemDynamics.Proofs.Equation.Bytes
import SystemDynamics.Proofs.Equation.Tokenization
import SystemDynamics.Proofs.Validation.ForbiddenWord
import SystemDynamics.Proofs.Report.Trace
import SystemDynamics.Proofs.CommandLine.ExitStatus
import SystemDynamics.Proofs.Equation.Raising
import SystemDynamics.Proofs.Simulation.Recording
