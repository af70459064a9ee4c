import SystemDynamics.Proofs.Validation.Rules

namespace SystemDynamics

open Dependency (Graph)
open Validation

namespace Document

/-- What is left without the company, the horizon and the values of the parameters. -/
def outline (d : Document) : Document :=
  { d with
    company := none
    horizon := none
    parameters := d.parameters.map fun p ↦ { p with value := none } }

/-- The document with the values of the overridden parameters replaced. -/
def override (overrides : NameMap Float) (d : Document) : Document :=
  { d with
    parameters := d.parameters.map fun p ↦
      { p with value := overrides.find? p.id <|> p.value } }

variable {d d' : Document}

theorem outline_override (overrides : NameMap Float) (d : Document) :
    (d.override overrides).outline = d.outline := by
  simp [outline, override]

theorem outline_complete (domain : Domain) (d : Document) :
    (domain.complete d).outline = d.outline := rfl

theorem headings_outline (d : Document) : d.outline.headings = d.headings := by
  simp [headings, outline]

theorem ids_outline (d : Document) : d.outline.ids = d.ids := by
  rw [ids, ids, declared_eq, declared_eq, headings_outline]

theorem fields_of_outline (hd : d'.outline = d.outline) :
    d'.name = d.name ∧ d'.description = d.description ∧ d'.stocks = d.stocks ∧
      d'.flows = d.flows ∧ d'.parameters.length = d.parameters.length ∧
      d'.auxiliaries = d.auxiliaries := by
  simp only [outline, mk.injEq] at hd
  obtain ⟨-, hname, hdescription, hstocks, hflows, hparameters, hauxiliaries, -⟩ := hd
  have hlength := congrArg List.length hparameters
  rw [List.length_map, List.length_map] at hlength
  exact ⟨hname, hdescription, hstocks, hflows, hlength, hauxiliaries⟩

theorem layout_outline (d : Document) : Layout.ofDocument d.outline = Layout.ofDocument d := by
  simp [Layout.ofDocument, outline]

theorem graph_outline (d : Document) : Graph.ofDocument d.outline = Graph.ofDocument d := by
  have hnodes : d.outline.nodes = d.nodes := by
    simp [nodes, outline, Function.comp_def]
  have hequation : d.outline.equation? = d.equation? := rfl
  rw [Graph.ofDocument, Graph.ofDocument, hnodes, hequation]

theorem compileOne_outline (d : Document) : d.outline.compileOne = d.compileOne := by
  funext c
  have hequation : d.outline.equation? = d.equation? := rfl
  rw [compileOne, compileOne, hequation, layout_outline]

theorem reads_outline (d : Document) : d.outline.Reads = d.Reads := by
  funext reader read
  simp only [Reads, ids_outline]
  rfl

/-- Documents with the same outline are compiled to the same program, but for the values of the
parameters. -/
theorem compile_of_outline (hd : d'.outline = d.outline) {order : List Computed} {p : Program}
    (hp : d.compile order = .ok p) :
    d'.compile order = .ok { p with parameters := d'.parameters.map (·.value.getD 0) } := by
  obtain ⟨howners, hone, hlayout, hstocks, -, hin, hout⟩ := compile_eq_ok.mp hp
  obtain ⟨-, -, hstocks', hflows', -⟩ := fields_of_outline hd
  refine compile_eq_ok.mpr ⟨howners, ?_, ?_, ?_, rfl, ?_, ?_⟩
  · rw [← compileOne_outline, hd, compileOne_outline]
    exact hone
  · rw [← layout_outline, hd, layout_outline]
    exact hlayout
  · rw [hstocks']
    exact hstocks
  · rw [wiring, hstocks', hflows']
    exact hin
  · rw [wiring, hstocks', hflows']
    exact hout

theorem program_of_outline (hd : d'.outline = d.outline) {p : Program} (hp : program d = .ok p) :
    program d' = .ok { p with parameters := d'.parameters.map (·.value.getD 0) } := by
  obtain ⟨order, ho, hp⟩ := program_eq_ok.mp hp
  refine program_eq_ok.mpr ⟨order, ?_, compile_of_outline hd hp⟩
  rw [← graph_outline, hd, graph_outline]
  exact ho

theorem Acceptable.of_outline {w : World} (h : d.Acceptable w) (hd : d'.outline = d.outline)
    (hcompany : ∀ company ∈ d'.company, Text.sameLetters (Text.trim company) w.name)
    (hvalue : ∀ p ∈ d'.parameters, ∃ x, p.value = some x ∧ x.isFinite)
    (hhorizon : ∀ h ∈ d'.horizon, ∃ start stop step, h.Bounded start stop step) :
    d'.Acceptable w := by
  obtain ⟨hname, hdescription, hstocks, hflows, hparameters, hauxiliaries⟩ := fields_of_outline hd
  have hheadings : d'.headings = d.headings := by
    rw [← headings_outline, hd, headings_outline]
  have hids : d'.ids = d.ids := by
    rw [← ids_outline, hd, ids_outline]
  have hreads : d'.Reads = d.Reads := by
    rw [← reads_outline, hd, reads_outline]
  exact {
    company := hcompany
    name := hname ▸ h.name
    description := hdescription ▸ h.description
    stockCount := hstocks ▸ h.stockCount
    flowCount := hflows ▸ h.flowCount
    parameterCount := hparameters ▸ h.parameterCount
    auxiliaryCount := hauxiliaries ▸ h.auxiliaryCount
    headings := hheadings ▸ h.headings
    ids_nodup := hids ▸ h.ids_nodup
    initialValue := hstocks ▸ h.initialValue
    value := hvalue
    flows := by
      intro f hf
      obtain ⟨hends, hapart, hdeclared, hallowed, hvia⟩ := h.flows f (hflows ▸ hf)
      exact ⟨hends, hapart, hstocks ▸ hdeclared, hallowed, hvia⟩
    equations := by
      intro e he
      rw [Document.equations, hflows, hauxiliaries] at he
      obtain ⟨hwritten, hlength, hparses, hallowed⟩ := h.equations e he
      exact ⟨hwritten, hlength, hids ▸ hparses, hallowed⟩
    requirements := by
      rw [hreads, hflows]
      exact h.requirements
    acyclic := hreads ▸ h.acyclic
    horizon := hhorizon }

end Document

end SystemDynamics
