import SystemDynamics.Proofs.Validation.Acceptable
import SystemDynamics.Proofs.Validation.Equations

namespace SystemDynamics

open Dependency (Graph)
open Equation (Builtin Term)
open Relation (TransGen)
open Validation

theorem Equation.isBuiltin_iff {name : String} :
    Equation.isBuiltin name = true ↔ ∃ f : Builtin, f.name = name := by
  rw [Equation.isBuiltin, Option.isSome_iff_exists]
  constructor
  · rintro ⟨f, hf⟩
    exact ⟨f, Equation.ofName?_eq_some hf⟩
  · rintro ⟨f, rfl⟩
    exact ⟨f, Builtin.ofName?_name f⟩

namespace Document

variable {d : Document}

theorem forall_mem_headings {P : Heading → Prop} :
    (∀ h ∈ d.headings, P h) ↔
      (∀ s ∈ d.stocks, P ⟨.stock, s.id, s.name, s.unit, s.description⟩) ∧
      (∀ f ∈ d.flows, P ⟨.flow, f.id, f.name, f.unit, f.description⟩) ∧
      (∀ p ∈ d.parameters, P ⟨.parameter, p.id, p.name, p.unit, p.description⟩) ∧
      ∀ a ∈ d.auxiliaries, P ⟨.auxiliary, a.id, a.name, a.unit, a.description⟩ := by
  simp only [headings, List.forall_mem_append, List.forall_mem_map, and_assoc]

theorem declared_eq (d : Document) : d.declared = d.headings.map fun h ↦ (h.kind, h.id) := by
  simp only [declared, headings, List.map_append, List.map_map]
  rfl

end Document

namespace Validation

variable {w : World} {d : Document}

theorem isOutside_eq_false {least most : Nat} {text : String} :
    isOutside least most text = false ↔ least ≤ text.length ∧ text.length ≤ most := by
  simp [isOutside, exceeds]

theorem exceeds_eq_false {most : Nat} {text : String} :
    exceeds most text = false ↔ text.length ≤ most := by
  simp [exceeds]

theorem modelFields_eq_nil_iff :
    modelFields w d = [] ↔
      (∀ company ∈ d.company, Text.sameLetters (Text.trim company) w.name) ∧
      (1 ≤ d.name.length ∧ d.name.length ≤ 100) ∧
      10 ≤ d.description.length ∧ d.description.length ≤ 500 := by
  simp only [modelFields, List.append_eq_nil_iff, List.flatMap_eq_nil_iff, violated_eq_nil,
    isOutside_eq_false, Bool.not_eq_false', Option.mem_toList, and_assoc]
  rfl

theorem counts_eq_nil_iff :
    counts w d = [] ↔
      (1 ≤ d.stocks.length ∧ d.stocks.length ≤ w.stockIds.length) ∧
      (1 ≤ d.flows.length ∧ d.flows.length ≤ w.flowIds.length) ∧
      d.parameters.length ≤ w.parameterIds.length ∧
      d.auxiliaries.length ≤ w.auxiliaryIds.length := by
  simp only [counts, countsOf, List.append_eq_nil_iff, violated_eq_nil, Bool.or_eq_false_iff,
    decide_eq_false_iff_not, not_lt, Nat.zero_le, true_and, and_assoc]
  rfl

theorem hasIdShape_iff {id : String} :
    hasIdShape id = true ↔ ∃ c rest, id.toList = c :: rest ∧ ('a' ≤ c ∧ c ≤ 'z') ∧
      ∀ c ∈ rest, ('a' ≤ c ∧ c ≤ 'z') ∨ ('0' ≤ c ∧ c ≤ '9') ∨ c = '_' := by
  have hlower : ∀ c : Char, c.isLower = true ↔ 'a' ≤ c ∧ c ≤ 'z' := by
    intro c
    simp [Char.isLower, Char.le_def]
  have hdigit : ∀ c : Char, c.isDigit = true ↔ '0' ≤ c ∧ c ≤ '9' := by
    intro c
    simp [Char.isDigit, Char.le_def]
  rw [hasIdShape]
  cases id.toList with
  | nil => simp
  | cons c rest => simp [hlower, hdigit, or_assoc]

theorem isReserved_eq_false {id : String} :
    isReserved id = false ↔ id ≠ "time" ∧ id ≠ "t" ∧ ∀ f : Builtin, id ≠ f.name := by
  have hbuiltin : Equation.isBuiltin id = false ↔ ∀ f : Builtin, id ≠ f.name := by
    rw [← Bool.not_eq_true, Equation.isBuiltin_iff, not_exists]
    exact forall_congr' fun f ↦ ne_comm
  rw [isReserved, Bool.or_eq_false_iff, hbuiltin, ← and_assoc]
  simp [timeNames]

theorem idDefects_eq_nil_iff {id : String} :
    idDefects id = [] ↔ (1 ≤ id.length ∧ id.length ≤ maxIdLength) ∧ hasIdShape id = true ∧
      isReserved id = false := by
  simp only [idDefects, List.append_eq_nil_iff, ite_eq_right_iff, reduceCtorEq, imp_false,
    Bool.not_eq_true, ← and_assoc, ← isOutside_eq_false]
  refine and_congr_left fun _ ↦ ?_
  cases isOutside 1 maxIdLength id <;> simp

theorem heading_acceptable_iff {h : Heading} :
    h.Acceptable w ↔
      defects h.id h.name h.unit h.description = [] ∧ h.id ∈ w.allowedIds h.kind := by
  simp only [defects, List.append_eq_nil_iff, idDefects_eq_nil_iff, hasIdShape_iff,
    isReserved_eq_false, ite_eq_right_iff, reduceCtorEq, imp_false, Bool.not_eq_true,
    isOutside_eq_false, exceeds_eq_false]
  have hdescription : h.description.any (exceeds maxDescriptionLength) = false ↔
      ∀ text ∈ h.description, text.length ≤ 200 := by
    cases h.description <;> simp [exceeds, maxDescriptionLength]
  rw [hdescription]
  constructor
  · rintro ⟨hlength, hshape, hunreserved, hallowed, hname, hunit, hdescription⟩
    exact ⟨⟨⟨⟨⟨hlength, hshape, hunreserved⟩, hname⟩, hunit⟩, hdescription⟩, hallowed⟩
  · rintro ⟨⟨⟨⟨⟨hlength, hshape, hunreserved⟩, hname⟩, hunit⟩, hdescription⟩, hallowed⟩
    exact ⟨hlength, hshape, hunreserved, hallowed, hname, hunit, hdescription⟩

theorem declarations_eq_nil_iff :
    declarations d = [] ↔
      (∀ h ∈ d.headings, defects h.id h.name h.unit h.description = []) ∧
      (∀ s ∈ d.stocks, ∃ x, s.initialValue = some x ∧ x.isFinite ∧ 0 ≤ x) ∧
      ∀ p ∈ d.parameters, ∃ x, p.value = some x ∧ x.isFinite := by
  have hstock : ∀ s : Stock, stockViolations s = [] ↔
      defects s.id s.name s.unit s.description = [] ∧
        ∃ x, s.initialValue = some x ∧ x.isFinite ∧ 0 ≤ x := by
    intro s
    rw [stockViolations, List.append_eq_nil_iff, List.map_eq_nil_iff]
    refine and_congr_right fun _ ↦ ?_
    cases s.initialValue with
    | none => simp
    | some x =>
      simp only [violated_eq_nil, Bool.or_eq_false_iff, Bool.not_eq_false', Option.some.injEq,
        exists_eq_left', decide_eq_false_iff_not]
      refine and_congr_right fun hx ↦ ?_
      obtain ⟨y, hy⟩ := Number.exists_hasValue hx
      rw [Number.lt_iff hy hasValue_zero, Number.le_iff hasValue_zero hy, not_lt]
  have hparameter : ∀ p : Parameter, parameterViolations p = [] ↔
      defects p.id p.name p.unit p.description = [] ∧ ∃ x, p.value = some x ∧ x.isFinite := by
    intro p
    rw [parameterViolations, List.append_eq_nil_iff, List.map_eq_nil_iff]
    refine and_congr_right fun _ ↦ ?_
    cases p.value <;> simp [violated_eq_nil]
  simp only [declarations, List.append_eq_nil_iff, List.flatMap_eq_nil_iff, hstock, hparameter,
    flowViolations, auxiliaryViolations, List.map_eq_nil_iff, Document.forall_mem_headings,
    forall_and]
  constructor
  · rintro ⟨⟨⟨⟨hstocks, hinitial⟩, hflows⟩, hparameters, hvalue⟩, hauxiliaries⟩
    exact ⟨⟨hstocks, hflows, hparameters, hauxiliaries⟩, hinitial, hvalue⟩
  · rintro ⟨⟨hstocks, hflows, hparameters, hauxiliaries⟩, hinitial, hvalue⟩
    exact ⟨⟨⟨⟨hstocks, hinitial⟩, hflows⟩, hparameters, hvalue⟩, hauxiliaries⟩

theorem closedWorld_eq_nil_iff (hne : ∀ h ∈ d.headings, h.id.isEmpty = false) :
    closedWorld w d = [] ↔ ∀ h ∈ d.headings, h.id ∈ w.allowedIds h.kind := by
  rw [closedWorld, List.flatMap_eq_nil_iff, Document.declared_eq, List.forall_mem_map]
  refine forall₂_congr fun h hh ↦ ?_
  rw [violated_eq_nil, hne h hh]
  simp [World.allows]

theorem flowReferences_eq_nil_iff :
    flowReferences d = [] ↔
      ∀ f ∈ d.flows, ∀ s, s ∈ f.source ∨ s ∈ f.target → s ∈ d.stocks.map (·.id) := by
  have hstock : ∀ s, (d.stock? s).isNone = false ↔ s ∈ d.stocks.map (·.id) := by
    intro s
    simp [Document.stock?]
  simp only [flowReferences, List.flatMap_eq_nil_iff, List.forall_mem_cons, List.not_mem_nil,
    Side.of, violated_eq_nil, hstock, Option.mem_toList, or_imp, forall_and]
  simp

theorem flowEnds_eq_nil_iff {f : Flow} :
    flowEnds f = [] ↔ (f.source ≠ none ∨ f.target ≠ none) ∧ ∀ s ∈ f.source, s ∉ f.target := by
  rw [flowEnds]
  cases hsource : f.source <;> cases htarget : f.target <;> simp [violated_eq_nil]
  exact ne_comm

theorem edges_eq_nil_iff :
    edges w d = [] ↔
      ∀ f ∈ d.flows, ∀ s ∈ f.source, ∀ t ∈ f.target, (s, t) ∉ w.forbiddenEdges := by
  rw [edges, List.flatMap_eq_nil_iff]
  refine forall₂_congr fun f _ ↦ ?_
  cases f.source <;> cases f.target <;> simp [violated_eq_nil, World.forbids]

theorem intermediates_eq_nil_iff :
    intermediates w d = [] ↔
      ∀ f ∈ d.flows, ∀ rule ∈ w.mandatoryIntermediates, rule.target ∈ f.target →
        rule.via ∈ f.source := by
  simp only [intermediates, List.flatMap_eq_nil_iff, violated_eq_nil, Option.mem_def]
  constructor
  · intro h f hf rule hrule htarget
    simpa [htarget] using h rule hrule f hf
  · intro h rule hrule f hf
    simpa using h f hf rule hrule

theorem flows_acceptable_iff :
    (∀ f ∈ d.flows, f.Acceptable w d) ↔
      d.flows.flatMap flowEnds = [] ∧ flowReferences d = [] ∧ edges w d = [] ∧
        intermediates w d = [] := by
  rw [List.flatMap_eq_nil_iff, flowReferences_eq_nil_iff, edges_eq_nil_iff,
    intermediates_eq_nil_iff]
  simp only [flowEnds_eq_nil_iff, ← forall₂_and]
  refine forall₂_congr fun f _ ↦ ⟨?_, ?_⟩
  · rintro ⟨hends, hapart, hdeclared, hallowed, hvia⟩
    exact ⟨⟨hends, hapart⟩, hdeclared, hallowed, hvia⟩
  · rintro ⟨⟨hends, hapart⟩, hdeclared, hallowed, hvia⟩
    exact ⟨hends, hapart, hdeclared, hallowed, hvia⟩

theorem forbiddenIn_eq_nil_iff {text : String} :
    forbiddenIn text = [] ↔ ∀ word, Text.IsWordOf word text.toList →
      String.ofList (word.map foldCase) ∉ forbiddenWords := by
  rw [forbiddenIn, NameMap.distinct_eq_nil, List.map_eq_nil_iff, List.filter_eq_nil_iff]
  simp only [Text.mem_words, isForbidden, List.contains_iff_mem]

theorem equationForm_eq_nil {owner equation : String} {t : Term String}
    (ht : Equation.parse equation = .ok t) :
    equationForm d owner equation = [] ↔
      (∃ c ∈ equation.toList, Text.isBlank c = false) ∧ equation.length ≤ 500 := by
  have hblank : (Text.trim equation).isEmpty = false ↔
      ∃ c ∈ equation.toList, Text.isBlank c = false := by
    rw [← Bool.not_eq_true, Text.trim_isEmpty]
    simp
  rw [equationForm, ht]
  simp only [ite_eq_right_iff, reduceCtorEq, imp_false, Bool.not_eq_true, Bool.or_eq_false_iff,
    hblank, exceeds_eq_false]
  rfl

/-- Where an equation has a term, the rules on names ask that each be declared or the time. A
function that is called is no name of the term. -/
theorem names_known_iff {equation : String} {t : Term String}
    (ht : Equation.parse equation = .ok t) :
    (unknownNames d equation = [] ∧ functionsRead d equation = []) ↔
      ∀ name ∈ t.names, name ∈ d.ids ∨ name ∈ timeNames := by
  constructor
  · rintro ⟨hunknown, hfunctions⟩ name hname
    exact known_of_rules ht hunknown hfunctions hname
  · intro hknown
    have htime : ∀ name ∈ timeNames, Equation.isBuiltin name = false := by decide
    refine ⟨?_, ?_⟩
    · rw [unknownNames, NameMap.distinct_eq_nil, List.filter_eq_nil_iff]
      intro name hname
      rcases mem_namesIn_of_parse ht hname with h | hbuiltin
      · rcases hknown name h with h | h
        · simp [h]
        · simp [h]
      · simp [hbuiltin]
    · rw [functionsRead, ht]
      refine List.filter_eq_nil_iff.mpr fun name hname ↦ ?_
      rw [Term.distinctNames, List.mem_eraseDups] at hname
      rcases hknown name hname with h | h
      · simp [h]
      · simp [htime name h]

theorem equation_acceptable_iff (owner : String) {equation : String} :
    d.AcceptableEquation equation ↔
      d.equationReport owner equation = [] ∧ ¬ d.IsBroken equation := by
  simp only [Document.equationReport, List.append_eq_nil_iff, listed_eq_nil,
    forbiddenIn_eq_nil_iff]
  constructor
  · rintro ⟨hwritten, hlength, ⟨t, ht, hnames⟩, hallowed⟩
    have hknown : ∀ name ∈ t.names, name ∈ d.ids ∨ name ∈ timeNames := by
      simpa [timeNames] using hnames
    have hrules := (names_known_iff ht).mpr hknown
    refine ⟨⟨⟨⟨(equationForm_eq_nil ht).mpr ⟨hwritten, hlength⟩, hrules.1⟩, hrules.2⟩, hallowed⟩,
      ?_⟩
    rintro (⟨fault, hfault⟩ | ⟨t', ht', name, hname, hids, htime⟩)
    · simp [ht] at hfault
    · obtain rfl := Except.ok.inj (ht.symm.trans ht')
      exact (hknown name hname).elim hids htime
  · rintro ⟨⟨⟨⟨hform, hunknown⟩, hfunctions⟩, hallowed⟩, hbroken⟩
    cases ht : Equation.parse equation with
    | error fault => exact absurd (.inl ⟨fault, ht⟩) hbroken
    | ok t =>
      obtain ⟨hwritten, hlength⟩ := (equationForm_eq_nil ht).mp hform
      refine ⟨hwritten, hlength, ⟨t, ht, ?_⟩, hallowed⟩
      have hknown := (names_known_iff ht).mp ⟨hunknown, hfunctions⟩
      simpa [timeNames] using hknown

theorem requirements_eq_nil_iff (hw : d.WellDeclared)
    (hparse : ∀ e ∈ d.equations, ∃ t, Equation.parse e.2 = .ok t)
    (hacyclic : ∀ id, ¬ TransGen d.Reads id id) :
    requirements w d (Graph.ofDocument d) = [] ↔
      ∀ rule ∈ w.requiredDependencies, rule.flow ∈ d.flows.map (·.id) →
        ∀ stock ∈ rule.stocks, TransGen d.Reads rule.flow stock := by
  rw [requirements, List.flatMap_eq_nil_iff]
  refine forall₂_congr fun rule _ ↦ ?_
  have hflow : (d.flow? rule.flow).isNone = true ↔ rule.flow ∉ d.flows.map (·.id) := by
    simp [Document.flow?]
  by_cases h : rule.flow ∈ d.flows.map (·.id)
  · have hof : rule.flow ∈ d.idsOf .flow := h
    have hid : rule.flow ∈ d.ids := Document.mem_ids_of_idsOf hof
    rw [if_neg fun hnone ↦ hflow.mp hnone h, listed_eq_nil, List.filter_eq_nil_iff,
      forall_prop_of_true h]
    refine forall₂_congr fun stock _ ↦ ?_
    rw [Bool.not_eq_true', Bool.not_eq_false, hw.dependsOn_iff hparse hacyclic hid]
  · rw [if_pos (hflow.mpr h)]
    simp [h]

theorem exists_program_iff :
    (∃ p, program d = .ok p) ↔
      (Graph.ofDocument d).cycles = [] ∧ ∀ e ∈ d.equations, ¬ d.IsBroken e.2 := by
  constructor
  · rintro ⟨p, hp⟩
    obtain ⟨order, ho, hp⟩ := program_eq_ok.mp hp
    exact ⟨(Graph.evaluationOrder_eq_ok.mp ho).1,
      (Document.exists_compile_eq_ok_iff (Graph.evaluationOrder_perm ho)).mp ⟨p, hp⟩⟩
  · rintro ⟨hcycles, hequations⟩
    have ho := Graph.evaluationOrder_eq_ok.mpr ⟨hcycles, rfl⟩
    obtain ⟨p, hp⟩ :=
      (Document.exists_compile_eq_ok_iff (Graph.evaluationOrder_perm ho)).mpr hequations
    exact ⟨p, program_eq_ok.mpr ⟨_, ho, hp⟩⟩

theorem equationReports_eq_nil_iff :
    (∀ e ∈ d.equations, d.equationReport e.1 e.2 = []) ↔
      (d.equations.flatMap fun (owner, e) ↦ equationForm d owner e) = [] ∧
        equationReferences d = [] ∧ equationWords d = [] := by
  simp only [Document.equationReport, equationReferences, equationWords, List.flatMap_eq_nil_iff,
    List.append_eq_nil_iff, ← forall₂_and]
  refine forall₂_congr fun e _ ↦ ⟨?_, ?_⟩
  · rintro ⟨⟨⟨hform, hunknown⟩, hfunctions⟩, hwords⟩
    exact ⟨hform, ⟨hunknown, hfunctions⟩, hwords⟩
  · rintro ⟨hform, ⟨hunknown, hfunctions⟩, hwords⟩
    exact ⟨⟨⟨hform, hunknown⟩, hfunctions⟩, hwords⟩

end Validation

namespace Document.Acceptable

variable {w : World} {d : Document} (h : d.Acceptable w)

include h

theorem wellDeclared : d.WellDeclared where
  ids_nodup := h.ids_nodup
  unreserved := by
    rw [ids, declared_eq, List.map_map, List.forall_mem_map]
    exact fun heading hmem ↦ isReserved_eq_false.mpr (h.headings heading hmem).unreserved
  initialValue s hs := by
    obtain ⟨x, hx, hfinite, -⟩ := h.initialValue s hs
    exact ⟨x, hx, hfinite⟩
  value := h.value

theorem exists_parse : ∀ e ∈ d.equations, ∃ t, Equation.parse e.2 = .ok t := by
  intro e he
  obtain ⟨t, ht, -⟩ := (h.equations e he).parses
  exact ⟨t, ht⟩

theorem violations_eq_nil : violations w d = [] := by
  have hheadings := fun heading hmem ↦ heading_acceptable_iff.mp (h.headings heading hmem)
  have hne : ∀ heading ∈ d.headings, heading.id.isEmpty = false := fun heading hmem ↦
    (idDefects_eq_nil (defects_eq_nil (hheadings heading hmem).1)).1
  have hfields := modelFields_eq_nil_iff.mpr ⟨h.company, h.name, h.description⟩
  have hcounts := counts_eq_nil_iff.mpr
    ⟨h.stockCount, h.flowCount, h.parameterCount, h.auxiliaryCount⟩
  have hdeclarations := declarations_eq_nil_iff.mpr
    ⟨fun heading hmem ↦ (hheadings heading hmem).1, h.initialValue, h.value⟩
  have hrepetitions : repetitions [] d.declared = [] := by
    refine (repetitions_eq_nil ?_).mpr ⟨h.ids_nodup, by simp⟩
    rw [declared_eq, List.forall_mem_map]
    exact hne
  obtain ⟨hends, hstocks, hedges, hvia⟩ := flows_acceptable_iff.mp h.flows
  obtain ⟨hform, hreferences, hwords⟩ := equationReports_eq_nil_iff.mp fun e he ↦
    ((equation_acceptable_iff e.1).mp (h.equations e he)).1
  have htime : d.horizon.toList.flatMap timeBounds = [] := by
    rw [List.flatMap_eq_nil_iff]
    exact fun horizon hmem ↦ timeBounds_eq_nil.mpr (h.horizon horizon (Option.mem_toList.mp hmem))
  have hworld := (closedWorld_eq_nil_iff hne).mpr fun heading hmem ↦ (hheadings heading hmem).2
  have hrequirements :=
    (requirements_eq_nil_iff h.wellDeclared h.exists_parse h.acyclic).mpr h.requirements
  have hcycles := (h.wellDeclared.cycles_eq_nil_iff h.exists_parse).mpr h.acyclic
  simp only [violations, wellFormed, Validation.cycles, hfields, hcounts, hdeclarations,
    hrepetitions, hends, hform, htime, hworld, hstocks, hreferences, hwords, hedges, hvia,
    hrequirements, hcycles, List.map_nil, List.append_nil]

theorem exists_program : ∃ p, program d = .ok p :=
  exists_program_iff.mpr ⟨(h.wellDeclared.cycles_eq_nil_iff h.exists_parse).mpr h.acyclic,
    fun e he ↦ ((equation_acceptable_iff e.1).mp (h.equations e he)).2⟩

end Document.Acceptable

theorem Document.acceptable_of_violations {w : World} {d : Document} (h : violations w d = [])
    (hp : ∃ p, program d = .ok p) : d.Acceptable w := by
  have hw := Validation.wellDeclared h
  have hbroken := (exists_program_iff.mp hp).2
  have hparse : ∀ e ∈ d.equations, ∃ t, Equation.parse e.2 = .ok t := by
    intro e he
    cases ht : Equation.parse e.2 with
    | ok t => exact ⟨t, rfl⟩
    | error fault => exact absurd (.inl ⟨fault, ht⟩) (hbroken e he)
  have hacyclic := (hw.cycles_eq_nil_iff hparse).mp (cycles_eq_nil_of_violations h)
  simp only [violations, wellFormed, List.append_eq_nil_iff, and_assoc] at h
  obtain ⟨hfields, hcounts, hdeclarations, -, hends, hform, htime, hworld, hstocks, hreferences,
    hwords, hedges, hvia, hrequirements, -⟩ := h
  obtain ⟨hcompany, hname, hdescription⟩ := modelFields_eq_nil_iff.mp hfields
  obtain ⟨hstockCount, hflowCount, hparameterCount, hauxiliaryCount⟩ := counts_eq_nil_iff.mp hcounts
  obtain ⟨hdefects, hinitial, hvalue⟩ := declarations_eq_nil_iff.mp hdeclarations
  have hne : ∀ heading ∈ d.headings, heading.id.isEmpty = false := fun heading hmem ↦
    (idDefects_eq_nil (defects_eq_nil (hdefects heading hmem))).1
  have hreports := equationReports_eq_nil_iff.mpr ⟨hform, hreferences, hwords⟩
  exact {
    company := hcompany
    name := hname
    description := hdescription
    stockCount := hstockCount
    flowCount := hflowCount
    parameterCount := hparameterCount
    auxiliaryCount := hauxiliaryCount
    headings := fun heading hmem ↦ heading_acceptable_iff.mpr
      ⟨hdefects heading hmem, (closedWorld_eq_nil_iff hne).mp hworld heading hmem⟩
    ids_nodup := hw.ids_nodup
    initialValue := hinitial
    value := hvalue
    flows := flows_acceptable_iff.mpr ⟨hends, hstocks, hedges, hvia⟩
    equations := fun e he ↦ (equation_acceptable_iff e.1).mpr ⟨hreports e he, hbroken e he⟩
    requirements := (requirements_eq_nil_iff hw hparse hacyclic).mp hrequirements
    acyclic := hacyclic
    horizon := fun horizon hmem ↦ timeBounds_eq_nil.mp
      (List.flatMap_eq_nil_iff.mp htime horizon (Option.mem_toList.mpr hmem)) }

theorem Document.Acceptable.exists_model {domain : Domain} {d : Document}
    (h : d.Acceptable domain.world) : ∃ m, domain.validate d = .ok m := by
  obtain ⟨p, hp⟩ := h.exists_program
  exact ⟨_, Domain.validate_eq_ok.mpr ⟨h.violations_eq_nil, p, hp, rfl⟩⟩

theorem Domain.acceptable_of_validate {domain : Domain} {d : Document} {m : Model}
    (h : domain.validate d = .ok m) : d.Acceptable domain.world := by
  obtain ⟨hviolations, p, hp, -⟩ := Domain.validate_eq_ok.mp h
  exact Document.acceptable_of_violations hviolations ⟨p, hp⟩

/-- A domain accepts a document just when the document is acceptable to it. -/
theorem accepted_iff_acceptable (domain : Domain) (d : Document) :
    (∃ m, domain.validate d = .ok m) ↔ d.Acceptable domain.world := by
  constructor
  · rintro ⟨m, hm⟩
    obtain ⟨h, p, hp, -⟩ := Domain.validate_eq_ok.mp hm
    exact Document.acceptable_of_violations h ⟨p, hp⟩
  · intro h
    obtain ⟨p, hp⟩ := h.exists_program
    exact ⟨_, Domain.validate_eq_ok.mpr ⟨h.violations_eq_nil, p, hp, rfl⟩⟩

end SystemDynamics
