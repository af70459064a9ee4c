import SystemDynamics.Proofs.Validation.Acceptance
import SystemDynamics.Proofs.Equation.Unknown
import SystemDynamics.Proofs.Simulation.Program

namespace SystemDynamics

open Dependency (Graph)
open Equation (Term)
open Validation

namespace Document

variable (d : Document)

/-- An equation without a term, or with one that reads what is neither declared nor the time. -/
def IsBroken (equation : String) : Prop :=
  (∃ fault, Equation.parse equation = .error fault) ∨
    ∃ t, Equation.parse equation = .ok t ∧ ∃ name ∈ t.names, name ∉ d.ids ∧ name ∉ timeNames

/-- An equation that calls the time like a function, though nothing declared has its name. -/
def CallsTime (equation : String) : Prop :=
  ∃ name ∈ timeNames, name ∉ d.ids ∧ Equation.parse equation = .error (.unknown name)

def equationReport (owner equation : String) : List Violation :=
  equationForm d owner equation ++ listed (unknownNames d equation) (.unknownNames owner) ++
    listed (functionsRead d equation) (.functionsAsValues owner) ++
    listed (forbiddenIn equation) (.forbiddenWords owner)

structure CallsTimeUnnoticed (equation : String) : Prop where
  callsTime : d.CallsTime equation
  fits : ((Text.trim equation).isEmpty || exceeds maxEquationLength equation) = false
  known : unknownNames d equation = []
  allowed : forbiddenIn equation = []

end Document

namespace Validation

variable {w : World} {d : Document}

theorem listed_eq_nil {names : List String} {v : List String → Violation} :
    listed names v = [] ↔ names = [] := by
  rw [listed, violated_eq_nil]
  simp

theorem offender_of_mem_equationForm {owner equation : String} {v : Violation}
    (h : v ∈ equationForm d owner equation) : v.offender? = some owner := by
  simp only [equationForm] at h
  split at h
  case isTrue =>
    obtain rfl := List.mem_singleton.mp h
    rfl
  case isFalse =>
    split at h
    case h_1 => simp at h
    case h_2 =>
      obtain ⟨-, rfl⟩ := mem_violated.mp h
      rfl
    case h_3 =>
      obtain rfl := List.mem_singleton.mp h
      rfl

theorem offender_of_mem_equationReport {owner equation : String} {v : Violation}
    (h : v ∈ d.equationReport owner equation) : v.offender? = some owner := by
  simp only [Document.equationReport, List.mem_append, listed, mem_violated] at h
  rcases h with ((h | ⟨-, rfl⟩) | ⟨-, rfl⟩) | ⟨-, rfl⟩
  · exact offender_of_mem_equationForm h
  · rfl
  · rfl
  · rfl

theorem equationReport_subset {owner equation : String} (he : (owner, equation) ∈ d.equations) :
    d.equationReport owner equation ⊆ violations w d := by
  intro v hv
  have hreferences : v ∈ equationReferences d → v ∈ violations w d := by
    intro h
    simp only [violations, List.mem_append, h, true_or, or_true]
  simp only [Document.equationReport, List.mem_append] at hv
  rcases hv with ((hv | hv) | hv) | hv
  · have hform : v ∈ wellFormed w d := by
      simp only [wellFormed, List.mem_append]
      exact .inl (.inr (List.mem_flatMap.mpr ⟨_, he, hv⟩))
    simp only [violations, List.mem_append, hform, true_or]
  · exact hreferences (List.mem_flatMap.mpr ⟨_, he, List.mem_append_left _ hv⟩)
  · exact hreferences (List.mem_flatMap.mpr ⟨_, he, List.mem_append_right _ hv⟩)
  · have h : v ∈ equationWords d := List.mem_flatMap.mpr ⟨_, he, hv⟩
    simp only [violations, List.mem_append, h, true_or, or_true]

theorem mem_of_unknownNames_eq_nil {equation name : String} (h : unknownNames d equation = [])
    (hname : name ∈ namesIn equation) (hids : name ∉ d.ids) (htime : name ∉ timeNames) :
    Equation.isBuiltin name = true := by
  rw [unknownNames, NameMap.distinct_eq_nil, List.filter_eq_nil_iff] at h
  simpa [hids, htime] using h name hname

theorem mem_namesIn {equation name : String} {names : List String}
    (h : Equation.identifiers equation = .ok names) (hname : name ∈ names) :
    name ∈ namesIn equation := by
  rw [namesIn, h]
  exact hname

/-- The name of a function that is read is no concern of the rule on unknown names, but has a rule
of its own. -/
theorem known_of_rules {equation name : String} {t : Term String}
    (ht : Equation.parse equation = .ok t) (hunknown : unknownNames d equation = [])
    (hfunctions : functionsRead d equation = []) (hname : name ∈ t.names) :
    name ∈ d.ids ∨ name ∈ timeNames := by
  by_contra hnot
  rw [not_or] at hnot
  obtain ⟨names, hnames, hsub⟩ := Equation.parse_names ht
  have hbuiltin :=
    mem_of_unknownNames_eq_nil hunknown (mem_namesIn hnames (hsub hname)) hnot.1 hnot.2
  have hread : name ∈ functionsRead d equation := by
    rw [functionsRead, ht]
    simp [Term.distinctNames, hname, hbuiltin, hnot.1]
  simp [hfunctions] at hread

theorem functionsRead_of_error {equation : String} {fault : Equation.Fault}
    (h : Equation.parse equation = .error fault) : functionsRead d equation = [] := by
  rw [functionsRead, h]

/-- Nothing is said of a broken equation just when it calls the time and has no other flaw. -/
theorem equationReport_eq_nil_iff {owner equation : String} (hb : d.IsBroken equation) :
    d.equationReport owner equation = [] ↔ d.CallsTimeUnnoticed equation := by
  simp only [Document.equationReport, List.append_eq_nil_iff, listed_eq_nil]
  constructor
  · rintro ⟨⟨⟨hform, hunknown⟩, hfunctions⟩, hforbidden⟩
    simp only [equationForm] at hform
    split at hform
    case isTrue => simp at hform
    case isFalse hfits =>
      refine ⟨?_, by simpa using hfits, hunknown, hforbidden⟩
      rcases hb with ⟨fault, hfault⟩ | ⟨t, ht, name, hname, hids, htime⟩
      · rw [hfault] at hform
        split at hform
        case h_1 => simp_all
        case h_2 name he =>
          obtain rfl := Except.error.inj he
          have hids : name ∉ d.ids := by simpa using violated_eq_nil.mp hform
          refine ⟨name, ?_, hids, hfault⟩
          by_contra htime
          obtain ⟨⟨names, hnames, hmem⟩, hnone⟩ := Equation.parse_unknown hfault
          have hbuiltin :=
            mem_of_unknownNames_eq_nil hunknown (mem_namesIn hnames hmem) hids htime
          simp [Equation.isBuiltin, hnone] at hbuiltin
        case h_3 => simp at hform
      · exact ((known_of_rules ht hunknown hfunctions hname).elim hids htime).elim
  · rintro ⟨⟨name, htime, hids, hfault⟩, hfits, hunknown, hforbidden⟩
    refine ⟨⟨⟨?_, hunknown⟩, functionsRead_of_error hfault⟩, hforbidden⟩
    rw [equationForm, hfits, hfault]
    exact violated_eq_nil.mpr (by simpa using hids)

end Validation

namespace Document

variable {d : Document}

theorem slot?_isSome_iff {name : String} :
    (∃ slot, (Layout.ofDocument d).slot? name = some slot) ↔
      name ∈ d.ids ∨ name ∈ timeNames := by
  rw [← mem_nodes_ids]
  by_cases ht : name = "t"
  · simp [Layout.slot?, ht, timeNames]
  · rw [Layout.slot?, if_neg ht, Layout.names_ofDocument, ← Option.isSome_iff_exists,
      List.findIdx?_isSome, List.any_cons, Bool.or_eq_true, beq_iff_eq, List.any_eq_true]
    simp only [timeNames, List.mem_cons, List.not_mem_nil, ht, or_false, beq_iff_eq,
      exists_eq_right]
    rw [or_comm, eq_comm]

theorem compileOne_isOk_iff {c : Computed} {e : String × String} (he : d.equation? c = some e) :
    (∃ i, d.compileOne c = .ok i) ↔ ¬ d.IsBroken e.2 := by
  have hresolve : ∀ name, (∃ slot, d.resolve e.1 name = .ok slot) ↔
      name ∈ d.ids ∨ name ∈ timeNames := by
    intro name
    simp only [resolve_eq_ok, slot?_isSome_iff]
  have hone : (∃ i, d.compileOne c = .ok i) ↔
      ∃ t t', Equation.parse e.2 = .ok t ∧ t.rename (d.resolve e.1) = .ok t' := by
    simp only [compileOne_eq_ok, he, Option.some.injEq]
    constructor
    · rintro ⟨_, _, t, t', rfl, ht, ht', -⟩
      exact ⟨t, t', ht, ht'⟩
    · rintro ⟨t, t', ht, ht'⟩
      exact ⟨_, e, t, t', rfl, ht, ht', rfl⟩
  rw [hone, IsBroken]
  cases ht : Equation.parse e.2 with
  | error fault => simp
  | ok t =>
    have hrename := Term.exists_rename_eq_ok_iff (f := d.resolve e.1) (t := t)
    simp only [hresolve, or_iff_not_imp_left] at hrename
    simp only [Except.ok.injEq, exists_and_left, exists_eq_left', hrename, reduceCtorEq,
      exists_false, false_or, not_exists, not_and, not_not]

theorem exists_compile_eq_ok_iff {order : List Computed} (ho : order.Perm d.computed) :
    (∃ p, d.compile order = .ok p) ↔ ∀ e ∈ d.equations, ¬ d.IsBroken e.2 := by
  have hmapM : (∃ p, d.compile order = .ok p) ↔ ∃ is, order.mapM d.compileOne = .ok is := by
    simp only [compile, Except.bind_eq_ok, Except.pure_eq_ok]
    constructor
    · rintro ⟨-, is, his, -⟩
      exact ⟨is, his⟩
    · rintro ⟨is, his⟩
      exact ⟨_, is, his, rfl⟩
  rw [hmapM, Except.exists_mapM_eq_ok_iff]
  constructor
  · intro h e he
    obtain ⟨c, hc, hce⟩ := mem_equations_iff.mp he
    exact (compileOne_isOk_iff hce).mp (h c (ho.symm.subset hc))
  · intro h c hc
    obtain ⟨e, he⟩ := Option.isSome_iff_exists.mp (mem_computed_iff.mp (ho.subset hc))
    exact (compileOne_isOk_iff he).mpr (h e (mem_equations_iff.mpr ⟨c, ho.subset hc, he⟩))

end Document

theorem cycles_eq_nil_of_violations {w : World} {d : Document} (h : violations w d = []) :
    (Graph.ofDocument d).cycles = [] := by
  simp only [violations, List.append_eq_nil_iff] at h
  exact List.map_eq_nil_iff.mp h.2

theorem isBroken_iff_callsTime {w : World} {d : Document} (h : violations w d = [])
    {e : String × String} (he : e ∈ d.equations) : d.IsBroken e.2 ↔ d.CallsTime e.2 := by
  constructor
  · intro hb
    have hnil := List.subset_nil.mp (h ▸ equationReport_subset he)
    exact ((equationReport_eq_nil_iff hb).mp hnil).callsTime
  · rintro ⟨name, -, -, hfault⟩
    exact .inl ⟨_, hfault⟩

/-- A broken equation is reported under the id of its owner, whatever else is wrong, unless it calls
the time and has no other flaw; then no rule on equations reports it. A document that breaks no rule
always has an order of evaluation, and it has a program, and is accepted, unless an equation calls
the time. -/
theorem broken_equation_reported (domain : Domain) (d : Document) :
    (∀ owner equation, (owner, equation) ∈ d.equations → d.IsBroken equation →
      (¬ d.CallsTimeUnnoticed equation →
        ∃ v ∈ violations domain.world d, v.offender? = some owner) ∧
      (d.equationReport owner equation = [] ↔ d.CallsTimeUnnoticed equation)) ∧
    (violations domain.world d = [] →
      ∃ order, (Graph.ofDocument d).evaluationOrder = .ok order ∧
        ((∃ p, d.compile order = .ok p) ↔ ∀ e ∈ d.equations, ¬ d.CallsTime e.2)) ∧
    ((∃ m, domain.validate d = .ok m) ↔
      violations domain.world d = [] ∧ ∀ e ∈ d.equations, ¬ d.CallsTime e.2) := by
  have hcompile : violations domain.world d = [] →
      ∃ order, (Graph.ofDocument d).evaluationOrder = .ok order ∧
        ((∃ p, d.compile order = .ok p) ↔ ∀ e ∈ d.equations, ¬ d.CallsTime e.2) := by
    intro h
    have ho := Graph.evaluationOrder_eq_ok.mpr ⟨cycles_eq_nil_of_violations h, rfl⟩
    refine ⟨_, ho, ?_⟩
    rw [Document.exists_compile_eq_ok_iff (Graph.evaluationOrder_perm ho)]
    exact forall₂_congr fun e he ↦ not_congr (isBroken_iff_callsTime h he)
  refine ⟨?_, hcompile, ?_⟩
  · intro owner equation he hb
    refine ⟨?_, equationReport_eq_nil_iff hb⟩
    intro hunnoticed
    obtain ⟨v, hv⟩ :=
      List.exists_mem_of_ne_nil _ fun hnil ↦ hunnoticed ((equationReport_eq_nil_iff hb).mp hnil)
    exact ⟨v, equationReport_subset he hv, offender_of_mem_equationReport hv⟩
  · constructor
    · rintro ⟨m, hm⟩
      obtain ⟨h, p, hp, -⟩ := Domain.validate_eq_ok.mp hm
      obtain ⟨order, ho, hiff⟩ := hcompile h
      obtain ⟨order', ho', hp⟩ := program_eq_ok.mp hp
      obtain rfl := Except.ok.inj (ho.symm.trans ho')
      exact ⟨h, hiff.mp ⟨p, hp⟩⟩
    · rintro ⟨h, hcalls⟩
      obtain ⟨order, ho, hiff⟩ := hcompile h
      obtain ⟨p, hp⟩ := hiff.mpr hcalls
      exact ⟨_, Domain.validate_eq_ok.mpr ⟨h, p, program_eq_ok.mpr ⟨order, ho, hp⟩, rfl⟩⟩

def revenueDocument (equation : String) : Document where
  name := "Revenue"
  description := "Revenue fills the cash reserves."
  stocks := [{ id := "cash_reserves", name := "Cash", initialValue := some 1 }]
  flows := [{ id := "revenue", name := "Revenue", target := some "cash_reserves", equation }]
  horizon := some ⟨0, 1, 1, .months⟩

theorem broken_equation_reported_revenue :
    (∃ v ∈ violations Domain.aerodin.world (revenueDocument "t(1) + x"),
      v.offender? = some "revenue") ∧
    (∃ m, Domain.aerodin.validate (revenueDocument "cash_reserves * t") = .ok m) ∧
    (revenueDocument "t(1)").equationReport "revenue" "t(1)" = [] := by
  refine ⟨?_, ?_, ?_⟩
  · have hfault : ∃ fault, Equation.parse "t(1) + x" = .error fault :=
      Except.toBool_eq_false.mp (by decide +kernel)
    have h := (broken_equation_reported .aerodin (revenueDocument "t(1) + x")).1 "revenue"
      "t(1) + x" (by decide) (.inl hfault)
    refine h.1 ?_
    intro hunnoticed
    have hknown : unknownNames (revenueDocument "t(1) + x") "t(1) + x" ≠ [] := by decide +kernel
    exact hknown hunnoticed.known
  · refine (broken_equation_reported .aerodin (revenueDocument "cash_reserves * t")).2.2.mpr
      ⟨List.isEmpty_iff.mp (by decide +kernel), ?_⟩
    rintro e he ⟨name, -, -, hfault⟩
    have hequation : e.2 = "cash_reserves * t" := by
      rw [List.mem_singleton.mp he]
    have hparse : ∃ t, Equation.parse "cash_reserves * t" = .ok t :=
      Except.toBool_eq_true.mp (by decide +kernel)
    rw [hequation] at hfault
    simp [hfault] at hparse
  · have hfault : Equation.parse "t(1)" = .error (.unknown "t") := by rfl
    have h := (broken_equation_reported .aerodin (revenueDocument "t(1)")).1 "revenue" "t(1)"
      (by decide) (.inl ⟨_, hfault⟩)
    refine h.2.mpr ⟨⟨"t", by decide, by decide, hfault⟩, ?_, ?_, ?_⟩
    · decide +kernel
    · decide +kernel
    · decide +kernel

/-- A document that breaks no rule and has no program: its equation calls the time. -/
theorem time_called_unreported :
    ("revenue", "t(1)") ∈ (revenueDocument "t(1)").equations ∧
    (revenueDocument "t(1)").IsBroken "t(1)" ∧
    violations Domain.aerodin.world (revenueDocument "t(1)") = [] ∧
    ¬ ∃ m, Domain.aerodin.validate (revenueDocument "t(1)") = .ok m := by
  have hfault : Equation.parse "t(1)" = .error (.unknown "t") := by rfl
  have hsilent : (violations Domain.aerodin.world (revenueDocument "t(1)")).isEmpty := by
    decide +kernel
  have hno : (Domain.aerodin.validate (revenueDocument "t(1)")).toBool = false := by
    decide +kernel
  refine ⟨by decide, .inl ⟨_, hfault⟩, List.isEmpty_iff.mp hsilent, ?_⟩
  rw [← Except.toBool_eq_true, hno]
  exact Bool.false_ne_true

end SystemDynamics
