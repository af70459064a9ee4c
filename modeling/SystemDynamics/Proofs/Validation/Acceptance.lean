import SystemDynamics.Validation.Acceptance
import SystemDynamics.Proofs.NameMap
import SystemDynamics.Proofs.Outcome

namespace SystemDynamics

open Dependency (Graph)
open Validation

/-- What holds of the declarations of a document that breaks no rule. -/
structure Document.WellDeclared (d : Document) : Prop where
  ids_nodup : d.ids.Nodup
  unreserved : ∀ id ∈ d.ids, isReserved id = false
  initialValue : ∀ s ∈ d.stocks, ∃ x, s.initialValue = some x ∧ x.isFinite
  value : ∀ p ∈ d.parameters, ∃ x, p.value = some x ∧ x.isFinite

namespace Validation

variable {d : Document} {w : World}

theorem mem_violated {condition : Bool} {v v' : Violation} :
    v' ∈ violated condition v ↔ condition = true ∧ v' = v := by
  cases condition <;> simp [violated]

theorem violated_eq_nil {condition : Bool} {v : Violation} :
    violated condition v = [] ↔ condition = false := by
  cases condition <;> simp [violated]

theorem idDefects_eq_nil {id : String} (h : idDefects id = []) :
    id.isEmpty = false ∧ isReserved id = false := by
  simp only [idDefects, List.append_eq_nil_iff, ite_eq_right_iff, reduceCtorEq, imp_false,
    Bool.not_eq_true] at h
  refine ⟨?_, h.2⟩
  by_contra hempty
  have hid : id = "" := by simpa using hempty
  rw [hid] at h
  exact absurd h.1 (by decide)

theorem defects_eq_nil {id name unit : String} {description : Option String}
    (h : defects id name unit description = []) : idDefects id = [] := by
  simp only [defects, List.append_eq_nil_iff] at h
  exact h.1.1.1

theorem idDefects_of_declarations (h : declarations d = []) {id : String} (hid : id ∈ d.ids) :
    idDefects id = [] := by
  simp only [declarations, List.append_eq_nil_iff, List.flatMap_eq_nil_iff, stockViolations,
    flowViolations, parameterViolations, auxiliaryViolations, List.map_eq_nil_iff] at h
  obtain ⟨⟨⟨hs, hf⟩, hp⟩, ha⟩ := h
  simp only [Document.ids, Document.declared, List.map_append, List.map_map, List.mem_append,
    List.mem_map, Function.comp_apply] at hid
  rcases hid with ((⟨s, hmem, rfl⟩ | ⟨f, hmem, rfl⟩) | ⟨p, hmem, rfl⟩) | ⟨a, hmem, rfl⟩
  · exact defects_eq_nil (hs s hmem).1
  · exact defects_eq_nil (hf f hmem)
  · exact defects_eq_nil (hp p hmem).1
  · exact defects_eq_nil (ha a hmem)

theorem repetitions_eq_nil {before : List (String × Kind)} {declared : List (Kind × String)}
    (hne : ∀ e ∈ declared, e.2.isEmpty = false) :
    repetitions before declared = [] ↔
      (declared.map (·.2)).Nodup ∧ ∀ e ∈ declared, before.lookup e.2 = none := by
  induction declared generalizing before with
  | nil => simp [repetitions]
  | cons e rest ih =>
    rw [List.forall_mem_cons] at hne
    rw [repetitions, if_neg (by simp [hne.1]), List.forall_mem_cons, List.map_cons,
      List.nodup_cons]
    cases before.lookup e.2 with
    | some first => simp
    | none =>
      simp only [ih hne.2, NameMap.lookup_cons, true_and]
      -- What was not looked up before differs from the id that now is.
      have hrest : (∀ e' ∈ rest, (if e'.2 = e.2 then some e.1 else before.lookup e'.2) = none) ↔
          e.2 ∉ rest.map (·.2) ∧ ∀ e' ∈ rest, before.lookup e'.2 = none := by
        rw [List.mem_map, not_exists, ← forall_and]
        refine forall_congr' fun e' ↦ ?_
        split <;> simp_all
      rw [hrest, and_left_comm, ← and_assoc]

theorem wellDeclared (h : violations w d = []) : d.WellDeclared := by
  simp only [violations, wellFormed, List.append_eq_nil_iff] at h
  have hdeclarations : declarations d = [] := by tauto
  have hrepetitions : repetitions [] d.declared = [] := by tauto
  have hids : ∀ id ∈ d.ids, id.isEmpty = false ∧ isReserved id = false := fun id hid ↦
    idDefects_eq_nil (idDefects_of_declarations hdeclarations hid)
  simp only [declarations, List.append_eq_nil_iff, List.flatMap_eq_nil_iff, stockViolations,
    parameterViolations] at hdeclarations
  refine ⟨?_, fun id hid ↦ (hids id hid).2, ?_, ?_⟩
  · refine ((repetitions_eq_nil ?_).mp hrepetitions).1
    intro e he
    exact (hids e.2 (List.mem_map_of_mem he)).1
  · intro s hs
    have hvalue := (hdeclarations.1.1.1 s hs).2
    cases hx : s.initialValue with
    | none => simp [hx] at hvalue
    | some x =>
      simp only [hx, violated_eq_nil, Bool.or_eq_false_iff, Bool.not_eq_false'] at hvalue
      exact ⟨x, rfl, hvalue.1⟩
  · intro p hp
    have hvalue := (hdeclarations.1.2 p hp).2
    cases hx : p.value with
    | none => simp [hx] at hvalue
    | some x =>
      simp only [hx, violated_eq_nil, Bool.not_eq_false'] at hvalue
      exact ⟨x, rfl, hvalue⟩

theorem program_eq_ok {p : Program} :
    program d = .ok p ↔
      ∃ order, (Graph.ofDocument d).evaluationOrder = .ok order ∧ d.compile order = .ok p := by
  simp only [program, Except.bind_eq_ok, Except.mapError_eq_ok]

end Validation

/-- A document is accepted when it breaks no rule and has a program. -/
theorem Domain.validate_eq_ok {domain : Domain} {d : Document} {m : Model} :
    domain.validate d = .ok m ↔
      violations domain.world d = [] ∧ ∃ p, program d = .ok p ∧
        m = ⟨domain, domain.complete d, d.horizon.getD domain.world.horizon, p⟩ := by
  rw [validate]
  cases violations domain.world d with
  | cons v vs => simp
  | nil =>
    cases program d with
    | error v => simp
    | ok p => simp [eq_comm]

theorem Domain.document_of_validate {domain : Domain} {d : Document} {m : Model}
    (h : domain.validate d = .ok m) : m.document = domain.complete d := by
  obtain ⟨-, p, -, rfl⟩ := Domain.validate_eq_ok.mp h
  rfl

end SystemDynamics
