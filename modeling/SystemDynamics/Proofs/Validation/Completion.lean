import SystemDynamics.Proofs.Validation.Outline

namespace SystemDynamics

open Validation

theorem Domain.sameLetters_name (domain : Domain) :
    Text.sameLetters (Text.trim domain.name) domain.world.name = true := by
  cases domain <;> decide +kernel

theorem Domain.sameLetters_name_of_ne {domain other : Domain} (h : other ≠ domain) :
    Text.sameLetters (Text.trim domain.name) other.world.name = false := by
  cases domain <;> cases other <;> first | exact absurd rfl h | decide +kernel

theorem Domain.complete_acceptable {domain : Domain} {d : Document} {m : Model}
    (h : domain.validate d = .ok m) : m.document.Acceptable domain.world := by
  have hhorizon := Domain.validate_horizon h
  obtain ⟨hviolations, p, hp, rfl⟩ := Domain.validate_eq_ok.mp h
  have hd := Document.acceptable_of_violations hviolations ⟨p, hp⟩
  refine hd.of_outline (Document.outline_complete domain d) ?_ hd.value ?_
  · intro company hcompany
    obtain rfl := Option.some.inj hcompany
    exact domain.sameLetters_name
  · intro horizon hmem
    obtain rfl := Option.some.inj hmem
    exact hhorizon

theorem Domain.program_complete (domain : Domain) (d : Document) :
    program (domain.complete d) = program d := rfl

theorem Domain.validate_complete {domain : Domain} {d : Document} {m : Model}
    (h : domain.validate d = .ok m) : domain.validate m.document = .ok m := by
  have hacceptable := Domain.complete_acceptable h
  obtain ⟨-, p, hp, rfl⟩ := Domain.validate_eq_ok.mp h
  refine Domain.validate_eq_ok.mpr ⟨hacceptable.violations_eq_nil, p, ?_, rfl⟩
  rw [Domain.program_complete, hp]

theorem Validation.company_mem_violations {w : World} {d : Document} {company : String}
    (hd : d.company = some company)
    (hw : Text.sameLetters (Text.trim company) w.name = false) :
    .company company w.name ∈ violations w d := by
  have hfields : .company company w.name ∈ modelFields w d := by
    simp [modelFields, hd, mem_violated, hw]
  simp only [violations, wellFormed, List.mem_append, hfields, true_or]

theorem Domain.validate_complete_of_ne {domain other : Domain} {d : Document} {m : Model}
    (h : domain.validate d = .ok m) (hother : other ≠ domain) :
    ∃ vs, other.validate m.document = .error vs ∧ .company domain.name other.name ∈ vs := by
  obtain ⟨-, p, -, rfl⟩ := Domain.validate_eq_ok.mp h
  have hmem := company_mem_violations (d := domain.complete d) rfl
    (Domain.sameLetters_name_of_ne hother)
  refine ⟨violations other.world (domain.complete d), ?_, hmem⟩
  rw [Domain.validate]
  split
  case h_1 hnil => simp [hnil] at hmem
  case h_2 => rfl

/-- The document of a model is accepted again by its domain, which makes the same model of it: the
same document, horizon and program, and so the same runs. Every other domain refuses it for the
company that it names; and of all names a domain can be asked for by, those of its own domain are
the ones under which it is accepted. -/
theorem accepted_again_by_its_domain (domain : Domain) (d : Document) (m : Model)
    (h : domain.validate d = .ok m) :
    domain.validate m.document = .ok m ∧
      (∀ other, other ≠ domain → ∃ vs, other.validate m.document = .error vs ∧
        .company domain.name other.name ∈ vs) ∧
      ∀ name m', validate name m.document = .ok m' ↔
        Domain.ofName? name = some domain ∧ m' = m := by
  have hagain := Domain.validate_complete h
  refine ⟨hagain, fun other hother ↦ Domain.validate_complete_of_ne h hother, fun name m' ↦ ?_⟩
  rw [validate]
  cases hname : Domain.ofName? name with
  | none => simp
  | some other =>
    dsimp only
    by_cases hother : other = domain
    · rw [hother, hagain, and_iff_right rfl, Except.ok.injEq, eq_comm]
    · obtain ⟨vs, hvs, -⟩ := Domain.validate_complete_of_ne h hother
      simp [hvs, hother]

/-- Names its domain with blanks around it, and leaves the horizon to it. -/
def hiring : Document where
  company := some " aerodin "
  name := "Hiring"
  description := "Juniors are hired at a steady rate."
  stocks := [{ id := "junior_engineers", name := "Juniors", initialValue := some 8 }]
  flows := [{ id := "hiring_rate", name := "Hiring", target := some "junior_engineers",
              equation := "hiring_target" }]
  parameters := [{ id := "hiring_target", name := "Target", value := some 2 }]

theorem accepted_again_by_its_domain_hiring :
    ∃ m, Domain.aerodin.validate hiring = .ok m ∧ m.document.company = some "aerodin" ∧
      Domain.aerodin.validate m.document = .ok m ∧
      (∃ vs, Domain.euromotion.validate m.document = .error vs) ∧
      validate "aerodin " m.document = .ok m := by
  obtain ⟨m, hm⟩ : ∃ m, Domain.aerodin.validate hiring = .ok m :=
    Except.toBool_eq_true.mp (by decide +kernel)
  have hcompany : m.document.company = some "aerodin" := by
    obtain ⟨-, p, -, rfl⟩ := Domain.validate_eq_ok.mp hm
    rfl
  obtain ⟨hagain, hother, hname⟩ := accepted_again_by_its_domain .aerodin hiring m hm
  obtain ⟨vs, hvs, -⟩ := hother .euromotion (by decide)
  exact ⟨m, hm, hcompany, hagain, ⟨vs, hvs⟩, (hname "aerodin " m).mpr ⟨by decide +kernel, rfl⟩⟩

end SystemDynamics
