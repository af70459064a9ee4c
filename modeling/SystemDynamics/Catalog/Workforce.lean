import SystemDynamics.Model.Document

namespace SystemDynamics.Catalog

def workforce : Document where
  company := some "aerodin"
  name := "Aerodin engineering workforce and program pipeline"
  description :=
    "Engineers are hired as juniors, trained into skilled staff and lost to attrition. " ++
    "Skilled capacity drives regulatory submissions, which must clear the regulatory backlog " ++
    "and ethical review before becoming active defense programs."
  stocks := [
    { id := "junior_engineers", name := "Junior Engineers", initialValue := some 120
      unit := "people" },
    { id := "skilled_engineers", name := "Skilled Engineers", initialValue := some 500
      unit := "people" },
    { id := "regulatory_backlog", name := "Regulatory Backlog", initialValue := some 20
      unit := "cases"
      description := some "Submissions awaiting regulatory and ethical clearance" },
    { id := "active_defense_programs", name := "Active Defense Programs", initialValue := some 15
      unit := "programs" }]
  flows := [
    { id := "hiring_rate", name := "Hiring", target := some "junior_engineers"
      equation := "max(0, hiring_target * workforce_gap / max_workforce)", unit := "people/month" },
    { id := "training_completion", name := "Training Completion"
      source := some "junior_engineers", target := some "skilled_engineers"
      equation := "junior_engineers / training_time", unit := "people/month" },
    { id := "attrition_rate", name := "Attrition", source := some "skilled_engineers"
      equation := "skilled_engineers * attrition_fraction", unit := "people/month" },
    { id := "regulatory_submission_rate", name := "Regulatory Submissions"
      target := some "regulatory_backlog", equation := "delivery_capacity / 100"
      unit := "cases/month" },
    { id := "program_approval_rate", name := "Program Approvals"
      source := some "regulatory_backlog", target := some "active_defense_programs"
      equation := "min(regulatory_backlog, regulatory_capacity) / regulatory_delay"
      unit := "programs/month" },
    { id := "program_completion", name := "Program Completion"
      source := some "active_defense_programs", equation := "active_defense_programs / 24"
      unit := "programs/month" }]
  parameters := [
    { id := "hiring_target", name := "Hiring Target", value := some 20, unit := "people/month" },
    { id := "max_workforce", name := "Maximum Workforce", value := some 800, unit := "people" },
    { id := "attrition_fraction", name := "Attrition Fraction", value := some 0.02
      unit := "1/month" },
    { id := "training_time", name := "Training Time", value := some 6, unit := "months" },
    { id := "productivity_per_engineer", name := "Productivity per Engineer", value := some 0.8
      unit := "units/person" },
    { id := "ethical_review_time", name := "Ethical Review Time", value := some 3
      unit := "months", description := some "Mandatory review delay before approval" },
    { id := "regulatory_capacity", name := "Regulatory Capacity", value := some 10
      unit := "cases/month" }]
  auxiliaries := [
    { id := "total_workforce", name := "Total Workforce"
      equation := "junior_engineers + skilled_engineers", unit := "people" },
    { id := "workforce_gap", name := "Workforce Gap"
      equation := "max_workforce - total_workforce", unit := "people" },
    { id := "delivery_capacity", name := "Delivery Capacity"
      equation := "skilled_engineers * productivity_per_engineer", unit := "units" },
    { id := "regulatory_delay", name := "Regulatory Delay"
      equation := "ethical_review_time * (1 + regulatory_backlog / regulatory_capacity)"
      unit := "months" }]
  horizon := some ⟨0, 60, 1, .months⟩

end SystemDynamics.Catalog
