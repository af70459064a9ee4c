import SystemDynamics.Domain.World

namespace SystemDynamics.World

def aerodin : World where
  name := "aerodin"
  description := "Defense contractor - regulatory, ethical constraints, certification"
  areas := [
    "capability", "regulatory_pressure", "political_risk", "ethical_scrutiny", "program_funding",
    "deployment_readiness", "workforce"]
  stockIds := [
    "skilled_engineers", "junior_engineers", "active_defense_programs", "regulatory_backlog",
    "rd_knowledge", "certification_level", "public_trust_level", "cash_reserves",
    "certified_ai_modules"]
  flowIds := [
    "hiring_rate", "attrition_rate", "promotion_rate", "training_completion",
    "program_approval_rate", "program_completion", "ethical_clearance_rate",
    "regulatory_submission_rate", "rd_investment", "knowledge_depreciation",
    "certification_progress", "trust_gain", "trust_loss", "revenue", "expenses"]
  parameterIds := [
    "max_workforce", "hiring_target", "attrition_fraction", "training_time",
    "productivity_per_engineer", "ethical_review_time", "certification_requirement",
    "revenue_per_program", "cost_per_engineer", "overhead_rate", "regulatory_capacity",
    "political_sensitivity"]
  auxiliaryIds := [
    "total_workforce", "workforce_gap", "delivery_capacity", "ethical_pressure",
    "regulatory_delay", "deployment_readiness_index", "program_risk_score", "profit_margin"]
  -- Capability never turns straight into cash.
  forbiddenEdges := [("certified_ai_modules", "cash_reserves"), ("rd_knowledge", "cash_reserves")]
  -- Programs become active only through the regulatory backlog.
  mandatoryIntermediates := [⟨"active_defense_programs", "regulatory_backlog"⟩]
  requiredDependencies := []
  horizon := ⟨0, 60, 1, .months⟩

end SystemDynamics.World
