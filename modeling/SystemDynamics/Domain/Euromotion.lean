import SystemDynamics.Domain.World

namespace SystemDynamics.World

def euromotion : World where
  name := "euromotion"
  description := "EV manufacturer - supply chain, capacity, inventory"
  areas := [
    "production_capacity", "supply_chain", "inventory", "demand", "cost_structure",
    "technology_maturity", "supplier_risk"]
  stockIds := [
    "battery_inventory", "semiconductor_inventory", "installed_production_capacity",
    "software_platform_stability", "market_share", "customer_base", "customer_satisfaction",
    "rd_knowledge", "brand_equity", "supplier_relationships"]
  flowIds := [
    "vehicle_output_rate", "capacity_expansion", "capacity_depreciation", "battery_procurement",
    "battery_consumption", "semiconductor_procurement", "semiconductor_consumption",
    "market_growth", "market_loss", "customer_acquisition", "customer_churn",
    "satisfaction_improvement", "satisfaction_decline", "rd_investment", "innovation_rate",
    "brand_building", "brand_erosion"]
  parameterIds := [
    "total_market_size", "base_growth_rate", "churn_rate", "capacity_investment_rate",
    "production_efficiency", "bom_battery_ratio", "bom_semiconductor_ratio",
    "supplier_lead_time", "target_inventory_days", "rd_budget", "marketing_budget",
    "innovation_factor", "capacity_depreciation_rate"]
  auxiliaryIds := [
    "demand", "delivery_ratio", "supply_gap", "competitive_position", "capacity_utilization",
    "inventory_days", "growth_momentum", "production_constraint"]
  forbiddenEdges := []
  mandatoryIntermediates := []
  -- Output is bounded by the parts on hand and the capacity installed.
  requiredDependencies := [
    ⟨"vehicle_output_rate",
      ["battery_inventory", "semiconductor_inventory", "installed_production_capacity"]⟩]
  horizon := ⟨0, 48, 1, .months⟩

end SystemDynamics.World
