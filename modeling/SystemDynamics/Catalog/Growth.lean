import SystemDynamics.Model.Document

namespace SystemDynamics.Catalog

def growth : Document where
  company := some "euromotion"
  name := "Euromotion supply-constrained growth"
  description :=
    "Vehicle output is capped by installed capacity and by battery and semiconductor " ++
    "inventory. Delivered vehicles grow the customer base, and the ability to meet demand " ++
    "drives market share and capacity investment."
  stocks := [
    { id := "battery_inventory", name := "Battery Inventory", initialValue := some 5000
      unit := "packs" },
    { id := "semiconductor_inventory", name := "Semiconductor Inventory"
      initialValue := some 8000, unit := "chips" },
    { id := "installed_production_capacity", name := "Installed Capacity"
      initialValue := some 1000, unit := "vehicles/month" },
    { id := "customer_base", name := "Customer Base", initialValue := some 2000
      unit := "customers" },
    { id := "market_share", name := "Market Share", initialValue := some 2, unit := "percent" }]
  flows := [
    { id := "vehicle_output_rate", name := "Vehicle Output", target := some "customer_base"
      equation := "production_constraint", unit := "vehicles/month" },
    { id := "battery_procurement", name := "Battery Procurement"
      target := some "battery_inventory"
      equation :=
        "max(0, bom_battery_ratio * production_constraint + (bom_battery_ratio * " ++
        "demand * target_inventory_days / 30 - battery_inventory) / " ++
        "supplier_lead_time)"
      unit := "packs/month" },
    { id := "battery_consumption", name := "Battery Consumption"
      source := some "battery_inventory", equation := "vehicle_output_rate * bom_battery_ratio"
      unit := "packs/month" },
    { id := "semiconductor_procurement", name := "Semiconductor Procurement"
      target := some "semiconductor_inventory"
      equation :=
        "max(0, bom_semiconductor_ratio * production_constraint + " ++
        "(bom_semiconductor_ratio * demand * target_inventory_days / 30 - " ++
        "semiconductor_inventory) / supplier_lead_time)"
      unit := "chips/month" },
    { id := "semiconductor_consumption", name := "Semiconductor Consumption"
      source := some "semiconductor_inventory"
      equation := "vehicle_output_rate * bom_semiconductor_ratio", unit := "chips/month" },
    { id := "capacity_expansion", name := "Capacity Expansion"
      target := some "installed_production_capacity"
      equation :=
        "installed_production_capacity * capacity_investment_rate * (2 - " ++
        "delivery_ratio)"
      unit := "vehicles/month/month" },
    { id := "capacity_depreciation", name := "Capacity Depreciation"
      source := some "installed_production_capacity"
      equation := "installed_production_capacity * capacity_depreciation_rate"
      unit := "vehicles/month/month" },
    { id := "customer_churn", name := "Customer Churn", source := some "customer_base"
      equation := "customer_base * churn_rate", unit := "customers/month" },
    { id := "market_growth", name := "Market Growth", target := some "market_share"
      equation := "market_share * base_growth_rate * delivery_ratio", unit := "percent/month" },
    { id := "market_loss", name := "Market Loss", source := some "market_share"
      equation := "market_share * base_growth_rate * (1 - delivery_ratio)"
      unit := "percent/month" }]
  parameters := [
    { id := "total_market_size", name := "Total Market Size", value := some 100000
      unit := "vehicles/month" },
    { id := "base_growth_rate", name := "Base Growth Rate", value := some 0.02, unit := "1/month" },
    { id := "churn_rate", name := "Churn Rate", value := some 0.01, unit := "1/month" },
    { id := "capacity_investment_rate", name := "Capacity Investment Rate", value := some 0.03
      unit := "1/month" },
    { id := "capacity_depreciation_rate", name := "Capacity Depreciation Rate", value := some 0.01
      unit := "1/month" },
    { id := "production_efficiency", name := "Production Efficiency", value := some 0.9
      unit := "fraction" },
    { id := "bom_battery_ratio", name := "Batteries per Vehicle", value := some 1
      unit := "packs/vehicle" },
    { id := "bom_semiconductor_ratio", name := "Chips per Vehicle", value := some 2
      unit := "chips/vehicle" },
    { id := "supplier_lead_time", name := "Supplier Lead Time", value := some 2, unit := "months" },
    { id := "target_inventory_days", name := "Target Inventory Days", value := some 30
      unit := "days" }]
  auxiliaries := [
    { id := "production_constraint", name := "Production Constraint"
      equation :=
        "min(installed_production_capacity * production_efficiency, " ++
        "battery_inventory / bom_battery_ratio, semiconductor_inventory / " ++
        "bom_semiconductor_ratio)"
      unit := "vehicles/month"
      description := some "Binding limit among capacity and parts on hand" },
    { id := "demand", name := "Demand", equation := "total_market_size * market_share / 100"
      unit := "vehicles/month" },
    { id := "delivery_ratio", name := "Delivery Ratio"
      equation := "min(1, production_constraint / max(demand, 1))", unit := "fraction" },
    { id := "capacity_utilization", name := "Capacity Utilization"
      equation := "production_constraint / max(installed_production_capacity, 1)"
      unit := "fraction" }]
  horizon := some ⟨0, 48, 1, .months⟩

end SystemDynamics.Catalog
