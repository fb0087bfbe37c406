import AccessPlanner.Condition

/-!
# Planner configuration

Scans read a whole table, so they are refused unless the configuration admits them, for items and
for counts separately.
-/

namespace AccessPlanner

/-- **Which index is looked at first:** as declared, or by name. -/
inductive IndexOrder where
  | declared
  | lexicographic
  deriving DecidableEq

/-- **The configuration of the planner.** -/
structure PlannerConfig where
  scanEnabled : Bool := false
  scanCountEnabled : Bool := false
  indexOrder : IndexOrder := .declared
  deriving DecidableEq

namespace PlannerConfig

/-- The configuration that admits scans for items and for counts. -/
def withScans : PlannerConfig := { scanEnabled := true, scanCountEnabled := true }

/-- Whether a scan may answer a query with this projection. -/
def allowsScan (config : PlannerConfig) : Projection → Bool
  | .items => config.scanEnabled
  | .count => config.scanCountEnabled

end PlannerConfig

end AccessPlanner
