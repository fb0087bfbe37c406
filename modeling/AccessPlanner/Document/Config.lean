import AccessPlanner.Config
import AccessPlanner.Document.Reader

/-!
# Configuration documents

Every field of a configuration document may be missing, and then has its default.
-/

namespace AccessPlanner

variable {α : Type} [Readable α]

/-- The name of an index order. -/
def IndexOrder.name : IndexOrder → String
  | declared => "declared"
  | lexicographic => "lexicographic"

/-- Reading an index order. -/
def IndexOrder.read : Reader α IndexOrder := Reader.choice [declared, lexicographic] name

namespace PlannerConfig

/-- The fields of a configuration. -/
def record : Record α PlannerConfig :=
  [.optional "scan_enabled" .bool fun scanEnabled draft => { draft with scanEnabled },
    .optional "scan_count_enabled" .bool
      fun scanCountEnabled draft => { draft with scanCountEnabled },
    .optional "index_order" IndexOrder.read fun indexOrder draft => { draft with indexOrder }]

/-- Reading a configuration. -/
def read : Reader α PlannerConfig := record.read {}

/-- The document of a configuration. -/
def toJson (config : PlannerConfig) : Json :=
  .ofFields
    [("scan_enabled", .bool config.scanEnabled),
      ("scan_count_enabled", .bool config.scanCountEnabled),
      ("index_order", .string config.indexOrder.name)]

end PlannerConfig

end AccessPlanner
