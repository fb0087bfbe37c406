import AccessPlanner.Console.Command
import AccessPlanner.Document.Plan
import AccessPlanner.Json.Printer

/-!
# Console output

What commands answer, as text for people and as JSON.  An answer is a list of texts that are
printed with a line break after each; as JSON it is one text.
-/

namespace AccessPlanner.Console

/-- **What a command answers.** -/
inductive Answer where
  | plan (plan : AccessPlan) (request : StoreRequest)
  | schema (schema : KeySchema)
  | config (config : PlannerConfig)
  | help

/-- **How answers are printed.** -/
inductive OutputMode where
  | pretty
  | json
  deriving DecidableEq

/-! ### Text for people -/

/-- A name, an operator and values, without blanks at the end. -/
def describe (name : String) (operator : Operator) (values : List Json) : String :=
  let text := name ++ " " ++ operator.name ++ " " ++ ", ".intercalate (values.map Json.write)
  String.ofList (trimEnd text.toList)

/-- A condition in words. -/
def describeCondition (condition : Condition) : String :=
  describe condition.property condition.operator condition.values

/-- The lines of a plan. -/
def planLines : AccessPlan → List String
  | .load hashValue rangeValue =>
    ["Plan: LOAD", "  Hash value:  " ++ hashValue.write]
      ++ (rangeValue.map fun range => "  Range value: " ++ range.write).toList
  | .query plan =>
    ["Plan: QUERY on " ++ plan.indexName.getD "primary key",
        "  Hash:   " ++ describeCondition plan.hash]
      ++ (plan.range.map fun range => "  Range:  " ++ describeCondition range).toList
      ++ plan.filters.map fun filter => "  Filter: " ++ describeCondition filter
  | .scan plan =>
    "Plan: SCAN" :: plan.filters.map fun filter => "  Filter: " ++ describeCondition filter

/-- A projection in words. -/
def projectionWord : Projection → String
  | .items => "Items"
  | .count => "Count"

/-- The line of a request. -/
def requestLine : StoreRequest → String
  | .load request => "Request: load " ++ request.hashKey.name
  | .query request =>
    let range :=
      match request.rangeKey with
      | some range => " + " ++ describe range.name range.operator range.values
      | none => ""
    let direction := if request.scanIndexForward then "ascending" else "descending"
    "Request: query " ++ request.hashKey.name ++ range ++ " (" ++ direction ++ ", select "
      ++ projectionWord request.select ++ ")"
  | .scan request =>
    "Request: scan with " ++ toString request.filters.length ++ " filter(s) (select "
      ++ projectionWord request.select ++ ")"

/-- The line of an index. -/
def indexLine (index : IndexDefinition) : String :=
  let range :=
    match index.rangeKey with
    | some range => ", " ++ range
    | none => ""
  "  " ++ index.name ++ " (" ++ index.hashKey ++ range ++ ")"

/-- The lines of a schema. -/
def schemaLines (schema : KeySchema) : List String :=
  ["Hash key:  " ++ schema.hashKey, "Range key: " ++ schema.rangeKey.getD "(none)"]
    ++ (if schema.indexes.isEmpty then ["No indexes."] else schema.indexes.map indexLine)
    ++ schema.compositeIds.map fun id => "Composite id: " ++ id

/-- An index order in words. -/
def indexOrderWord : IndexOrder → String
  | .declared => "Declared"
  | .lexicographic => "Lexicographic"

/-- A truth value in words. -/
def boolWord : Bool → String
  | true => "true"
  | false => "false"

/-- The lines of a configuration. -/
def configLines (config : PlannerConfig) : List String :=
  ["scan_enabled:       " ++ boolWord config.scanEnabled,
    "scan_count_enabled: " ++ boolWord config.scanCountEnabled,
    "index_order:        " ++ indexOrderWord config.indexOrder]

/-- The command reference. -/
def helpText : String :=
  "\n".intercalate
    ["DynaRepo Console - Command Reference",
      "====================================",
      "",
      "  PLAN \x7bjson\x7d       Plan a condition set and show the store request",
      "  COUNT \x7bjson\x7d      Same, for the count-returning path",
      "  \x7bjson\x7d            Shorthand for PLAN",
      "  SCHEMA            Show the loaded key schema",
      "  CONFIG            Show the planner configuration",
      "  HELP              Show this help",
      "  EXIT / QUIT       Exit the console",
      "",
      "Condition set document:",
      "  \x7b\"conditions\": [\x7b\"property\": \"name\", \"operator\": \"EQ\", \"values\": [\"Alice\"]\x7d],",
      "   \"sort\": \x7b\"property\": \"joinYear\", \"direction\": \"DESC\"\x7d,",
      "   \"limit\": 10, \"consistent_read\": false\x7d",
      "",
      "Operators:",
      "  EQ NE IN LE LT GE GT BETWEEN NOT_NULL NULL CONTAINS NOT_CONTAINS BEGINS_WITH"]

/-- The lines of an answer. -/
def Answer.lines : Answer → List String
  | plan chosen request => planLines chosen ++ [requestLine request]
  | schema loaded => schemaLines loaded
  | config active => configLines active
  | help => [helpText]

/-! ### JSON -/

/-- The document of an answer. -/
def Answer.toJson : Answer → Json
  | plan chosen request => .ofFields [("plan", chosen.toJson), ("request", request.toJson)]
  | schema loaded => .ofFields [("schema", loaded.toJson)]
  | config active => .ofFields [("config", active.toJson)]
  | help => .ofFields [("help", .string helpText)]

/-- The document of a failure. -/
def ConsoleError.toJson (error : ConsoleError) : Json :=
  .ofFields [("error", .string error.message)]

/-! ### Both -/

/-- **What is printed for an answer.** -/
def Answer.print (answer : Answer) : OutputMode → List String
  | .pretty => answer.lines
  | .json => [answer.toJson.write]

/-- The line for people that reports a failure. -/
def ConsoleError.line (error : ConsoleError) : String := "Error: " ++ error.message

end AccessPlanner.Console
