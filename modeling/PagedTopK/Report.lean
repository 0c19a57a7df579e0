import PagedTopK.Execution.Run
import PagedTopK.Json.Writer
import PagedTopK.Verdict.Basic

set_option autoImplicit false

/-!
# Reports

What a command prints is a JSON object that names the version of its form.

## Main definitions

* `Report.withVersion` — a value with the version of its form.
* `Report.queryName` — the name of a query, from the path of its file.
* `Report.ofRun`, `Report.ofVerdict`, `Report.ofStrategies` — what the commands report.
* `Report.statistics` — the statistics of a run.
-/

namespace PagedTopK.Report

/-- The version of the form of reports. -/
def version : String := "cli.v1"

/-- **A value with the version of its form.** An object gets one more member; any other value
becomes a member of an object. -/
def withVersion : Json → Json
  | .object members => .object (Json.setMember "contract_version" (.text version) members)
  | value => .object [("contract_version", .text version), ("payload", value)]

/-! ## Names of queries -/

/-- The last name of a path, unless it leads upwards. -/
def fileName (path : String) : List Char :=
  match ((path.toList.splitOn '/').reverse.dropWhile
      fun name => name = [] ∨ name = ['.']).head? with
  | some name => if name = ['.', '.'] then [] else name
  | none => []

/-- **The name of a query**: the name of its file up to the first dot. -/
def queryName (path : String) : String := String.ofList ((fileName path).takeWhile (· ≠ '.'))

/-! ## What is reported -/

/-- A solution as an object. -/
def solutionJson (s : Solution) : Json := .object (s.bindings.map fun b => (b.1, .text b.2))

/-- Solutions as an array. -/
def solutionsJson (ss : List Solution) : Json := .array (ss.map solutionJson)

/-- The selector of a strategy. -/
def selectorJson (kind : StrategyKind) : Json :=
  Json.optional (fun s : Selector => .text s.text) kind.selector?

/-- **The report of a run.** -/
def ofRun (name : String) (kind : StrategyKind) (outcome : Execution.Outcome) : Json :=
  .object [
    ("command", .text "run"),
    ("query", .text name),
    ("strategy", .text kind.name),
    ("topk_strategy", selectorJson kind),
    ("metrics", outcome.metrics.json),
    ("solutions", solutionsJson outcome.solutions)]

/-- **The statistics of a run**, with the time at which it ended. -/
def statistics (name : String) (kind : StrategyKind) (recordedAt : String) (metrics : Metrics) :
    Json :=
  .object ([("query", .text name), ("strategy", .text kind.name),
    ("recorded_at", .text recordedAt)] ++ metrics.members)

/-- **The report of a comparison.** -/
def ofVerdict (v : Verdict) : Json := .object (v.members ++ [("command", .text "compare")])

/-- The line of a strategy in the list. -/
def strategyJson (name : String) (kind : StrategyKind) : Json :=
  .object [
    ("name", .text name),
    ("strategy", .text kind.name),
    ("topk_strategy", selectorJson kind),
    ("threshold_pushdown", .bool kind.pushesThreshold)]

/-- **The list of strategies**, by all their names. -/
def ofStrategies : Json :=
  .object [
    ("command", .text "strategies"),
    ("strategies", .array (StrategyKind.names.filterMap fun name =>
      (StrategyKind.ofName name none).toOption.map (strategyJson name)))]

end PagedTopK.Report
