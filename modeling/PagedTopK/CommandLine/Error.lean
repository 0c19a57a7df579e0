import PagedTopK.Failure
import PagedTopK.Strategy.Kind
import PagedTopK.Verdict.ResultFile

set_option autoImplicit false

/-!
# Failures of commands

## Main definitions

* `CommandLine.CommandError` — why a command fails.
* `CommandLine.CommandError.message` — the wording.
-/

namespace PagedTopK.CommandLine

/-- **Why a command fails.** -/
inductive CommandError where
  /-- The query cannot be read. -/
  | queryFile (path : String) (cause : FileError)
  /-- The settings cannot be read. -/
  | settingsFile (path : String) (cause : FileError)
  /-- The settings file does not hold settings. -/
  | badSettings (path : String)
  /-- No address of a service is given. -/
  | noEndpoint
  /-- No default graph is given. -/
  | noGraph
  /-- The strategy is misconfigured. -/
  | strategy (cause : ConfigurationError)
  /-- The execution fails. -/
  | execution (query : String) (kind : StrategyKind) (cause : Failure)
  /-- A result file is refused. -/
  | resultFile (cause : ResultFileError)
  /-- A file cannot be written. -/
  | unwritable (path : String) (cause : FileError)
deriving DecidableEq

/-- The wording of a cause. What is wrong with a settings file is not told. -/
def CommandError.message : CommandError → String
  | queryFile path cause => "failed to read query file " ++ path ++ ": " ++ cause.message
  | settingsFile path cause => "failed to read config file " ++ path ++ ": " ++ cause.message
  | badSettings path => "invalid config file " ++ path ++ ": <yaml>"
  | noEndpoint => "no service endpoint: pass --endpoint or --config"
  | noGraph => "no default graph: pass --graph or --config"
  | strategy cause => (Failure.configuration cause).message
  | execution query kind cause =>
    "query `" ++ query ++ "` failed with strategy " ++ kind.name ++ ": " ++ cause.message
  | resultFile cause => cause.message
  | unwritable path cause => "failed to write " ++ path ++ ": " ++ cause.message

end PagedTopK.CommandLine
