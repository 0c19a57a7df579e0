import PagedTopK.CommandLine.Arguments
import PagedTopK.CommandLine.Error
import PagedTopK.Report
import PagedTopK.Service.Http
import PagedTopK.Settings

set_option autoImplicit false

/-!
# Running commands

A command reads files, talks to the service, writes files and prints a report. All of that is
computed from the world that it finds. Of the way to the service nothing is known but what comes
back.

## Main definitions

* `CommandLine.World` — what a command finds.
* `CommandLine.Effects` — what a command leaves behind.
* `CommandLine.Command.effects` — what a command does.
-/

namespace PagedTopK.CommandLine

/-- **What a command finds.** -/
structure World where
  /-- The contents of files. -/
  read : String → Except FileError String
  /-- Whether a file may be written after some others. -/
  mayWrite : List String → String → Except FileError Unit
  /-- The way to the service. -/
  transport : Transport
  /-- The time of day, in words. -/
  now : String
  /-- How long an execution takes, in seconds and billionths of a second. -/
  elapsed : Nat × Nat

/-- The world with a directory of files and a scripted service. -/
def World.inDirectory (d : Directory) (service : HttpService) (now : String)
    (elapsed : Nat × Nat) : World where
  read := d.read
  mayWrite earlier path := ((d.writeAll (earlier.map (·, ""))).write path "").map fun _ => ()
  transport := service.transport
  now := now
  elapsed := elapsed

/-- **What a command leaves behind.** -/
structure Effects where
  /-- Whether the command succeeds. -/
  result : Except CommandError Unit
  /-- What is printed. -/
  printed : String
  /-- The files that are written, in order, with their contents. -/
  written : List (String × String)
  /-- What the service has got. -/
  received : List Received
  /-- What is warned of. -/
  warnings : List Execution.Warning

/-- The effects of a command that fails and leaves nothing behind. -/
def Effects.failed (e : CommandError) : Effects := ⟨.error e, "", [], [], []⟩

/-- The directory after a command. -/
def Effects.directoryAfter (effects : Effects) (d : Directory) : Directory :=
  d.writeAll effects.written

/-- **Write values to files**, as far as files are named, one after the other and after the files
`earlier`; the first failure ends it. -/
def writeAll (world : World) (earlier : List String) :
    List (Option String × Json) → List (String × String) × Except CommandError Unit
  | [] => ([], .ok ())
  | (none, _) :: rest => writeAll world earlier rest
  | (some path, value) :: rest =>
    match world.mayWrite earlier path with
    | .error cause => ([], .error (.unwritable path cause))
    | .ok _ =>
      let later := writeAll world (earlier ++ [path]) rest
      ((path, value.indented) :: later.1, later.2)

/-- The text of a report: indented, with the version of its form, and a line break after it. -/
def printedReport (value : Json) : String := (Report.withVersion value).indented ++ "\n"

/-! ## Executing a query -/

/-- **What an execution needs**, from the arguments and the files that they name. -/
structure Preparation where
  /-- The query. -/
  query : String
  /-- Where posts go. -/
  client : HttpClient
  /-- The strategy. -/
  kind : StrategyKind
  /-- The options. -/
  options : Options

/-- The settings in a file, if one is named. -/
def loadSettings (world : World) : Option String → Except CommandError (Option Settings)
  | none => .ok none
  | some path =>
    match world.read path with
    | .error cause => .error (.settingsFile path cause)
    | .ok text =>
      match Settings.parse? text with
      | some settings => .ok (some settings)
      | none => .error (.badSettings path)

/-- **Prepare an execution.** The query is read first, then the settings; what the arguments say
goes before the settings. -/
def prepare (world : World) (a : RunArguments) : Except CommandError Preparation := do
  let query ← match world.read a.queryFile with
    | .ok text => .ok text
    | .error cause => .error (.queryFile a.queryFile cause)
  let settings ← loadSettings world a.config
  let endpoint ← match a.endpoint.or (settings.map Settings.url) with
    | some endpoint => .ok endpoint
    | none => .error .noEndpoint
  let graph ← match a.graph.or (settings.map Settings.graph) with
    | some graph => .ok graph
    | none => .error .noGraph
  let kind ← match StrategyKind.ofName a.strategy a.refreshRate with
    | .ok kind => .ok kind
    | .error cause => .error (.strategy cause)
  let timeout := (settings.bind Settings.timeout).getD HttpClient.defaultTimeout
  return {
    query, kind
    client := ⟨endpoint, timeout⟩
    options := {
      defaultGraph := graph
      limit := a.limit
      quota := a.quota
      maxLimit := a.maxLimit
      stateless := a.stateless
      earlyPruning := a.earlyPruning
      forceOrder := a.forceOrder } }

/-- **Execute a query**, write the solutions, then the statistics, and report. -/
def executeQuery (world : World) (a : RunArguments) : Effects :=
  match prepare world a with
  | .error e => .failed e
  | .ok ready =>
    let run := Execution.run ready.kind ready.options ready.query
      (world.transport.replies ready.client)
    let received := world.transport.received ready.client (run.requests.map Request.body)
    let name := Report.queryName a.queryFile
    match run.result with
    | .error cause => ⟨.error (.execution name ready.kind cause), "", [], received, run.warnings⟩
    | .ok outcome =>
      let outcome := { outcome with
        metrics := outcome.metrics.withTime world.elapsed.1 world.elapsed.2 }
      let (written, result) := writeAll world [] [
        (a.output, Report.solutionsJson outcome.solutions),
        (a.stats, Report.statistics name ready.kind world.now outcome.metrics)]
      let printed := match result with
        | .ok _ => printedReport (Report.ofRun name ready.kind outcome)
        | .error _ => ""
      ⟨result, printed, written, received, run.warnings⟩

/-! ## Comparing results -/

/-- The rows of a result file. -/
def loadRows (world : World) (path : String) : Except CommandError (List Row) :=
  (ResultFile.load world.read path).mapError .resultFile

/-- **Compare a result with a reference**, write the verdict and report it. The reference is read
first. -/
def compareResults (world : World) (reference actual : String) (output : Option String) :
    Effects :=
  let rows : Except CommandError (List Row × List Row) := do
    let expected ← loadRows world reference
    let found ← loadRows world actual
    return (expected, found)
  match rows with
  | .error e => .failed e
  | .ok (expected, found) =>
    let verdict := Verdict.compare expected found
    let (written, result) := writeAll world [] [(output, verdict.json)]
    let printed := match result with
      | .ok _ => printedReport (Report.ofVerdict verdict)
      | .error _ => ""
    ⟨result, printed, written, [], []⟩

/-- **What a command does.** -/
def Command.effects (world : World) : Command → Effects
  | .run arguments => executeQuery world arguments
  | .compare reference actual output => compareResults world reference actual output
  | .strategies => ⟨.ok (), printedReport Report.ofStrategies, [], [], []⟩

/-- The files that a command reads. -/
def Command.reads : Command → List String
  | .run arguments => arguments.queryFile :: arguments.config.toList
  | .compare reference actual _ => [reference, actual]
  | .strategies => []

end PagedTopK.CommandLine
