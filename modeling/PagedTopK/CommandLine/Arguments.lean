import PagedTopK.Binary64.Decimal
import PagedTopK.Execution.Options

set_option autoImplicit false

/-!
# Arguments

A command line names a command and gives it options, flags and operands. An option takes its value
after an equal sign or from the next argument; no option or flag may be given twice. After two
hyphens everything is an operand.

## Main definitions

* `CommandLine.Shape` — the options and flags of a command.
* `CommandLine.sort?` — the arguments of a command, sorted.
* `CommandLine.Command` — a command with its arguments.
* `CommandLine.parse?` — the command that a command line names, none if it names none properly.
-/

namespace PagedTopK.CommandLine

/-! ## Sorting -/

/-- **The options and flags of a command**, with their hyphens. -/
structure Shape where
  /-- The options, which take a value. -/
  options : List String
  /-- The flags, which take none. -/
  flags : List String

/-- **The arguments of a command, sorted.** -/
structure Sorted where
  /-- The options with their values. -/
  options : List (String × String)
  /-- The flags. -/
  flags : List String
  /-- The operands, in order. -/
  operands : List String

namespace Sorted

/-- No arguments. -/
def none : Sorted := ⟨[], [], []⟩

/-- Add an option. -/
def addOption? (s : Sorted) (name value : String) : Option Sorted :=
  if (s.options.lookup name).isSome then Option.none
  else some { s with options := (name, value) :: s.options }

/-- Add a flag. -/
def addFlag? (s : Sorted) (name : String) : Option Sorted :=
  if name ∈ s.flags then Option.none else some { s with flags := name :: s.flags }

/-- Add operands. -/
def addOperands (s : Sorted) (values : List String) : Sorted :=
  { s with operands := s.operands ++ values }

end Sorted

/-- Whether an argument is an operand or a value: it does not begin with a hyphen, or is nothing
else. -/
def isOperand (argument : String) : Bool :=
  argument.toList.head? != some '-' || argument == "-"

/-- An argument at its first equal sign, if it has one. -/
def splitEqual? (argument : String) : Option (String × String) :=
  let cs := argument.toList
  match cs.dropWhile (· ≠ '=') with
  | _ :: value => some (String.ofList (cs.takeWhile (· ≠ '=')), String.ofList value)
  | [] => none

/-- **Sort the arguments of a command.** -/
def sortInto? (shape : Shape) (s : Sorted) : List String → Option Sorted
  | [] => some s
  | argument :: rest =>
    if argument = "--" then some (s.addOperands rest)
    else if isOperand argument then sortInto? shape (s.addOperands [argument]) rest
    else if argument ∈ shape.flags then
      match s.addFlag? argument with
      | some s => sortInto? shape s rest
      | none => none
    else if argument ∈ shape.options then
      match rest with
      | value :: rest =>
        if isOperand value then
          match s.addOption? argument value with
          | some s => sortInto? shape s rest
          | none => none
        else none
      | [] => none
    else
      match splitEqual? argument with
      | some (name, value) =>
        if name ∈ shape.options then
          match s.addOption? name value with
          | some s => sortInto? shape s rest
          | none => none
        else none
      | none => none

/-- Sort the arguments of a command from the first one on. -/
def sort? (shape : Shape) : List String → Option Sorted := sortInto? shape .none

/-! ## Values -/

/-- A path, which must not be empty. -/
def path? (value : String) : Option String := if value = "" then none else some value

/-- A natural number that fits in 64 bits. -/
def natural? (value : String) : Option Nat := Digits.natBelow? Digits.word64 value.toList

/-- A double. -/
def double? (value : String) : Option Binary64 := Binary64.ofText? value.toList

/-- A truth value. -/
def truth? (value : String) : Option Bool :=
  if value = "true" then some true else if value = "false" then some false else none

/-- The value of an option that may be missing. -/
def Sorted.value? {α : Type} (s : Sorted) (name : String) (read : String → Option α) :
    Option (Option α) :=
  match s.options.lookup name with
  | Option.none => some Option.none
  | some value => (read value).map some

/-! ## Commands -/

/-- **What the command for a query is told.** -/
structure RunArguments where
  /-- The file with the query. -/
  queryFile : String
  /-- The settings file. -/
  config : Option String
  /-- The address of the service, before that of the settings. -/
  endpoint : Option String
  /-- The default graph, before that of the settings. -/
  graph : Option String
  /-- The name of the strategy. -/
  strategy : String
  /-- The refresh rate. -/
  refreshRate : Option Binary64
  /-- How many results are wanted. -/
  limit : Option Nat
  /-- How many results one round may give. -/
  maxLimit : Option Nat
  /-- How long one round may take, in milliseconds. -/
  quota : Option Nat
  /-- Whether the service drops solutions early. -/
  earlyPruning : Bool
  /-- Whether the service keeps nothing between rounds. -/
  stateless : Bool
  /-- Whether the order of joins is that of the query. -/
  forceOrder : Bool
  /-- Where the solutions are written. -/
  output : Option String
  /-- Where the statistics are written. -/
  stats : Option String
deriving DecidableEq

/-- **A command with its arguments.** -/
inductive Command where
  /-- Execute a query. -/
  | run (arguments : RunArguments)
  /-- Compare a result with a reference. -/
  | compare (reference actual : String) (output : Option String)
  /-- List the strategies. -/
  | strategies
deriving DecidableEq

/-- The flag that every command takes. -/
def verbose : String := "--verbose"

/-- The command for a query. -/
def run? (arguments : List String) : Option Command := do
  let s ← sort? {
    options := ["--config", "--endpoint", "--graph", "--strategy", "--refresh-rate", "--limit",
      "--max-limit", "--quota", "--early-pruning", "--stateless", "--output", "--stats"]
    flags := [verbose, "--force-order"] } arguments
  match s.operands with
  | [file] =>
    return .run {
      queryFile := ← path? file
      config := ← s.value? "--config" path?
      endpoint := ← s.value? "--endpoint" some
      graph := ← s.value? "--graph" some
      strategy := (← s.value? "--strategy" some).getD "client-merge"
      refreshRate := ← s.value? "--refresh-rate" double?
      limit := ← s.value? "--limit" natural?
      maxLimit := ← s.value? "--max-limit" natural?
      quota := ← s.value? "--quota" natural?
      earlyPruning := (← s.value? "--early-pruning" truth?).getD false
      stateless := (← s.value? "--stateless" truth?).getD true
      forceOrder := s.flags.contains "--force-order"
      output := ← s.value? "--output" path?
      stats := ← s.value? "--stats" path? }
  | _ => none

/-- The command for a comparison. -/
def compare? (arguments : List String) : Option Command := do
  let s ← sort? ⟨["--output"], [verbose]⟩ arguments
  match s.operands with
  | [reference, actual] =>
    return .compare (← path? reference) (← path? actual) (← s.value? "--output" path?)
  | _ => none

/-- The command for the list of strategies. -/
def strategies? (arguments : List String) : Option Command := do
  let s ← sort? ⟨[], [verbose]⟩ arguments
  if s.operands = [] then return .strategies else none

/-- The command with a name. -/
def command? : List String → Option Command
  | "run" :: rest => run? rest
  | "compare" :: rest => compare? rest
  | "strategies" :: rest => strategies? rest
  | _ => none

/-- **The command that a command line names.** One flag may stand before its name. -/
def parse? : List String → Option Command
  | [] => none
  | first :: rest => if first = verbose then command? rest else command? (first :: rest)

end PagedTopK.CommandLine
