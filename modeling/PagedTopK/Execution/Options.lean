import PagedTopK.Json.Reader
import PagedTopK.Json.Writer

set_option autoImplicit false

/-!
# Options of an execution

What is asked of an execution beside the query and the strategy.

## Main definitions

* `Options` — the options.
* `Options.json`, `Options.ofDocument` — their JSON form.
-/

namespace PagedTopK

open Json (ReadError Reader Field Given)

/-- **The options of an execution.** -/
structure Options where
  /-- The graph that the query is about. -/
  defaultGraph : String
  /-- How many results are wanted, if not what the query says. -/
  limit : Option Nat := none
  /-- How long one round may take, in milliseconds. -/
  quota : Option Nat := none
  /-- How many results one round may give. -/
  maxLimit : Option Nat := none
  /-- Whether the service keeps nothing between rounds. -/
  stateless : Bool := true
  /-- Whether the service drops solutions early. -/
  earlyPruning : Bool := false
  /-- Whether the order of joins is that of the query. -/
  forceOrder : Bool := false
deriving DecidableEq

namespace Options

/-- The JSON form; what is absent is null. -/
def json (o : Options) : Json :=
  .object [
    ("default_graph", .text o.defaultGraph),
    ("limit", Json.optional .natural o.limit),
    ("quota", Json.optional .natural o.quota),
    ("max_limit", Json.optional .natural o.maxLimit),
    ("stateless", .bool o.stateless),
    ("early_pruning", .bool o.earlyPruning),
    ("force_order", .bool o.forceOrder)]

/-- The fields in the order of writing. -/
def fields : List Field :=
  [.reads "default_graph" .text, .reads "limit" (.optional .natural),
    .reads "quota" (.optional .natural), .reads "max_limit" (.optional .natural),
    .reads "stateless" .flag, .reads "early_pruning" .flag, .reads "force_order" .flag]

/-- **The options of a document.** -/
def ofDocument : Reader Options := fun d => do
  let given ← Given.ofDocument fields d
  return {
    defaultGraph := ← given.required "default_graph" .text
    limit := ← given.possible "limit" .natural
    quota := ← given.possible "quota" .natural
    maxLimit := ← given.possible "max_limit" .natural
    stateless := ← given.required "stateless" .flag
    earlyPruning := ← given.required "early_pruning" .flag
    forceOrder := ← given.required "force_order" .flag }

end Options

end PagedTopK
