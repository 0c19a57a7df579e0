import PagedTopK.Execution.Options
import PagedTopK.Failure
import PagedTopK.Metrics
import PagedTopK.Query.Rewrite
import PagedTopK.Service.Request
import PagedTopK.Strategy.State

set_option autoImplicit false

/-!
# Executing a query

An execution sends requests, one after the other, until the service returns no token. What the
service does is given as a list of replies, one for every request; an execution that needs more of
them fails.

## Main definitions

* `Execution.rounds` — the rounds of an execution.
* `Execution.run` — an execution: what is sent, what is warned of and what comes of it.
-/

namespace PagedTopK

namespace Execution

/-- **What is worth a warning.** -/
inductive Warning where
  /-- Nothing says how to rank. -/
  | unordered
deriving DecidableEq

/-- The wording of a warning. -/
def Warning.message : Warning → String
  | unordered => "query has no ORDER BY; results follow arrival order"

/-- **The results of an execution.** -/
structure Outcome where
  /-- The solutions, best first. -/
  solutions : List Solution
  /-- What the execution has cost, apart from its own time. -/
  metrics : Metrics
deriving DecidableEq

/-- **Everything that an execution does.** -/
structure Run where
  /-- The requests, in order. -/
  requests : List Request
  /-- The warnings, in order. -/
  warnings : List Warning
  /-- What comes of it. -/
  result : Except Failure Outcome

/-- **The rounds of an execution**, from a request on: the requests that are sent, and the state at
the end with the metrics. A round counts as soon as its response has been understood. -/
def rounds (state : Strategy) (metrics : Metrics) (request : Request) :
    List Reply → List Request × Except Failure (Strategy × Metrics)
  | [] => ([request], .error (.transport .noReply))
  | .error e :: _ => ([request], .error (.transport e))
  | .ok raw :: rest =>
    match Response.parse raw with
    | .error e => ([request], .error (.protocol (.response e)))
    | .ok response =>
      let metrics := metrics.afterRound request.body.utf8ByteSize raw.utf8ByteSize response.stats
      let state := state.merge response.bindings
      match state.nextToken response.next with
      | .error e => ([request], .error (.protocol (.token e)))
      | .ok none => ([request], .ok (state, metrics))
      | .ok (some token) =>
        let later := rounds state metrics { request with next := some token } rest
        (request :: later.1, later.2)

/-- The conditions to rank by, and whether the query has any. A client that does not rank does not
look into them. -/
def ordering (kind : StrategyKind) (query : String) :
    Except QueryError (List OrderCondition × Bool) :=
  if kind.ranksOnClient then
    (Query.orderConditions query).map fun conditions => (conditions, !conditions.isEmpty)
  else .ok ([], Query.hasOrderBy query)

/-- The first request. -/
def firstRequest (kind : StrategyKind) (options : Options) (query : String) : Request where
  query := query
  defaultGraph := options.defaultGraph
  next := none
  quota := options.quota
  forceOrder := options.forceOrder
  earlyPruning := options.earlyPruning
  stateless := options.stateless
  maxLimit := options.maxLimit
  topkStrategy := kind.selector?.map Selector.text

/-- The results of a finished state. -/
def outcome (state : Strategy) (metrics : Metrics) : Outcome :=
  let solutions := state.finish
  ⟨solutions, metrics.withSolutions solutions.length⟩

/-- A run that fails before its first request. -/
def refused (warnings : List Warning) (e : QueryError) : Run :=
  ⟨[], warnings, .error (.malformedQuery e)⟩

/-- **Execute a query.** The number of results is settled first, then the order conditions, then the
query to send. -/
def run (kind : StrategyKind) (options : Options) (query : String) (replies : List Reply) : Run :=
  match Query.wanted query options.limit with
  | .error e => refused [] e
  | .ok limit =>
    match ordering kind query with
    | .error e => refused [] e
    | .ok (conditions, ordered) =>
      let warnings := if ordered then [] else [Warning.unordered]
      match Query.rewritten kind query limit with
      | .error e => refused warnings e
      | .ok text =>
        let (requests, result) :=
          rounds (.ofConditions kind limit conditions) .none (firstRequest kind options text)
            replies
        ⟨requests, warnings, result.map fun done => outcome done.1 done.2⟩

end Execution

end PagedTopK
