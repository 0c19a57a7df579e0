import PagedTopK.Strategy.Selector

set_option autoImplicit false

/-!
# Strategies

How the work of ranking is divided between the client and the service.

## Main definitions

* `StrategyKind` — the four strategies.
* `StrategyKind.names` — the names under which they can be asked for, short ones included.
* `StrategyKind.ofName` — the strategy with a name and, where it takes one, a refresh rate.
* `StrategyKind.selector?` — the ranking operator that its requests ask for.
-/

namespace PagedTopK

/-- **A division of labour between client and service.** -/
inductive StrategyKind where
  /-- The service streams, the client ranks. -/
  | clientMerge
  /-- The service ranks, the client joins the pages. -/
  | serverComputed
  /-- The client ranks and sends its bound for the service to prune by. -/
  | collaborativeThreshold
  /-- Both rank; the bound is sent along and refreshed at a rate. -/
  | periodicRefresh (rate : Binary64)
deriving DecidableEq

namespace StrategyKind

/-- **The accepted names**, proper names first. -/
def names : List String :=
  ["client-merge", "server-computed", "collaborative-threshold", "periodic-refresh",
    "sage", "sage-topk", "sage-partial-topk", "sage-topk-collab"]

/-- The proper name of a strategy. -/
def name : StrategyKind → String
  | clientMerge => "client-merge"
  | serverComputed => "server-computed"
  | collaborativeThreshold => "collaborative-threshold"
  | periodicRefresh _ => "periodic-refresh"

/-- The strategy that a name stands for; the rate counts only for a strategy that takes one. -/
def named? (name : String) (rate : Binary64) : Option StrategyKind :=
  if name = "client-merge" ∨ name = "sage" then some clientMerge
  else if name = "server-computed" ∨ name = "sage-topk" then some serverComputed
  else if name = "collaborative-threshold" ∨ name = "sage-partial-topk" then
    some collaborativeThreshold
  else if name = "periodic-refresh" ∨ name = "sage-topk-collab" then some (periodicRefresh rate)
  else none

/-- **The strategy with a name and an optional refresh rate.** A missing rate is zero where one is
taken; elsewhere a given rate is refused. -/
def ofName (name : String) (rate? : Option Binary64) : Except ConfigurationError StrategyKind :=
  match named? name (rate?.getD .zero) with
  | none => .error (.unknownStrategy name names)
  | some (periodicRefresh rate) =>
    if rate.isRate then .ok (periodicRefresh rate) else .error (.badRefreshRate rate)
  | some kind => if rate?.isSome then .error (.needlessRefreshRate name) else .ok kind

/-- **The ranking operator that requests ask for**; none when the service does not rank. -/
def selector? : StrategyKind → Option Selector
  | clientMerge => none
  | serverComputed => some .server
  | collaborativeThreshold => some .partialRanking
  | periodicRefresh rate => some (.shared rate)

/-- Whether the client ranks what it receives. -/
def ranksOnClient : StrategyKind → Bool
  | serverComputed => false
  | _ => true

/-- Whether the bound of the client's ranking is sent to the service. -/
def pushesThreshold : StrategyKind → Bool
  | collaborativeThreshold | periodicRefresh _ => true
  | _ => false

/-- Only a client that ranks has a bound to send. -/
theorem ranksOnClient_of_pushesThreshold {kind : StrategyKind}
    (h : kind.pushesThreshold = true) : kind.ranksOnClient = true := by
  cases kind <;> simp_all [pushesThreshold, ranksOnClient]

end StrategyKind

end PagedTopK
