import PagedTopK.Continuation
import PagedTopK.Query.OrderBy
import PagedTopK.Ranking.Basic
import PagedTopK.Strategy.Kind

set_option autoImplicit false

/-!
# What a strategy keeps between rounds

A client that ranks keeps a bounded ranking; one that does not keeps the pages as they come. A
ranking by the conditions of a query uses fields of its own, which hold the values of the conditions
and are taken away at the end. A field that the service has filled in is left as it is.

## Main definitions

* `Strategy` — the state between rounds.
* `Strategy.merge` — the state after a page of solutions.
* `Strategy.nextToken` — the token to send for a token that the service has returned.
* `Strategy.finish` — the results.
-/

namespace PagedTopK

/-- **The state of a strategy between rounds.** -/
structure Strategy where
  /-- The division of labour. -/
  kind : StrategyKind
  /-- The best solutions so far, for a client that ranks. -/
  ranking : Ranking
  /-- The conditions whose values the keys of the ranking stand for; none if the keys name fields of
  the solutions. -/
  conditions : List OrderCondition
  /-- The solutions so far, for a client that does not rank. -/
  pages : List Solution
deriving DecidableEq

namespace Strategy

/-- The state before the first round, with keys that name fields of the solutions. -/
def ofKeys (kind : StrategyKind) (limit : Nat) (keys : List RankingKey) : Strategy :=
  ⟨kind, .empty limit keys, [], []⟩

/-- The keys of conditions, numbered in order. -/
def keysOf (conditions : List OrderCondition) : List RankingKey :=
  conditions.mapIdx fun i c => .synthetic i c.direction

/-- **The state before the first round**, ranking by the conditions of a query. -/
def ofConditions (kind : StrategyKind) (limit : Nat) (conditions : List OrderCondition) :
    Strategy :=
  ⟨kind, .empty limit (keysOf conditions), conditions, []⟩

/-- Fill in the value of a condition under a name, unless the name is bound or the condition has no
value. -/
def fill (s : Solution) (condition : OrderCondition) (name : String) : Solution :=
  if s.contains name then s
  else
    match condition.eval? s with
    | some value => s.insert name value
    | none => s

/-- **A solution with the values of all conditions** in the fields of their keys. -/
def keyed (conditions : List OrderCondition) (keys : List RankingKey) (s : Solution) : Solution :=
  (conditions.zip keys).foldl (fun s ck => fill s ck.1 ck.2.name) s

/-- **The state after a page of solutions.** -/
def merge (state : Strategy) (bindings : List Solution) : Strategy :=
  if state.kind.ranksOnClient then
    { state with
      ranking := state.ranking.offerAll (bindings.map (keyed state.conditions state.ranking.keys)) }
  else { state with pages := state.pages ++ bindings }

/-- **The token to send** for a returned one. A strategy that sends its bound puts it into the token
as soon as there is one; otherwise the token goes back as it came. -/
def nextToken (state : Strategy) : Option String → Except TokenError (Option String)
  | none => .ok none
  | some token =>
    if state.kind.pushesThreshold then
      match state.ranking.bound? with
      | some bound => (Continuation.withThreshold token bound).map some
      | none => .ok (some token)
    else .ok (some token)

/-- **A solution as it is returned**: without the fields of conditions, and with plain literals out
of their quotes. -/
def presented (s : Solution) : Solution :=
  (s.filterNames fun name => !RankingKey.isSyntheticName name).mapTerms Term.unquoted

/-- **The results**: what is ranked best, or all pages. -/
def finish (state : Strategy) : List Solution :=
  (if state.kind.ranksOnClient then state.ranking.solutions else state.pages).map presented

end Strategy

end PagedTopK
