import PagedTopK.Query.Clauses
import PagedTopK.Strategy.Kind

set_option autoImplicit false

/-!
# Queries as they are sent

What a strategy sends instead of the query that it was given, and how many results are wanted.

## Main definitions

* `Query.wanted` — the number of results, configured or from the query.
* `Query.rewritten` — the query that a strategy sends.
-/

namespace PagedTopK.Query

/-- **How many results are wanted**: a configured number goes before the limit of the query, which
is then not even read. -/
def wanted (query : String) (configured : Option Nat) : Except QueryError Nat :=
  match configured with
  | some n => .ok n
  | none => do
    match ← limit? query with
    | some n => .ok n
    | none => .error .noLimit

/-- **The query that a strategy sends.** Every bound variable is asked for. A service that ranks
gets the order clause and the limit, any other neither. -/
def rewritten (kind : StrategyKind) (query : String) (n : Nat) : Except QueryError String :=
  (projectAll query).map fun all =>
    match kind with
    | .clientMerge | .collaborativeThreshold => withoutModifiers all
    | .serverComputed | .periodicRefresh _ => setLimit all n

end PagedTopK.Query
