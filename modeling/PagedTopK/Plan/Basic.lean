import PagedTopK.Json.Basic

set_option autoImplicit false

/-!
# Plans

A plan is the tree of operators of a suspended execution. An operator that wraps another one has a
single source. Below the wrappers stands a ranking operator, which keeps a threshold, and below that
whatever feeds it. All other fields of an operator are carried along as they are.

## Main definitions

* `Operator` — the kinds of operators.
* `PlanNode`, `Plan` — an operator with what is below it, and a plan with its other fields.
* `PlanNode.setThreshold` — a plan in which the outermost ranking operator has been given
  threshold values.
* `PlanNode.threshold` — the threshold of the outermost ranking operator.
-/

namespace PagedTopK

/-- The fields of an operator that are carried along. -/
abbrev Members := List (String × Json)

/-- **Operators with a single source.** -/
inductive WrapperKind where
  /-- Chooses variables. -/
  | projection
  /-- Drops solutions. -/
  | filter
  /-- Computes a variable. -/
  | bind
  /-- Cuts off solutions. -/
  | limit
deriving DecidableEq

/-- **Operators that rank.** -/
inductive RankingKind where
  /-- Ranks alone. -/
  | topK
  /-- Prunes by a threshold. -/
  | partialTopK
deriving DecidableEq

/-- **Operators that are not looked into.** -/
inductive LeafKind where
  /-- Reads triples. -/
  | scan
  /-- Joins by an index. -/
  | indexJoin
  /-- Joins alternatives. -/
  | union
deriving DecidableEq

/-- **The kind of an operator.** -/
inductive Operator where
  /-- An operator with a single source. -/
  | wrapper (kind : WrapperKind)
  /-- An operator that ranks. -/
  | ranking (kind : RankingKind)
  /-- An operator that is not looked into. -/
  | leaf (kind : LeafKind)
deriving DecidableEq

namespace Operator

/-- All operators, in their fixed order. -/
def all : List Operator :=
  [wrapper .projection, wrapper .filter, wrapper .bind, wrapper .limit, ranking .topK,
    ranking .partialTopK, leaf .scan, leaf .indexJoin, leaf .union]

/-- The name of an operator. -/
def name : Operator → String
  | wrapper .projection => "projection"
  | wrapper .filter => "filter"
  | wrapper .bind => "bind"
  | wrapper .limit => "limit"
  | ranking .topK => "top_k"
  | ranking .partialTopK => "partial_top_k"
  | leaf .scan => "scan"
  | leaf .indexJoin => "index_join"
  | leaf .union => "union"

/-- The names of all operators. -/
def names : List String := all.map name

/-- The operator with a name. -/
def ofName? (n : String) : Option Operator := all.find? fun op => op.name == n

theorem ofName?_name (op : Operator) : ofName? op.name = some op := by
  rcases op with k | k | k <;> cases k <;> decide

end Operator

/-- **An operator and what is below it.** -/
inductive PlanNode where
  /-- An operator with a single source. -/
  | wrapper (kind : WrapperKind) (source : PlanNode) (fields : Members)
  /-- A ranking operator with its threshold. -/
  | ranking (kind : RankingKind) (threshold : Members) (source : Option PlanNode) (fields : Members)
  /-- An operator that is not looked into. -/
  | leaf (kind : LeafKind) (fields : Members)

/-- **A plan**: its outermost operator and the fields beside it. -/
structure Plan where
  /-- The outermost operator. -/
  root : PlanNode
  /-- The fields beside it. -/
  extra : Members

namespace PlanNode

/-- The kind of the outermost operator. -/
def operator : PlanNode → Operator
  | wrapper kind _ _ => .wrapper kind
  | ranking kind _ _ _ => .ranking kind
  | leaf kind _ => .leaf kind

/-- **The operators from the outermost one down the sources.** -/
def chain : PlanNode → List Operator
  | wrapper kind source _ => .wrapper kind :: source.chain
  | ranking kind _ none _ => [.ranking kind]
  | ranking kind _ (some source) _ => .ranking kind :: source.chain
  | leaf kind _ => [.leaf kind]

/-- Equality that ignores the order of fields. -/
def same : PlanNode → PlanNode → Bool
  | wrapper k s f, wrapper k' s' f' => k == k' && same s s' && Json.same (.object f) (.object f')
  | ranking k t none f, ranking k' t' none f' =>
    k == k' && Json.same (.object t) (.object t') && Json.same (.object f) (.object f')
  | ranking k t (some s) f, ranking k' t' (some s') f' =>
    k == k' && Json.same (.object t) (.object t') && same s s' &&
      Json.same (.object f) (.object f')
  | leaf k f, leaf k' f' => k == k' && Json.same (.object f) (.object f')
  | _, _ => false

/-- **The threshold of the outermost ranking operator**, or the operator that stands below the
wrappers in its place. -/
def threshold : PlanNode → Except Operator Members
  | wrapper _ source _ => source.threshold
  | ranking _ t _ _ => .ok t
  | leaf kind _ => .error (.leaf kind)

/-- Give threshold values by name; values of other names stay as they are. -/
def withValues (threshold : Members) (values : List (String × String)) : Members :=
  values.foldl (fun t v => Json.setMember v.1 (.text v.2) t) threshold

/-- **Give the outermost ranking operator threshold values**, by name. -/
def setThreshold (values : List (String × String)) : PlanNode → Except Operator PlanNode
  | wrapper kind source fields => (source.setThreshold values).map fun s => wrapper kind s fields
  | ranking kind t source fields =>
    .ok (ranking kind (withValues t values) source fields)
  | leaf kind _ => .error (.leaf kind)

end PlanNode

/-- Equality of plans that ignores the order of fields. -/
def Plan.same (a b : Plan) : Bool :=
  a.root.same b.root && Json.same (.object a.extra) (.object b.extra)

end PagedTopK
