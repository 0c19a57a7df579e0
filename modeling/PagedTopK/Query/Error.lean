set_option autoImplicit false

/-!
# Malformed queries

Why the clauses of a query cannot be read.

## Main definitions

* `QueryError` — the causes.
* `QueryError.message` — their wording.
-/

namespace PagedTopK

/-- **Why a query is refused.** -/
inductive QueryError where
  /-- `ORDER BY` is followed by nothing. -/
  | noConditions
  /-- What stands in the order clause is neither a variable nor a group in parentheses. -/
  | unexpectedToken (near : String)
  /-- A group in the order clause is not closed. -/
  | unbalanced
  /-- The expression of an order condition is not supported. -/
  | unsupported (expression : String)
  /-- The limit does not fit in 64 bits. -/
  | limitTooLarge (digits : String)
  /-- No projection is found. -/
  | noProjection
  /-- Neither the query nor the configuration limits the number of results. -/
  | noLimit
deriving DecidableEq

/-- The wording of a cause. -/
def QueryError.message : QueryError → String
  | noConditions => "ORDER BY clause has no conditions"
  | unexpectedToken near => "unexpected token in ORDER BY clause near `" ++ near ++ "`"
  | unbalanced => "unbalanced parentheses in ORDER BY clause"
  | unsupported expression => "unsupported ORDER BY expression `" ++ expression ++ "`"
  | limitTooLarge digits =>
    "invalid LIMIT `" ++ digits ++ "`: number too large to fit in target type"
  | noProjection => "no SELECT clause found"
  | noLimit => "no LIMIT in the query and none configured"

end PagedTopK
