import PagedTopK.Query.Keyword
import PagedTopK.Query.OrderBy

set_option autoImplicit false

/-!
# Clauses of a query

A `SELECT` query is read and rewritten as text. Solution modifiers are looked for only after the
last closing brace, so those of a subquery are never touched.

## Main definitions

* `Query.tail` — the part of a query that holds its solution modifiers.
* `Query.orderConditions`, `Query.hasOrderBy` — the order clause.
* `Query.limit?`, `Query.setLimit` — the limit clause.
* `Query.withoutModifiers` — a query without its solution modifiers.
* `Query.projectAll` — a query that returns every bound variable.
-/

namespace PagedTopK.Query

/-- **Where the solution modifiers are**: the text up to the last closing brace, and the text after
it. -/
def splitTail (query : List Char) : List Char × List Char :=
  let backward := query.reverse
  ((backward.dropWhile (· ≠ '}')).reverse, (backward.takeWhile (· ≠ '}')).reverse)

/-- The text after the last closing brace. -/
def tail (query : String) : List Char := (splitTail query.toList).2

/-- The text before the first solution modifier, if there is one. -/
def beforeModifier? (text : List Char) : Option (List Char) :=
  (search modifier text).map fun found => text.take found.1

/-- **The order conditions of a query**, most significant first; none if it has no order clause. -/
def orderConditions (query : String) : Except QueryError (List OrderCondition) :=
  match search orderBy (tail query) with
  | none => .ok []
  | some (_, clause) =>
    match OrderCondition.parseAll ((beforeModifier? clause).getD clause) with
    | .ok [] => .error .noConditions
    | result => result

/-- Whether a query has an order clause, understood or not. -/
def hasOrderBy (query : String) : Bool := (search orderBy (tail query)).isSome

/-- **The limit of a query**, if it has one. -/
def limit? (query : String) : Except QueryError (Option Nat) :=
  match search limit (tail query) with
  | none => .ok none
  | some (_, digits, _) =>
    match Digits.natBelow? Digits.word64 digits with
    | some n => .ok (some n)
    | none => .error (.limitTooLarge (String.ofList digits))

/-- **Replace or add the limit clause.** The old clause is cut out where it stands; the new one
goes to the end. -/
def setLimit (query : String) (n : Nat) : String :=
  let (head, tail) := splitTail query.toList
  let without := match search limit tail with
    | none => tail
    | some (start, _, rest) => tail.take start ++ rest
  String.ofList (Text.trimEnd (head ++ Text.trimEnd without)) ++ " LIMIT " ++ Digits.text n

/-- **Drop the solution modifiers**, and the blanks before them. -/
def withoutModifiers (query : String) : String :=
  let (head, tail) := splitTail query.toList
  match beforeModifier? tail with
  | some before => String.ofList (Text.trimEnd (head ++ before))
  | none => query

/-- **Ask for every bound variable**: the projection becomes a star. -/
def projectAll (query : String) : Except QueryError String :=
  match search select query.toList with
  | none => .error .noProjection
  | some (_, body, length) =>
    let cs := query.toList
    .ok (String.ofList (cs.take (cs.length - body.length) ++ '*' :: body.drop length))

end PagedTopK.Query
