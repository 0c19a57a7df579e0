import PagedTopK.Solution
import PagedTopK.Text.Digits
import PagedTopK.Term.SortValue

set_option autoImplicit false

/-!
# Ranking keys

A ranking key names a field of solutions and the direction in which it ranks them. The keys of a
ranking are compared one after the other.

Fields that hold the value of an order condition, rather than something that the query binds, carry
names of their own: a fixed beginning and the number of the condition.

## Main definitions

* `Direction` — ascending or descending.
* `RankingKey` — a field and a direction.
* `RankingKey.synthetic` — the key of the order condition with a given number.
* `RankingKey.order` — how the keys of a ranking compare two lists of sort values.
-/

namespace PagedTopK

/-- **The direction of an order.** -/
inductive Direction where
  /-- Smaller values come first. -/
  | ascending
  /-- Greater values come first. -/
  | descending
deriving DecidableEq, Inhabited

namespace Direction

/-- The keyword of a direction. -/
def name : Direction → String
  | ascending => "ASC"
  | descending => "DESC"

/-- **The direction that a keyword names**, in ASCII letters of either case. -/
def ofName? (keyword : String) : Option Direction :=
  match keyword.toList.map Char.toUpper with
  | ['A', 'S', 'C'] => some ascending
  | ['D', 'E', 'S', 'C'] => some descending
  | _ => none

/-- The comparison of two values, turned round for a descending order. -/
def orient : Direction → Ordering → Ordering
  | ascending, o => o
  | descending, o => o.swap

end Direction

/-- **A ranking key**: the name of a field and the direction in which it ranks. -/
structure RankingKey where
  /-- The field. -/
  name : String
  /-- The direction. -/
  direction : Direction
deriving DecidableEq

namespace RankingKey

/-- How the names of synthetic fields begin. -/
def syntheticStart : String := "__order_condition_"

/-- Whether a field holds the value of an order condition. -/
def isSyntheticName (name : String) : Bool :=
  syntheticStart.toList.isPrefixOf name.toList

/-- **The key of an order condition**, by the number of the condition. -/
def synthetic (index : Nat) (direction : Direction) : RankingKey :=
  ⟨syntheticStart ++ Digits.text index, direction⟩

/-- Whether a key is the key of an order condition. -/
def isSynthetic (key : RankingKey) : Bool := isSyntheticName key.name

/-- The sort value of a solution under a key. -/
def valueIn (key : RankingKey) (s : Solution) : SortValue :=
  SortValue.ofTerm (s.get? key.name)

/-- **The order of two lists of sort values** under a list of directions, the first the most
significant. -/
def order : List Direction → List SortValue → List SortValue → Ordering
  | d :: ds, a :: as, b :: bs => (d.orient (SortValue.order a b)).then (order ds as bs)
  | _, _, _ => .eq

theorem isSynthetic_synthetic (index : Nat) (direction : Direction) :
    (synthetic index direction).isSynthetic = true := by
  simp [isSynthetic, isSyntheticName, synthetic, String.toList_append]

end RankingKey

end PagedTopK
