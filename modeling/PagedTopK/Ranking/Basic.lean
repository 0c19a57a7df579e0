import PagedTopK.Ranking.Key

set_option autoImplicit false

/-!
# Bounded rankings

A ranking holds the best solutions it has been offered, up to a fixed number, best first. Solutions
that agree on every key rank in the order of their arrival. A new solution goes behind all that
rank as good or better, and what then stands past the capacity is dropped.

## Main definitions

* `Ranking` — capacity, keys and the retained entries.
* `Ranking.offer` — a ranking after one more solution; `Ranking.retains` — whether it stays in.
* `Ranking.bound?` — the key fields of the worst retained solution of a full ranking.
* `Ranking.solutions` — the retained solutions, best first, without synthetic fields.
-/

namespace PagedTopK

/-- **A ranked solution**, with its sort values and the number of solutions offered before it. -/
structure Ranked where
  /-- The sort value under each key. -/
  values : List SortValue
  /-- How many solutions were offered earlier. -/
  arrival : Nat
  /-- The solution itself. -/
  solution : Solution
deriving DecidableEq

/-- The order of entries under a list of directions: by their values, then by arrival. -/
def Ranked.order (directions : List Direction) (a b : Ranked) : Ordering :=
  (RankingKey.order directions a.values b.values).then (compare a.arrival b.arrival)

/-- **The best solutions seen so far.** -/
structure Ranking where
  /-- How many solutions may be retained. -/
  capacity : Nat
  /-- The keys, most significant first. -/
  keys : List RankingKey
  /-- The retained entries, best first. -/
  entries : List Ranked
  /-- How many solutions have been offered. -/
  arrivals : Nat
deriving DecidableEq

namespace Ranking

/-- The ranking that has seen nothing. -/
def empty (capacity : Nat) (keys : List RankingKey) : Ranking :=
  ⟨capacity, keys, [], 0⟩

/-- How many solutions are retained. -/
def size (r : Ranking) : Nat := r.entries.length

/-- Whether as many solutions are retained as may be. -/
def isFull (r : Ranking) : Bool := r.capacity ≤ r.size

/-- The directions of the keys. -/
def directions (r : Ranking) : List Direction := r.keys.map (·.direction)

/-- The entry that a solution would get if it were offered next. -/
def entryOf (r : Ranking) (s : Solution) : Ranked :=
  ⟨r.keys.map (·.valueIn s), r.arrivals, s⟩

/-- The retained entries that rank no worse than an entry. -/
def notWorse (r : Ranking) (e : Ranked) : List Ranked :=
  r.entries.takeWhile fun x => Ranked.order r.directions e x ≠ .lt

/-- **Offer a solution**: it goes behind all entries that rank no worse, and the entries past the
capacity are dropped. -/
def offer (r : Ranking) (s : Solution) : Ranking :=
  let e := r.entryOf s
  let better := r.notWorse e
  { r with
    entries := (better ++ e :: r.entries.drop better.length).take r.capacity
    arrivals := r.arrivals + 1 }

/-- **Whether an offered solution would be retained**: fewer entries than the capacity rank no
worse. -/
def retains (r : Ranking) (s : Solution) : Bool :=
  (r.notWorse (r.entryOf s)).length < r.capacity

/-- Offer solutions one after the other. -/
def offerAll (r : Ranking) (ss : List Solution) : Ranking := ss.foldl offer r

/-- **The bound of a full ranking**: the key fields that the worst retained solution binds. A
ranking with room left has none, since any solution could still enter. -/
def bound? (r : Ranking) : Option Solution :=
  if r.isFull then
    r.entries.getLast?.map fun worst =>
      worst.solution.filterNames fun name => r.keys.any (·.name == name)
  else none

/-- **The retained solutions**, best first, without the fields of synthetic keys. -/
def solutions (r : Ranking) : List Solution :=
  r.entries.map fun e =>
    e.solution.filterNames fun name => !(r.keys.any fun key => key.isSynthetic && key.name == name)

/-- No more solutions are retained than may be. -/
theorem size_offer_le (r : Ranking) (s : Solution) : (r.offer s).size ≤ r.capacity := by
  simp only [size, offer, List.length_take]
  exact Nat.min_le_left _ _

end Ranking

end PagedTopK
