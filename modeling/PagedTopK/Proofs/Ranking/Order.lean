import Mathlib.Tactic.Lemma
import PagedTopK.Ranking.Basic

set_option autoImplicit false

/-!
# How solutions rank under keys

The order of two solutions under a list of keys is decided by the first key whose sort values
differ. It is a total preorder, whatever the keys are: they may repeat a field, and a solution need
not bind it.

## Main definitions

* `Solution.orderBy` — the order of two solutions under a list of keys.
* `Solution.noWorse` — whether a solution ranks as good as another one or better.

## Main results

* The order is a total preorder: `Std.TransCmp (Solution.orderBy keys)`.
* `Solution.orderBy_eq_order` — it compares the lists of sort values that a ranking keeps.
-/

namespace PagedTopK

instance (d : Direction) : Std.TransCmp fun a b => d.orient (SortValue.order a b) := by
  cases d with
  | ascending => exact inferInstanceAs (Std.TransCmp SortValue.order)
  | descending =>
    have h : (fun a b => Direction.descending.orient (SortValue.order a b)) =
        fun a b => SortValue.order b a := by
      funext a b
      have hswap : SortValue.order b a = (SortValue.order a b).swap := Std.OrientedCmp.eq_swap
      exact hswap.symm
    rw [h]
    infer_instance

namespace Solution

/-- **The order of two solutions under keys**, the first key the most significant. -/
def orderBy : List RankingKey → Solution → Solution → Ordering
  | [], _, _ => .eq
  | key :: keys, s, t =>
    (key.direction.orient (SortValue.order (key.valueIn s) (key.valueIn t))).then
      (orderBy keys s t)

/-- Whether a solution ranks as good as another one or better. -/
def noWorse (keys : List RankingKey) (s t : Solution) : Bool := (orderBy keys s t).isLE

instance (keys : List RankingKey) : Std.TransCmp (orderBy keys) := by
  induction keys with
  | nil => exact { eq_swap := rfl, isLE_trans := fun _ _ => rfl }
  | cons key keys ih =>
    have h : orderBy (key :: keys) =
        compareLex (fun s t => key.direction.orient
          (SortValue.order (key.valueIn s) (key.valueIn t))) (orderBy keys) := rfl
    have hvalues : Std.TransCmp fun a b => key.direction.orient (SortValue.order a b) :=
      inferInstance
    have hkey : Std.TransCmp fun s t =>
        key.direction.orient (SortValue.order (key.valueIn s) (key.valueIn t)) :=
      { eq_swap := hvalues.eq_swap, isLE_trans := hvalues.isLE_trans }
    rw [h]
    infer_instance

/-- The order under keys is the order of the lists of sort values. -/
lemma orderBy_eq_order (keys : List RankingKey) (s t : Solution) :
    RankingKey.order (keys.map (·.direction)) (keys.map (·.valueIn s)) (keys.map (·.valueIn t)) =
      orderBy keys s t := by
  induction keys with
  | nil => rfl
  | cons key keys ih => simp only [List.map_cons, RankingKey.order, orderBy, ih]

variable {keys : List RankingKey}

lemma orderBy_swap (a b : Solution) : orderBy keys a b = (orderBy keys b a).swap :=
  Std.OrientedCmp.eq_swap

lemma noWorse_trans (a b c : Solution) (hab : noWorse keys a b) (hbc : noWorse keys b c) :
    noWorse keys a c :=
  Std.TransCmp.isLE_trans hab hbc

lemma noWorse_total (a b : Solution) : noWorse keys a b || noWorse keys b a := by
  unfold noWorse
  rw [orderBy_swap b a]
  cases orderBy keys a b <;> rfl

/-- A solution ranks no worse than another one unless that one ranks better. -/
lemma noWorse_iff {a b : Solution} : noWorse keys a b ↔ orderBy keys b a ≠ .lt := by
  unfold noWorse
  rw [orderBy_swap b a]
  cases orderBy keys a b <;> decide

/-- The order depends on the fields of the keys only. -/
lemma orderBy_congr {s s' t t' : Solution}
    (hs : ∀ key ∈ keys, key.valueIn s = key.valueIn s')
    (ht : ∀ key ∈ keys, key.valueIn t = key.valueIn t') :
    orderBy keys s t = orderBy keys s' t' := by
  rw [← orderBy_eq_order, ← orderBy_eq_order, List.map_congr_left hs, List.map_congr_left ht]

end Solution

end PagedTopK
