import PagedTopK.Proofs.Ranking.Pruning

set_option autoImplicit false

/-!
# The bound only tightens

A ranking that is offered more solutions never becomes smaller, and once it is full its bound never
becomes worse. A service that prunes by an old bound therefore prunes less than it might, but never
too much.

A bound is a solution that has lost all fields but those of the keys. A field that the worst
solution does not bind is missing in it, and one that several keys name is there once; under every
key it still has the sort value of the worst solution.

## Main definitions

* `Solution.valuesUnder` — the sort values of a solution under keys.

## Main results

* `Solution.valuesUnder_eq_iff` — solutions have the same sort values exactly if they rank the same.
* `Ranking.isSome_bound?_iff` — when there is a bound.
* `Ranking.bound_tightens` — what later offers do to the bound and to the size.
-/

namespace PagedTopK

namespace Solution

/-- **The sort values of a solution** under keys. -/
def valuesUnder (keys : List RankingKey) (s : Solution) : List SortValue :=
  keys.map (·.valueIn s)

variable {keys : List RankingKey} {s t : Solution}

lemma order_valuesUnder (keys : List RankingKey) (s t : Solution) :
    RankingKey.order (keys.map (·.direction)) (valuesUnder keys s) (valuesUnder keys t) =
      orderBy keys s t :=
  orderBy_eq_order keys s t

/-- **Solutions have the same sort values** exactly if they rank the same. -/
lemma valuesUnder_eq_iff : valuesUnder keys s = valuesUnder keys t ↔ orderBy keys s t = .eq := by
  induction keys with
  | nil => simp [valuesUnder, orderBy]
  | cons key keys ih =>
    have hkey : key.direction.orient (SortValue.order (key.valueIn s) (key.valueIn t)) = .eq ↔
        key.valueIn s = key.valueIn t := by
      have hself : SortValue.order (key.valueIn t) (key.valueIn t) = .eq :=
        Std.ReflCmp.compare_self
      constructor
      · intro h
        apply SortValue.eq_of_order_eq
        cases hd : key.direction <;> simpa [hd, Direction.orient] using h
      · intro h
        rw [h, hself]
        cases key.direction <;> rfl
    rw [orderBy, Ordering.then_eq_eq, hkey, ← ih]
    simp [valuesUnder]

/-- The fields of the keys decide the sort values. -/
lemma valuesUnder_keyFields (keys : List RankingKey) (s : Solution) :
    valuesUnder keys (Ranking.keyFields keys s) = valuesUnder keys s := by
  apply List.map_congr_left
  intro key hkey
  exact RankingKey.valueIn_congr (Ranking.get?_keyFields hkey s)

end Solution

namespace Ranking

open Solution

variable {K : Nat} {keys : List RankingKey} {ss : List Solution} {bound : Solution}

lemma size_offerAll_empty (K : Nat) (keys : List RankingKey) (ss : List Solution) :
    ((empty K keys).offerAll ss).size = min ss.length K := by
  simp [size_eq_contents, contents_offerAll, ranked, Nat.min_comm]

/-- **There is a bound** exactly if some solutions may be retained and as many have been offered. -/
lemma isSome_bound?_iff (K : Nat) (keys : List RankingKey) (ss : List Solution) :
    ((empty K keys).offerAll ss).bound?.isSome = true ↔ 0 < K ∧ K ≤ ss.length := by
  have hsize := size_offerAll_empty K keys ss
  have hcapacity : ((empty K keys).offerAll ss).capacity = K := capacity_offerAll _ ss
  rw [bound?_eq_contents, isFull, hsize, hcapacity]
  rw [size_eq_contents] at hsize
  by_cases hfull : K ≤ ss.length
  · have hlast : ((empty K keys).offerAll ss).contents.getLast?.isSome = true ↔ 0 < K := by
      rw [List.getLast?_isSome, ← List.length_pos_iff]
      omega
    simpa [hfull] using hlast
  · have hroom : ¬ K ≤ min ss.length K := by omega
    simp [hroom, hfull]

/-- **A bound stands for the worst entry**: it has the same sort values. -/
lemma exists_worst_entry (h : ((empty K keys).offerAll ss).bound? = some bound) :
    ∃ worst, ((empty K keys).offerAll ss).entries.getLast? = some worst ∧
      worst.values = valuesUnder keys bound := by
  have hkeys : ((empty K keys).offerAll ss).keys = keys := keys_offerAll _ ss
  have hsound := (sound_empty K keys).offerAll ss
  obtain ⟨-, hlast⟩ := Option.ite_none_right_eq_some.1 h
  obtain ⟨worst, hworst, rfl⟩ := Option.map_eq_some_iff.1 hlast
  refine ⟨worst, hworst, ?_⟩
  rw [hsound.values worst (List.mem_of_getLast? hworst), hkeys]
  exact (valuesUnder_keyFields keys worst.solution).symm

/-- A bound ranks no worse than one that its ranking meets. -/
lemma Meets.noWorse_bound? {r : Ranking} {old : Solution} (h : r.Meets old)
    (hbound : r.bound? = some bound) : Solution.noWorse r.keys bound old := by
  rw [bound?_eq_contents, Option.ite_none_right_eq_some, Option.map_eq_some_iff] at hbound
  obtain ⟨-, worst, hworst, rfl⟩ := hbound
  have hsame : orderBy r.keys (keyFields r.keys worst) old = orderBy r.keys worst old :=
    orderBy_congr (fun key hkey => RankingKey.valueIn_congr (get?_keyFields hkey worst))
      fun _ _ => rfl
  rw [Solution.noWorse, hsame]
  exact h.noWorse worst (List.mem_of_getLast? hworst)

/-- **The bound only tightens.** A new ranking of capacity `K` has been offered some solutions, and
then some more. It has not become smaller, and does not hold more than `K`. It had a bound to begin
with exactly if at least `K` solutions had been offered, and `K` is not zero. Such a bound has the
sort values of the worst entry; there is one afterwards too, and that ranks as good or better.

**Proof sketch.** A ranking meets its bound (`meets_of_bound?`), and a bound that is met once is met
for good (`Meets.offerAll`). So the worst of the later entries ranks no worse
(`Meets.noWorse_bound?`). The sizes are known from the numbers of offers. -/
theorem bound_tightens (K : Nat) (keys : List RankingKey) (ss more : List Solution) :
    let r := (empty K keys).offerAll ss
    let later := r.offerAll more
    r.size ≤ later.size ∧ later.size ≤ K ∧
    (r.bound?.isSome = true ↔ 0 < K ∧ K ≤ ss.length) ∧
    ∀ bound, r.bound? = some bound →
      (∃ worst, r.entries.getLast? = some worst ∧ worst.values = valuesUnder keys bound) ∧
      ∃ tighter, later.bound? = some tighter ∧
        RankingKey.order (keys.map (·.direction)) (valuesUnder keys tighter)
          (valuesUnder keys bound) ≠ .gt := by
  intro r later
  have hlater : later = (empty K keys).offerAll (ss ++ more) := (offerAll_append _ ss more).symm
  have hsize : r.size = min ss.length K := size_offerAll_empty K keys ss
  have hlaterSize : later.size = min (ss.length + more.length) K := by
    rw [hlater, size_offerAll_empty, List.length_append]
  refine ⟨by omega, by omega, isSome_bound?_iff K keys ss, ?_⟩
  intro bound hbound
  have hsome : later.bound?.isSome = true := by
    obtain ⟨hpos, hoffered⟩ := (isSome_bound?_iff K keys ss).1 (Option.isSome_of_eq_some hbound)
    rw [hlater, isSome_bound?_iff, List.length_append]
    omega
  obtain ⟨tighter, htighter⟩ := Option.isSome_iff_exists.1 hsome
  have hmeets : later.Meets bound :=
    (meets_of_bound? hbound).offerAll ((sound_empty K keys).offerAll ss) more
  have hkeys : later.keys = keys := by rw [hlater]; exact keys_offerAll _ _
  have hnoWorse := hmeets.noWorse_bound? htighter
  rw [hkeys, Solution.noWorse, Ordering.isLE_iff_ne_gt] at hnoWorse
  refine ⟨exists_worst_entry hbound, tighter, htighter, ?_⟩
  rwa [order_valuesUnder]

/-- A solution that lacks a field under a descending key is pushed out, and the bound takes up the
field. -/
example :
    let keys : List RankingKey := [⟨"x", .descending⟩]
    let r := (empty 1 keys).offerAll [Solution.ofList [("y", "1")]]
    r.bound? = some Solution.empty ∧
      (r.offer (Solution.ofList [("x", "4"), ("y", "2")])).bound? =
        some (Solution.ofList [("x", "4")]) := by
  decide +kernel

end Ranking

end PagedTopK
