import PagedTopK.Proofs.Ranking.Bound

set_option autoImplicit false

/-!
# The order of offers counts for ties only

The same solutions may be offered in any order. The ranking then shows the same sort values from the
best to the worst; which of several solutions with the same sort values stands in a place, or has
just been dropped, depends on which came first.

## Main results

* `Solution.map_valuesUnder_ranked` — the sort values in a stable sort do not depend on the order
  before it.
* `Ranking.offerAll_perm` — two orders of the same offers.
-/

namespace PagedTopK

/-- Lists that agree under a map agree if the map tells their elements apart. -/
lemma eq_of_map_eq_map {α β : Type} {f : α → β} {l l' : List α} (h : l.map f = l'.map f)
    (hf : ∀ a ∈ l, ∀ b ∈ l', f b = f a → b = a) : l = l' := by
  have hlength : l.length = l'.length := by simpa using congrArg List.length h
  apply List.ext_getElem hlength
  intro i hi hi'
  have hvalue : f l'[i] = f l[i] := by
    have hget := List.getElem_of_eq h (by simpa using hi)
    simpa using hget.symm
  exact (hf _ (List.getElem_mem hi) _ (List.getElem_mem hi') hvalue).symm

namespace Solution

variable {keys : List RankingKey} {ss ts : List Solution}

/-- **The sort values in a stable sort** do not depend on the order before it.

**Proof sketch.** In either sort the sort values are in order, and they are the same values. Values
that rank the same are equal (`valuesUnder_eq_iff`), so there is only one way to put them in
order. -/
theorem map_valuesUnder_ranked (h : ss.Perm ts) :
    (ranked keys ss).map (valuesUnder keys) = (ranked keys ts).map (valuesUnder keys) := by
  have hsorted : ∀ l, ((ranked keys l).map (valuesUnder keys)).Pairwise fun a b =>
      (RankingKey.order (keys.map (·.direction)) a b).isLE = true := by
    intro l
    rw [List.pairwise_map]
    simp only [order_valuesUnder]
    exact List.pairwise_mergeSort noWorse_trans noWorse_total l
  have hperm : (ranked keys ss).Perm (ranked keys ts) :=
    (List.mergeSort_perm ss _).trans (h.trans (List.mergeSort_perm ts _).symm)
  apply List.Perm.eq_of_pairwise _ (hsorted ss) (hsorted ts) (hperm.map _)
  intro a b ha hb hab hba
  obtain ⟨s, -, rfl⟩ := List.mem_map.1 ha
  obtain ⟨t, -, rfl⟩ := List.mem_map.1 hb
  rw [order_valuesUnder] at hab hba
  rw [orderBy_swap, Ordering.isLE_swap] at hba
  rw [valuesUnder_eq_iff]
  cases ho : orderBy keys s t with
  | eq => rfl
  | lt => simp [ho] at hba
  | gt => simp [ho] at hab

end Solution

namespace Ranking

open Solution

/-- Entries hold the sort values of their solutions. -/
lemma map_values_entries {r : Ranking} (hr : r.Sound) :
    r.entries.map (·.values) = r.contents.map (valuesUnder r.keys) := by
  rw [contents, List.map_map]
  exact List.map_congr_left fun e he => hr.values e he

/-- The sort values in a bound are the last of the retained ones. -/
lemma map_valuesUnder_bound? (r : Ranking) :
    r.bound?.map (valuesUnder r.keys) =
      if r.isFull then (r.contents.map (valuesUnder r.keys)).getLast? else none := by
  rw [bound?_eq_contents]
  split
  · rw [Option.map_map, List.getLast?_map]
    congr 1
    funext s
    exact valuesUnder_keyFields r.keys s
  · rfl

/-- **Two orders of the same offers.** The retained solutions have the same sort values, from the
best to the worst, and there are as many of them; the bounds have the same sort values, or there is
none. If every solution that is among the best `K` differs in its sort values from all other
solutions offered, then the results are the same too.

**Proof sketch.** What is retained are the first of the stable sorts (`contents_offerAll`), whose
sort values agree (`map_valuesUnder_ranked`). Size and bound are read off these. Where the sort
values tell a retained solution apart from all others, they determine the solution. -/
theorem offerAll_perm (K : Nat) (keys : List RankingKey) {ss ts : List Solution}
    (h : ss.Perm ts) :
    let r := (empty K keys).offerAll ss
    let r' := (empty K keys).offerAll ts
    r.entries.map (·.values) = r'.entries.map (·.values) ∧
    r.size = r'.size ∧
    r.bound?.map (valuesUnder keys) = r'.bound?.map (valuesUnder keys) ∧
    ((∀ s ∈ (ranked keys ss).take K, ∀ t ∈ ss, t ≠ s → valuesUnder keys t ≠ valuesUnder keys s) →
      r.solutions = r'.solutions) := by
  intro r r'
  have hkeys : r.keys = keys := keys_offerAll _ ss
  have hkeys' : r'.keys = keys := keys_offerAll _ ts
  have hcontents : r.contents = (ranked keys ss).take K := contents_offerAll K keys ss
  have hcontents' : r'.contents = (ranked keys ts).take K := contents_offerAll K keys ts
  have hvalues : r.contents.map (valuesUnder keys) = r'.contents.map (valuesUnder keys) := by
    rw [hcontents, hcontents', List.map_take, List.map_take, map_valuesUnder_ranked h]
  have hsize : r.size = r'.size := by
    rw [size_offerAll_empty, size_offerAll_empty, h.length_eq]
  refine ⟨?_, hsize, ?_, ?_⟩
  · rw [map_values_entries ((sound_empty K keys).offerAll ss),
      map_values_entries ((sound_empty K keys).offerAll ts), hkeys, hkeys', hvalues]
  · have hbound := map_valuesUnder_bound? r
    have hbound' := map_valuesUnder_bound? r'
    have hfull : r.isFull = r'.isFull := by
      rw [isFull, isFull, hsize, capacity_offerAll, capacity_offerAll]
    rw [hkeys] at hbound
    rw [hkeys'] at hbound'
    rw [hbound, hbound', hfull, hvalues]
  · intro hdistinct
    have hsame : r.contents = r'.contents := by
      apply eq_of_map_eq_map hvalues
      intro s hs t ht hst
      have htss : t ∈ ss := by
        rw [hcontents'] at ht
        exact h.mem_iff.2 (List.mem_mergeSort.1 (List.mem_of_mem_take ht))
      rw [hcontents] at hs
      by_contra hne
      exact hdistinct s hs t htss hne hst
    rw [solutions_eq_contents, solutions_eq_contents, hsame, hkeys, hkeys']

/-- The best two of four rows, one of which lacks the field, are found in either order, although the
other two are tied. -/
theorem offerAll_perm_of_four_rows :
    let row := fun x : String => Solution.ofList [("x", x)]
    let keys : List RankingKey := [⟨"x", .ascending⟩]
    let ss := [row "5", Solution.empty, row "5.0", row "2"]
    let ts := [row "2", row "5.0", row "5", Solution.empty]
    let r := (empty 2 keys).offerAll ss
    let r' := (empty 2 keys).offerAll ts
    ss.Perm ts ∧
    (∀ s ∈ (ranked keys ss).take 2, ∀ t ∈ ss, t ≠ s → valuesUnder keys t ≠ valuesUnder keys s) ∧
    r.size = r'.size ∧
    r.bound?.map (valuesUnder keys) = r'.bound?.map (valuesUnder keys) ∧
    r.solutions = r'.solutions := by
  intro row keys ss ts r r'
  have hperm : ss.Perm ts := by decide +kernel
  have hdistinct : ∀ s ∈ (ranked keys ss).take 2, ∀ t ∈ ss, t ≠ s →
      valuesUnder keys t ≠ valuesUnder keys s := by
    rw [← contents_offerAll]
    decide +kernel
  obtain ⟨-, hsize, hbound, hsolutions⟩ := offerAll_perm 2 keys hperm
  exact ⟨hperm, hdistinct, hsize, hbound, hsolutions hdistinct⟩

end Ranking

end PagedTopK
