import Mathlib.Data.List.TakeWhile
import PagedTopK.Proofs.Ranking.Best

set_option autoImplicit false

/-!
# Pruning by the bound loses nothing

A service that knows the bound of a ranking may leave out what ranks no better. The client then
offers fewer solutions, so arrivals are numbered differently from there on; what it retains is the
same after every round.

## Main definitions

* `Ranking.afterRounds` — the ranking after a number of rounds.
* `Ranking.Superfluous` — what a service that has learnt some earlier bound may leave out.
* `Ranking.IsPruning` — rounds that differ from others by leaving out what is superfluous.
* `Ranking.Alike` — rankings that differ in the numbers of arrivals only.
* `Ranking.Meets` — the invariant of a full ranking: nothing in it ranks worse than a bound.

## Main results

* `Ranking.Meets.offer` — a bound that has been met once is met for good.
* `Ranking.pruning_keeps_results` — pruned rounds lead to the same results, bounds and sizes.
-/

namespace PagedTopK

/-- **A list without some of its elements**: those left out pass a test. -/
inductive Thinned {α : Type} (p : α → Prop) : List α → List α → Prop where
  /-- There is nothing to leave out. -/
  | nil : Thinned p [] []
  /-- An element stays. -/
  | keep (a : α) {l l' : List α} : Thinned p l l' → Thinned p (a :: l) (a :: l')
  /-- An element that passes the test is left out. -/
  | drop {a : α} {l l' : List α} : p a → Thinned p l l' → Thinned p (a :: l) l'

namespace Ranking

open Solution

/-! ## Rounds and their pruning -/

/-- **The ranking after a number of rounds**, each of them a list of solutions. -/
def afterRounds (K : Nat) (keys : List RankingKey) (rounds : List (List Solution)) (i : Nat) :
    Ranking :=
  (rounds.take i).foldl offerAll (empty K keys)

/-- **What may be left out of a round**: a solution that ranks no better than the bound after some
number of earlier rounds. The bound is that of either run, as the service has got it: fields that it
does not have count as unbound. -/
def Superfluous (K : Nat) (keys : List RankingKey) (rounds pruned : List (List Solution)) (i : Nat)
    (s : Solution) : Prop :=
  ∃ j ≤ i, ∃ bound : Solution,
    ((afterRounds K keys rounds j).bound? = some bound ∨
      (afterRounds K keys pruned j).bound? = some bound) ∧
    orderBy keys s bound ≠ .lt

/-- **Rounds that leave out superfluous solutions.** -/
structure IsPruning (K : Nat) (keys : List RankingKey) (rounds pruned : List (List Solution)) :
    Prop where
  /-- There are as many rounds. -/
  length : pruned.length = rounds.length
  /-- What is missing in a round is superfluous there. -/
  thinned : ∀ (i : Nat) (hi : i < rounds.length) (hi' : i < pruned.length),
    Thinned (Superfluous K keys rounds pruned i) rounds[i] pruned[i]

lemma afterRounds_eq (K : Nat) (keys : List RankingKey) (rounds : List (List Solution)) (i : Nat) :
    afterRounds K keys rounds i = (empty K keys).offerAll (rounds.take i).flatten := by
  unfold afterRounds offerAll
  rw [List.foldl_flatten]

lemma afterRounds_succ (K : Nat) (keys : List RankingKey) {rounds : List (List Solution)} {i : Nat}
    (hi : i < rounds.length) :
    afterRounds K keys rounds (i + 1) = (afterRounds K keys rounds i).offerAll rounds[i] := by
  unfold afterRounds
  rw [List.take_succ_eq_append_getElem hi, List.foldl_append]
  rfl

/-- There is nothing to come after the last round. -/
lemma afterRounds_succ_of_length_le (K : Nat) (keys : List RankingKey)
    {rounds : List (List Solution)} {i : Nat} (hi : rounds.length ≤ i) :
    afterRounds K keys rounds (i + 1) = afterRounds K keys rounds i := by
  unfold afterRounds
  rw [List.take_of_length_le hi, List.take_of_length_le (by omega)]

/-- Later rounds are further offers. -/
lemma afterRounds_of_le (K : Nat) (keys : List RankingKey) (rounds : List (List Solution))
    {j i : Nat} (h : j ≤ i) :
    ∃ ss, afterRounds K keys rounds i = (afterRounds K keys rounds j).offerAll ss := by
  obtain ⟨n, rfl⟩ := Nat.exists_eq_add_of_le h
  refine ⟨((rounds.drop j).take n).flatten, ?_⟩
  rw [afterRounds_eq, afterRounds_eq, ← offerAll_append, ← List.flatten_append, List.take_add]

/-! ## What the retained solutions decide -/

/-- **A solution cut down to the fields of the keys.** -/
def keyFields (keys : List RankingKey) (s : Solution) : Solution :=
  s.filterNames fun name => keys.any (·.name == name)

lemma get?_keyFields {keys : List RankingKey} {key : RankingKey} (h : key ∈ keys) (s : Solution) :
    (keyFields keys s).get? key.name = s.get? key.name := by
  have hany : keys.any (·.name == key.name) = true :=
    List.any_eq_true.2 ⟨key, h, beq_self_eq_true _⟩
  rw [keyFields, get?_filterNames, if_pos hany]

/-- **Rankings that differ in the numbers of arrivals only.** -/
structure Alike (r r' : Ranking) : Prop where
  /-- They rank by the same keys. -/
  keys : r.keys = r'.keys
  /-- They have the same capacity. -/
  capacity : r.capacity = r'.capacity
  /-- They retain the same solutions in the same order. -/
  contents : r.contents = r'.contents

lemma size_eq_contents (r : Ranking) : r.size = r.contents.length := by
  simp [size, contents]

lemma solutions_eq_contents (r : Ranking) :
    r.solutions = r.contents.map (·.filterNames fun name =>
      !(r.keys.any fun key => key.isSynthetic && key.name == name)) := by
  simp [solutions, contents]

lemma bound?_eq_contents (r : Ranking) :
    r.bound? = if r.isFull then r.contents.getLast?.map (keyFields r.keys) else none := by
  unfold bound? contents
  rw [List.getLast?_map, Option.map_map]
  rfl

lemma Alike.size {r r' : Ranking} (h : Alike r r') : r.size = r'.size := by
  rw [size_eq_contents, size_eq_contents, h.contents]

lemma Alike.solutions {r r' : Ranking} (h : Alike r r') : r.solutions = r'.solutions := by
  rw [solutions_eq_contents, solutions_eq_contents, h.contents, h.keys]

lemma Alike.bound? {r r' : Ranking} (h : Alike r r') : r.bound? = r'.bound? := by
  rw [bound?_eq_contents, bound?_eq_contents, isFull, isFull, h.size, h.capacity, h.contents,
    h.keys]

/-- The retained solutions after an offer depend on those before it only. -/
lemma contents_offer {r : Ranking} (hr : r.Sound) (s : Solution) :
    (r.offer s).contents = (insertBehind (noWorse r.keys) s r.contents).take r.capacity := by
  rw [← map_fst_log, log_offer hr, List.map_take, ← map_fst_log]
  congr 1
  exact map_insertBehind fun _ _ => rfl

lemma Alike.offer {r r' : Ranking} (h : Alike r r') (hr : r.Sound) (hr' : r'.Sound)
    (s : Solution) : Alike (r.offer s) (r'.offer s) := by
  refine ⟨h.keys, h.capacity, ?_⟩
  rw [contents_offer hr, contents_offer hr', h.contents, h.keys, h.capacity]

/-! ## Bounds -/

/-- **A full ranking meets a bound** if nothing in it ranks worse. -/
structure Meets (r : Ranking) (bound : Solution) : Prop where
  /-- There is no room left. -/
  full : r.capacity ≤ r.size
  /-- Nothing ranks worse than the bound. -/
  noWorse : ∀ s ∈ r.contents, Solution.noWorse r.keys s bound

/-- What ranks no better than a bound that is met is not retained. -/
lemma Meets.contents_offer {r : Ranking} {bound s : Solution} (h : r.Meets bound) (hr : r.Sound)
    (hs : Solution.noWorse r.keys bound s) : (r.offer s).contents = r.contents := by
  have hall : ∀ t ∈ r.contents, Solution.noWorse r.keys t s := fun t ht =>
    noWorse_trans _ _ _ (h.noWorse t ht) hs
  have htake : r.contents.takeWhile (Solution.noWorse r.keys · s) = r.contents :=
    List.takeWhile_eq_self_iff.2 hall
  have hsize := size_eq_contents r
  rw [Ranking.contents_offer hr]
  refine take_insertBehind_of_le ?_ ?_
  · rw [← hsize]
    exact hr.fits
  · rw [htake, ← hsize]
    exact h.full

/-- **A bound that is met stays met**, whatever is offered next: either the new solution ranks no
worse than the bound itself, or it is not retained. -/
lemma Meets.offer {r : Ranking} {bound : Solution} (h : r.Meets bound) (hr : r.Sound)
    (s : Solution) : (r.offer s).Meets bound := by
  have hsize := size_eq_contents r
  have hfull : r.capacity ≤ (r.offer s).size := by
    have hlength := size_eq_contents (r.offer s)
    have hroom := h.full
    rw [Ranking.contents_offer hr, List.length_take, length_insertBehind, ← hsize] at hlength
    omega
  refine ⟨hfull, ?_⟩
  intro t ht
  rw [keys_offer]
  by_cases hs : Solution.noWorse r.keys s bound
  · rw [Ranking.contents_offer hr] at ht
    have hmem := (perm_insertBehind _ _).subset (List.mem_of_mem_take ht)
    rcases List.mem_cons.1 hmem with rfl | hold
    · exact hs
    · exact h.noWorse t hold
  · have htotal : Solution.noWorse r.keys s bound || Solution.noWorse r.keys bound s :=
      noWorse_total s bound
    have hworse : Solution.noWorse r.keys bound s := by simpa [hs] using htotal
    rw [h.contents_offer hr hworse] at ht
    exact h.noWorse t ht

lemma Meets.offerAll {r : Ranking} {bound : Solution} (h : r.Meets bound) (hr : r.Sound)
    (ss : List Solution) : (r.offerAll ss).Meets bound := by
  induction ss using List.reverseRecOn with
  | nil => exact h
  | append_singleton ss s ih =>
    rw [offerAll_append]
    exact ih.offer (hr.offerAll ss) s

/-- The retained solutions stand in the order of the keys. -/
lemma pairwise_contents (K : Nat) (keys : List RankingKey) (ss : List Solution) :
    ((empty K keys).offerAll ss).contents.Pairwise fun a b => Solution.noWorse keys a b := by
  rw [contents_offerAll]
  exact (List.pairwise_mergeSort noWorse_trans noWorse_total ss).sublist (List.take_sublist _ _)

/-- In the order of the keys nothing ranks worse than the last. -/
lemma noWorse_getLast {keys : List RankingKey} {l : List Solution} {worst : Solution}
    (hl : l.Pairwise fun a b => Solution.noWorse keys a b) (h : l.getLast? = some worst) :
    ∀ s ∈ l, Solution.noWorse keys s worst := by
  obtain ⟨front, rfl⟩ := List.getLast?_eq_some_iff.1 h
  intro s hs
  rcases List.mem_append.1 hs with hs | hs
  · exact (List.pairwise_append.1 hl).2.2 s hs worst List.mem_cons_self
  · have hself : Solution.noWorse keys worst worst || Solution.noWorse keys worst worst :=
      noWorse_total worst worst
    rw [List.mem_singleton.1 hs]
    simpa using hself

/-- A solution ranks by the fields of the keys. -/
lemma orderBy_keyFields (keys : List RankingKey) (s t : Solution) :
    orderBy keys s (keyFields keys t) = orderBy keys s t := by
  refine orderBy_congr (fun _ _ => rfl) ?_
  intro key hkey
  exact RankingKey.valueIn_congr (get?_keyFields hkey t)

/-- **A ranking meets its own bound**, which stands for its worst solution. -/
lemma meets_of_bound? {K : Nat} {keys : List RankingKey} {ss : List Solution} {bound : Solution}
    (h : ((empty K keys).offerAll ss).bound? = some bound) :
    ((empty K keys).offerAll ss).Meets bound := by
  set r := (empty K keys).offerAll ss with hr
  have hkeys : r.keys = keys := keys_offerAll (empty K keys) ss
  rw [bound?_eq_contents, Option.ite_none_right_eq_some, Option.map_eq_some_iff] at h
  obtain ⟨hfull, worst, hworst, rfl⟩ := h
  rw [isFull, decide_eq_true_iff] at hfull
  have hlast := noWorse_getLast (pairwise_contents K keys ss) hworst
  refine ⟨hfull, ?_⟩
  intro s hs
  have hsame := orderBy_keyFields r.keys s worst
  rw [Solution.noWorse, hsame, hkeys]
  exact hlast s hs

/-! ## The simulation -/

/-- Leaving out what ranks no better than bounds that are met makes no difference.

**Proof sketch.** Induction on what is left out. A solution that both runs are offered keeps them
alike and the bounds met; one that only the first run is offered is not retained there. -/
lemma Alike.offerAll {p : Solution → Prop} {l l' : List Solution} (hthin : Thinned p l l')
    {r r' : Ranking} (h : Alike r r') (hr : r.Sound) (hr' : r'.Sound)
    (hp : ∀ s, p s → ∃ bound, r.Meets bound ∧ Solution.noWorse r.keys bound s) :
    Alike (r.offerAll l) (r'.offerAll l') := by
  induction hthin generalizing r r' with
  | nil => exact h
  | keep s _ ih =>
    refine ih (h.offer hr hr' s) (hr.offer s) (hr'.offer s) ?_
    intro t ht
    obtain ⟨bound, hmeets, hbound⟩ := hp t ht
    exact ⟨bound, hmeets.offer hr s, hbound⟩
  | @drop s _ _ hs _ ih =>
    obtain ⟨bound, hmeets, hbound⟩ := hp s hs
    have hsame : Alike (r.offer s) r' :=
      ⟨h.keys, h.capacity, (hmeets.contents_offer hr hbound).trans h.contents⟩
    refine ih hsame (hr.offer s) hr' ?_
    intro t ht
    obtain ⟨bound, hmeets, hbound⟩ := hp t ht
    exact ⟨bound, hmeets.offer hr s, hbound⟩

section Runs

variable {K : Nat} {keys : List RankingKey} {rounds pruned : List (List Solution)}

lemma sound_afterRounds (K : Nat) (keys : List RankingKey) (rounds : List (List Solution))
    (i : Nat) : (afterRounds K keys rounds i).Sound := by
  rw [afterRounds_eq]
  exact (sound_empty K keys).offerAll _

@[simp] lemma keys_afterRounds (i : Nat) : (afterRounds K keys rounds i).keys = keys := by
  rw [afterRounds_eq, keys_offerAll]
  rfl

/-- The bound after some rounds is met after all later ones. -/
lemma meets_afterRounds {j i : Nat} (hj : j ≤ i) {bound : Solution}
    (h : (afterRounds K keys rounds j).bound? = some bound) :
    (afterRounds K keys rounds i).Meets bound := by
  obtain ⟨ss, hss⟩ := afterRounds_of_le K keys rounds hj
  have hmeets : (afterRounds K keys rounds j).Meets bound := by
    rw [afterRounds_eq] at h ⊢
    exact meets_of_bound? h
  rw [hss]
  exact hmeets.offerAll (sound_afterRounds K keys rounds j) ss

/-- The two runs are alike after every number of rounds.

**Proof sketch.** Induction on the number of rounds. As the runs have been alike after all earlier
rounds, a bound of the pruned run is one of the unpruned run too, and that run meets its earlier
bounds (`meets_afterRounds`). -/
lemma IsPruning.alike (h : IsPruning K keys rounds pruned) (i : Nat) :
    Alike (afterRounds K keys rounds i) (afterRounds K keys pruned i) := by
  induction i using Nat.strongRecOn with
  | _ i ih =>
    cases i with
    | zero => exact ⟨rfl, rfl, rfl⟩
    | succ i =>
      have hlength := h.length
      by_cases hi : i < rounds.length
      · have hi' : i < pruned.length := by omega
        rw [afterRounds_succ K keys hi, afterRounds_succ K keys hi']
        refine Alike.offerAll (h.thinned i hi hi') (ih i (by omega)) (sound_afterRounds _ _ _ _)
          (sound_afterRounds _ _ _ _) ?_
        rintro s ⟨j, hj, bound, hbound, hs⟩
        have hown : (afterRounds K keys rounds j).bound? = some bound := by
          rcases hbound with hbound | hbound
          · exact hbound
          · rw [(ih j (by omega)).bound?, hbound]
        refine ⟨bound, meets_afterRounds hj hown, ?_⟩
        rw [keys_afterRounds]
        exact noWorse_iff.2 hs
      · rw [afterRounds_succ_of_length_le K keys (by omega),
          afterRounds_succ_of_length_le K keys (by omega)]
        exact ih i (by omega)

/-- **Pruning by the bound loses nothing.** If rounds differ from others by leaving out solutions
that rank no better than the bound after some earlier round, ties included, then after every round
the two runs have the same results, the same bound and the same size. -/
theorem pruning_keeps_results (h : IsPruning K keys rounds pruned) (i : Nat) :
    (afterRounds K keys pruned i).solutions = (afterRounds K keys rounds i).solutions ∧
    (afterRounds K keys pruned i).bound? = (afterRounds K keys rounds i).bound? ∧
    (afterRounds K keys pruned i).size = (afterRounds K keys rounds i).size := by
  have halike := h.alike i
  exact ⟨halike.solutions.symm, halike.bound?.symm, halike.size.symm⟩

/-- The best of three rounds is found without a tie with the first bound, a worse solution and a
solution that lacks the field. -/
theorem pruning_keeps_results_of_three_rounds :
    let row := fun x : String => Solution.ofList [("x", x)]
    let keys : List RankingKey := [⟨"x", .descending⟩]
    let rounds := [[row "5"], [row "5.0", row "3", row "9"], [Solution.empty, row "7"]]
    let pruned := [[row "5"], [row "9"], []]
    IsPruning 1 keys rounds pruned ∧
    (afterRounds 1 keys pruned 3).solutions = (afterRounds 1 keys rounds 3).solutions ∧
    (afterRounds 1 keys pruned 3).bound? = (afterRounds 1 keys rounds 3).bound? ∧
    (afterRounds 1 keys pruned 3).size = (afterRounds 1 keys rounds 3).size := by
  intro row keys rounds pruned
  have hfirst : (afterRounds 1 keys rounds 1).bound? = some (row "5") := by decide +kernel
  have hsecond : (afterRounds 1 keys rounds 2).bound? = some (row "9") := by decide +kernel
  have hpruning : IsPruning 1 keys rounds pruned := by
    refine ⟨rfl, ?_⟩
    intro i hi hi'
    match i with
    | 0 => exact .keep _ .nil
    | 1 =>
      have htie : orderBy keys (row "5.0") (row "5") ≠ .lt := by decide +kernel
      have hworse : orderBy keys (row "3") (row "5") ≠ .lt := by decide +kernel
      exact .drop ⟨1, le_rfl, row "5", .inl hfirst, htie⟩
        (.drop ⟨1, le_rfl, row "5", .inl hfirst, hworse⟩ (.keep _ .nil))
    | 2 =>
      have hunbound : orderBy keys Solution.empty (row "5") ≠ .lt := by decide +kernel
      have hworse : orderBy keys (row "7") (row "9") ≠ .lt := by decide +kernel
      exact .drop ⟨1, by decide, row "5", .inl hfirst, hunbound⟩
        (.drop ⟨2, le_rfl, row "9", .inl hsecond, hworse⟩ .nil)
    | n + 3 => exact absurd hi (by simp [rounds])
  exact ⟨hpruning, pruning_keeps_results hpruning 3⟩

end Runs

end Ranking

end PagedTopK
