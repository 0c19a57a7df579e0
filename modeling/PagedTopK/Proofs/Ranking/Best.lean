import Mathlib.Data.List.Forall2
import Mathlib.Data.List.TakeWhile
import PagedTopK.Proofs.Ranking.TotalOrder
import PagedTopK.Proofs.Solution
import PagedTopK.Proofs.StableSort

set_option autoImplicit false

/-!
# A ranking holds the best solutions

A ranking never looks at a solution again once it has dropped it, and yet it always holds the first
solutions of the stable sort of everything that it has been offered. The number of each arrival
breaks ties in the order of entries; since a new entry has the greatest number, ties put it last,
and the numbers can be forgotten.

## Main definitions

* `Solution.ranked` — the stable sort of solutions; `Solution.rankedArrivals` — the same with the
  number of each arrival.
* `Ranking.contents`, `Ranking.log` — the retained solutions, without and with their arrivals.
* `Ranking.Sound` — the invariant of rankings: entries hold the values of their solutions and
  arrivals of the past, and are in strict order.
* `Ranking.Inserts` — the branches of an offer.

## Main results

* `Ranking.inserts_offer` — every offer takes one of the branches.
* `Ranking.log_offerAll` — the retained solutions are the first of the stable sort.
* `Ranking.offerAll_keeps_best` — the same with the results as they are given out, and with what
  one more offer does.
-/

namespace PagedTopK

namespace Solution

/-- **The stable sort of solutions** under keys: of two that rank the same the earlier comes
first. -/
def ranked (keys : List RankingKey) (ss : List Solution) : List Solution :=
  ss.mergeSort (noWorse keys)

/-- **The stable sort of solutions with their arrivals**, which are numbered from zero and do not
count for the order. -/
def rankedArrivals (keys : List RankingKey) (ss : List Solution) : List (Solution × Nat) :=
  ss.zipIdx.mergeSort fun a b => noWorse keys a.1 b.1

variable {keys : List RankingKey}

/-- Without the arrivals the sort is the sort of the solutions alone. -/
lemma map_fst_rankedArrivals (ss : List Solution) :
    (rankedArrivals keys ss).map (·.1) = ranked keys ss := by
  unfold rankedArrivals ranked
  rw [List.map_mergeSort (s := noWorse keys) fun _ _ _ _ => rfl, List.zipIdx_map_fst]

/-- A later arrival goes behind all that rank no worse. -/
lemma rankedArrivals_concat (ss : List Solution) (s : Solution) :
    rankedArrivals keys (ss ++ [s]) =
      insertBehind (fun a b => noWorse keys a.1 b.1) (s, ss.length) (rankedArrivals keys ss) := by
  have hzip : (ss ++ [s]).zipIdx = ss.zipIdx ++ [(s, ss.length)] := by simp [List.zipIdx_append]
  unfold rankedArrivals
  rw [hzip]
  exact mergeSort_concat (fun a b c => noWorse_trans a.1 b.1 c.1)
    (fun a b => noWorse_total a.1 b.1) _ _

/-- An arrival that is yet to come is not among those of the past. -/
lemma notMem_rankedArrivals (ss : List Solution) (s : Solution) :
    (s, ss.length) ∉ rankedArrivals keys ss := by
  intro h
  have hlt := List.snd_lt_of_mem_zipIdx (List.mem_mergeSort.1 h)
  simp at hlt

@[simp] lemma length_rankedArrivals (ss : List Solution) :
    (rankedArrivals keys ss).length = ss.length := by
  simp [rankedArrivals]

end Solution

namespace Ranking

open Solution

/-! ## What is retained -/

/-- The retained solutions, best first. -/
def contents (r : Ranking) : List Solution := r.entries.map (·.solution)

/-- **The retained solutions with their arrivals**, best first. -/
def log (r : Ranking) : List (Solution × Nat) := r.entries.map fun e => (e.solution, e.arrival)

/-- **The invariant of rankings**: every entry holds the sort values of its solution and has
arrived, and the entries are in strict order, best first. -/
structure Sound (r : Ranking) : Prop where
  /-- An entry holds the sort values of its solution. -/
  values : ∀ e ∈ r.entries, e.values = r.keys.map (·.valueIn e.solution)
  /-- An entry has been offered. -/
  arrived : ∀ e ∈ r.entries, e.arrival < r.arrivals
  /-- An entry is before all that follow. -/
  ordered : r.entries.Pairwise (Ranked.Before r.directions)
  /-- No more solutions are retained than may be. -/
  fits : r.size ≤ r.capacity

lemma map_fst_log (r : Ranking) : r.log.map (·.1) = r.contents := by
  simp [log, contents]

@[simp] lemma length_log (r : Ranking) : r.log.length = r.size := by simp [log, size]

/-! ## One offer -/

@[simp] lemma keys_offer (r : Ranking) (s : Solution) : (r.offer s).keys = r.keys := rfl

/-- **Entries with a new one at its place**: behind all that it is not before. -/
def withEntry (directions : List Direction) (e : Ranked) (entries : List Ranked) : List Ranked :=
  insertBehind (fun x e => Ranked.order directions e x ≠ .lt) e entries

/-- An offer puts an entry at its place. -/
lemma entries_offer (r : Ranking) (s : Solution) :
    (r.offer s).entries = (withEntry r.directions (r.entryOf s) r.entries).take r.capacity := by
  have hdrop : r.entries.drop (r.notWorse (r.entryOf s)).length =
      r.entries.dropWhile fun x => Ranked.order r.directions (r.entryOf s) x ≠ .lt := by
    have h : (r.notWorse (r.entryOf s) ++ r.entries.dropWhile fun x =>
        Ranked.order r.directions (r.entryOf s) x ≠ .lt).drop (r.notWorse (r.entryOf s)).length =
        r.entries.dropWhile fun x => Ranked.order r.directions (r.entryOf s) x ≠ .lt :=
      List.drop_left
    rwa [notWorse, List.takeWhile_append_dropWhile] at h
  simp only [offer, hdrop]
  rfl

/-- A new entry ranks no better than an old one exactly if its solution does: of two arrivals with
the same values the new one is the later. -/
lemma order_entryOf {r : Ranking} (hr : r.Sound) {e : Ranked} (he : e ∈ r.entries)
    (s : Solution) :
    decide (Ranked.order r.directions (r.entryOf s) e ≠ .lt) = noWorse r.keys e.solution s := by
  have hvalues : RankingKey.order r.directions (r.entryOf s).values e.values =
      orderBy r.keys s e.solution := by
    rw [hr.values e he]
    exact orderBy_eq_order r.keys s e.solution
  have hlater : compare (r.entryOf s).arrival e.arrival = .gt :=
    Nat.compare_eq_gt.2 (hr.arrived e he)
  rw [Ranked.order, hvalues, hlater, Bool.eq_iff_iff, noWorse_iff, decide_eq_true_iff]
  cases orderBy r.keys s e.solution <;> decide

lemma log_offer {r : Ranking} (hr : r.Sound) (s : Solution) :
    (r.offer s).log =
      (insertBehind (fun a b => noWorse r.keys a.1 b.1) (s, r.arrivals) r.log).take r.capacity := by
  unfold log
  rw [entries_offer, List.map_take]
  congr 1
  exact map_insertBehind fun e he => order_entryOf hr he s

/-- There is a sort value for each direction. -/
lemma length_values_entryOf (r : Ranking) (s : Solution) :
    (r.entryOf s).values.length = r.directions.length := by
  rw [entryOf, List.length_map, directions, List.length_map]

section Sound

variable {r : Ranking} (hr : r.Sound)
include hr

lemma Sound.length_values {e : Ranked} (he : e ∈ r.entries) :
    e.values.length = r.directions.length := by
  rw [hr.values e he, List.length_map, directions, List.length_map]

/-- A new entry compares less than an old one exactly if it is before it. -/
lemma Sound.order_eq_lt_iff {e : Ranked} (he : e ∈ r.entries) (s : Solution) :
    Ranked.order r.directions (r.entryOf s) e = .lt ↔
      Ranked.Before r.directions (r.entryOf s) e :=
  Ranked.order_eq_lt_iff (length_values_entryOf r s) (hr.length_values he)

/-- A new entry arrived last, so what it is not before is before it. -/
lemma Sound.before_entryOf {e : Ranked} (he : e ∈ r.entries) {s : Solution}
    (h : Ranked.order r.directions (r.entryOf s) e ≠ .lt) :
    Ranked.Before r.directions e (r.entryOf s) := by
  rw [Ne, hr.order_eq_lt_iff he] at h
  rcases Ranked.before_trichotomy (length_values_entryOf r s) (hr.length_values he) with
    hbefore | harrival | hbehind
  · exact absurd hbefore h
  · exact absurd harrival (hr.arrived e he).ne'
  · exact hbehind

/-- **An offer keeps the entries in order.** -/
lemma Sound.pairwise_before_offer (s : Solution) :
    (r.offer s).entries.Pairwise (Ranked.Before r.directions) := by
  rw [entries_offer]
  refine List.Pairwise.sublist (List.take_sublist _ _) ?_
  refine pairwise_insertBehind_of_strict Ranked.Before.trans hr.ordered ?_ ?_
  · intro e he hle
    exact hr.before_entryOf he (of_decide_eq_true hle)
  · intro e he hgt
    rwa [decide_eq_false_iff_not, not_not, hr.order_eq_lt_iff he] at hgt

end Sound

lemma Sound.offer {r : Ranking} (hr : r.Sound) (s : Solution) : (r.offer s).Sound := by
  have hmem : ∀ e ∈ (r.offer s).entries, e = r.entryOf s ∨ e ∈ r.entries := by
    intro e he
    rw [entries_offer] at he
    exact List.mem_cons.1 ((perm_insertBehind _ _).subset (List.mem_of_mem_take he))
  constructor
  · intro e he
    rcases hmem e he with rfl | he
    · rfl
    · exact hr.values e he
  · intro e he
    rcases hmem e he with rfl | he
    · exact Nat.lt_succ_self r.arrivals
    · exact Nat.lt_succ_of_lt (hr.arrived e he)
  · exact hr.pairwise_before_offer s
  · exact size_offer_le r s

/-! ## A sequence of offers -/

lemma offerAll_append (r : Ranking) (ss ts : List Solution) :
    r.offerAll (ss ++ ts) = (r.offerAll ss).offerAll ts :=
  List.foldl_append

@[simp] lemma keys_offerAll (r : Ranking) (ss : List Solution) : (r.offerAll ss).keys = r.keys := by
  induction ss using List.reverseRecOn with
  | nil => rfl
  | append_singleton ss s ih => rw [offerAll_append]; exact ih

@[simp] lemma capacity_offerAll (r : Ranking) (ss : List Solution) :
    (r.offerAll ss).capacity = r.capacity := by
  induction ss using List.reverseRecOn with
  | nil => rfl
  | append_singleton ss s ih => rw [offerAll_append]; exact ih

@[simp] lemma arrivals_offerAll (r : Ranking) (ss : List Solution) :
    (r.offerAll ss).arrivals = r.arrivals + ss.length := by
  induction ss using List.reverseRecOn with
  | nil => rfl
  | append_singleton ss s ih =>
    have hstep : (r.offerAll (ss ++ [s])).arrivals = (r.offerAll ss).arrivals + 1 := by
      rw [offerAll_append]
      rfl
    rw [hstep, ih, List.length_append, List.length_singleton, Nat.add_assoc]

lemma Sound.offerAll {r : Ranking} (hr : r.Sound) (ss : List Solution) : (r.offerAll ss).Sound := by
  induction ss using List.reverseRecOn with
  | nil => exact hr
  | append_singleton ss s ih => rw [offerAll_append]; exact ih.offer s

lemma sound_empty (K : Nat) (keys : List RankingKey) : (empty K keys).Sound :=
  ⟨fun _ he => absurd he List.not_mem_nil, fun _ he => absurd he List.not_mem_nil,
    List.Pairwise.nil, K.zero_le⟩

/-- **A ranking retains the first of the stable sort** of all that it has been offered.

**Proof sketch.** Induction on the offers, from the first one on. The next one is inserted behind
all that rank no worse, in the sort (`rankedArrivals_concat`) as well as in the ranking
(`log_offer`), and what is past the capacity has no influence on what is within it
(`take_insertBehind_take`). -/
theorem log_offerAll (K : Nat) (keys : List RankingKey) (ss : List Solution) :
    ((empty K keys).offerAll ss).log = (rankedArrivals keys ss).take K := by
  induction ss using List.reverseRecOn with
  | nil => simp [rankedArrivals, offerAll, log, empty]
  | append_singleton ss s ih =>
    have hstep := log_offer ((sound_empty K keys).offerAll ss) s
    have harrivals : ((empty K keys).offerAll ss).arrivals = ss.length := by simp [empty]
    rw [harrivals, ih, keys_offerAll, capacity_offerAll] at hstep
    rw [offerAll_append, rankedArrivals_concat, ← take_insertBehind_take]
    exact hstep

theorem contents_offerAll (K : Nat) (keys : List RankingKey) (ss : List Solution) :
    ((empty K keys).offerAll ss).contents = (ranked keys ss).take K := by
  rw [← map_fst_log, log_offerAll, List.map_take, map_fst_rankedArrivals]

/-! ## What an offer does to a ranking -/

/-- How many retained solutions rank no worse than a new one. -/
lemma length_notWorse {r : Ranking} (hr : r.Sound) (s : Solution) :
    (r.notWorse (r.entryOf s)).length = (r.log.takeWhile fun a => noWorse r.keys a.1 s).length := by
  have h := takeWhile_map_of_eq (q := fun a : Solution × Nat => noWorse r.keys a.1 s)
    (f := fun e : Ranked => (e.solution, e.arrival)) fun e he => order_entryOf hr he s
  rw [log, h, List.length_map]
  rfl

/-- **A solution is retained exactly if it is among the best** of all that have been offered, itself
included. -/
lemma retains_offerAll_iff (K : Nat) (keys : List RankingKey) (ss : List Solution) (s : Solution) :
    ((empty K keys).offerAll ss).retains s = true ↔
      (s, ss.length) ∈ (rankedArrivals keys (ss ++ [s])).take K := by
  rw [rankedArrivals_concat, mem_take_insertBehind K (notMem_rankedArrivals ss s), retains,
    decide_eq_true_iff, length_notWorse ((sound_empty K keys).offerAll ss), log_offerAll,
    keys_offerAll, capacity_offerAll, ← List.take_takeWhile, List.length_take]
  simp only [empty]
  omega

/-! ## The branches of an offer -/

/-- **How a solution is inserted**, branch by branch: whether it is retained, and the entries
afterwards. -/
inductive Inserts (r : Ranking) (s : Solution) : Bool → List Ranked → Prop
  /-- Without a capacity nothing is retained. -/
  | noCapacity : r.capacity = 0 → Inserts r s false []
  /-- With room left the new entry finds its place. -/
  | room : r.isFull = false → Inserts r s true (withEntry r.directions (r.entryOf s) r.entries)
  /-- A full ranking refuses what is not before its worst entry. -/
  | refused {worst : Ranked} : r.isFull = true → r.entries.getLast? = some worst →
    Ranked.order r.directions (r.entryOf s) worst ≠ .lt → Inserts r s false r.entries
  /-- A full ranking drops its worst entry for one that is before it. -/
  | evicting {worst : Ranked} : r.isFull = true → r.entries.getLast? = some worst →
    Ranked.order r.directions (r.entryOf s) worst = .lt →
    Inserts r s true (withEntry r.directions (r.entryOf s) r.entries.dropLast)

section Branches

variable {r : Ranking} {s : Solution}

/-- If a new entry is not before the worst one, all others rank no worse than it. -/
lemma notWorse_eq_entries (hr : r.Sound) {worst : Ranked}
    (hworst : r.entries.getLast? = some worst)
    (h : Ranked.order r.directions (r.entryOf s) worst ≠ .lt) :
    r.notWorse (r.entryOf s) = r.entries := by
  have hmem : worst ∈ r.entries := List.mem_of_getLast? hworst
  refine List.takeWhile_eq_self_iff.2 fun e he => decide_eq_true fun hlt => h ?_
  rw [hr.order_eq_lt_iff he] at hlt
  rw [hr.order_eq_lt_iff hmem]
  obtain ⟨init, hinit⟩ := List.getLast?_eq_some_iff.1 hworst
  have hordered := hr.ordered
  rw [hinit] at he hordered
  rcases List.mem_append.1 he with he | he
  · exact hlt.trans ((List.pairwise_append.1 hordered).2.2 e he worst List.mem_cons_self)
  · rwa [List.mem_singleton.1 he] at hlt

lemma inserts_refused (hr : r.Sound) (hfull : r.isFull = true) {worst : Ranked}
    (hworst : r.entries.getLast? = some worst)
    (h : Ranked.order r.directions (r.entryOf s) worst ≠ .lt) :
    r.Inserts s (r.retains s) (r.offer s).entries := by
  have hle : r.capacity ≤ (r.notWorse (r.entryOf s)).length := by
    rw [notWorse_eq_entries hr hworst h]
    exact of_decide_eq_true hfull
  have hretains : r.retains s = false := decide_eq_false (Nat.not_lt.2 hle)
  have hentries : (r.offer s).entries = r.entries := by
    rw [entries_offer]
    exact take_insertBehind_of_le hr.fits hle
  rw [hretains, hentries]
  exact .refused hfull hworst h

lemma inserts_evicting (hr : r.Sound) (hfull : r.isFull = true) {worst : Ranked}
    (hworst : r.entries.getLast? = some worst)
    (h : Ranked.order r.directions (r.entryOf s) worst = .lt) :
    r.Inserts s (r.retains s) (r.offer s).entries := by
  have hlast : decide (Ranked.order r.directions (r.entryOf s) worst ≠ .lt) = false :=
    decide_eq_false (not_not.2 h)
  obtain ⟨init, hinit⟩ := List.getLast?_eq_some_iff.1 hworst
  have hcapacity : r.capacity = init.length + 1 := by
    have hsize : r.size = init.length + 1 := by rw [size, hinit, List.length_append]; rfl
    rw [← hsize]
    exact Nat.le_antisymm (of_decide_eq_true hfull) hr.fits
  have hretains : r.retains s = true := by
    have htake := takeWhile_concat_of_neg
      (p := fun x => Ranked.order r.directions (r.entryOf s) x ≠ .lt) hlast init
    rw [retains, decide_eq_true_iff, notWorse, hinit, hcapacity, htake]
    exact Nat.lt_succ_of_le (List.takeWhile_sublist _).length_le
  have hentries : (r.offer s).entries =
      withEntry r.directions (r.entryOf s) r.entries.dropLast := by
    rw [entries_offer, hinit, hcapacity, List.dropLast_concat, withEntry,
      insertBehind_concat hlast]
    exact List.take_left' (length_insertBehind _ _)
  rw [hretains, hentries]
  exact .evicting hfull hworst h

/-- **Every offer takes one of the branches**: without a capacity nothing is retained, with room
left everything is, and a full ranking compares what is new with its worst entry only. -/
theorem inserts_offer (hr : r.Sound) (s : Solution) :
    r.Inserts s (r.retains s) (r.offer s).entries := by
  rcases Nat.eq_zero_or_pos r.capacity with hzero | hpos
  · have hretains : r.retains s = false := by
      rw [retains, hzero]
      exact decide_eq_false (Nat.not_lt_zero _)
    rw [hretains, entries_offer, hzero, List.take_zero]
    exact .noCapacity hzero
  · by_cases hfull : r.isFull = true
    · have hne : r.entries ≠ [] :=
        List.ne_nil_of_length_pos (hpos.trans_le (of_decide_eq_true hfull))
      have hworst := List.getLast?_eq_some_getLast hne
      by_cases h : Ranked.order r.directions (r.entryOf s) (r.entries.getLast hne) = .lt
      · exact inserts_evicting hr hfull hworst h
      · exact inserts_refused hr hfull hworst h
    · have hroom : r.size < r.capacity := by simpa [isFull] using hfull
      have hretains : r.retains s = true :=
        decide_eq_true ((List.takeWhile_sublist _).length_le.trans_lt hroom)
      have hlength : (withEntry r.directions (r.entryOf s) r.entries).length ≤ r.capacity := by
        rw [withEntry, length_insertBehind]
        exact hroom
      rw [hretains, entries_offer, List.take_of_length_le hlength]
      exact .room (Bool.eq_false_iff.2 hfull)

namespace Inserts

variable {entries : List Ranked}

/-- A solution that is not retained changes nothing. -/
lemma entries_eq (h : r.Inserts s false entries) (hr : r.Sound) : entries = r.entries := by
  cases h with
  | noCapacity hzero =>
    have hnone : r.entries.length = 0 := Nat.le_zero.1 (hzero ▸ hr.fits)
    exact (List.eq_nil_of_length_eq_zero hnone).symm
  | refused _ _ _ => rfl

/-- In a ranking with room left a solution comes to the others. -/
lemma perm_of_room (h : r.Inserts s true entries) (hroom : r.isFull = false) :
    entries.Perm (r.entryOf s :: r.entries) := by
  cases h with
  | room _ => exact perm_insertBehind _ _
  | evicting hfull _ _ =>
    rw [hroom] at hfull
    cases hfull

/-- In a full ranking a retained solution takes the place of the worst. -/
lemma perm_of_full (h : r.Inserts s true entries) (hfull : r.isFull = true) :
    entries.Perm (r.entryOf s :: r.entries.dropLast) := by
  cases h with
  | room hroom =>
    rw [hfull] at hroom
    cases hroom
  | evicting _ _ _ => exact perm_insertBehind _ _

end Inserts

end Branches

/-! ## The results -/

/-- **Whether one solution is another one without the synthetic fields** among the keys. -/
def OmitsSynthetic (keys : List RankingKey) (s out : Solution) : Prop :=
  ∀ name, out.get? name =
    if ∃ key ∈ keys, key.isSynthetic = true ∧ key.name = name then none else s.get? name

/-- The results are the retained solutions without synthetic fields. -/
lemma forall₂_solutions (r : Ranking) :
    List.Forall₂ (OmitsSynthetic r.keys) r.contents r.solutions := by
  unfold contents solutions
  rw [List.forall₂_map_left_iff, List.forall₂_map_right_iff, List.forall₂_same]
  intro e _ name
  rw [get?_filterNames]
  by_cases h : ∃ key ∈ r.keys, key.isSynthetic = true ∧ key.name = name
  · have hany : r.keys.any (fun key => key.isSynthetic && key.name == name) = true := by
      simpa [List.any_eq_true] using h
    simp [hany, h]
  · have hany : r.keys.any (fun key => key.isSynthetic && key.name == name) = false := by
      simpa [List.any_eq_false] using h
    simp [hany, h]

/-- **A ranking is an exact choice of the best.** After any offers to a new ranking of capacity `K`
it retains the first `K` of the stable sort of all solutions offered, and gives them out in that
order without the synthetic fields of its keys. One more solution is retained exactly if it is among
the first `K` of the sort that includes it. If it is not, the entries stay as they are; if it is, it
comes to the entries, and the worst of them leaves a full ranking. -/
theorem offerAll_keeps_best (K : Nat) (keys : List RankingKey) (ss : List Solution)
    (s : Solution) :
    let r := (empty K keys).offerAll ss
    r.contents = (ranked keys ss).take K ∧
    r.size = min ss.length K ∧
    List.Forall₂ (OmitsSynthetic keys) r.contents r.solutions ∧
    (r.retains s = true ↔ (s, ss.length) ∈ (rankedArrivals keys (ss ++ [s])).take K) ∧
    (r.retains s = false → (r.offer s).entries = r.entries) ∧
    (r.retains s = true → r.isFull = false →
      (r.offer s).entries.Perm (r.entryOf s :: r.entries)) ∧
    (r.retains s = true → r.isFull = true →
      (r.offer s).entries.Perm (r.entryOf s :: r.entries.dropLast)) := by
  intro r
  have hr : r.Sound := (sound_empty K keys).offerAll ss
  have hsize : r.size = min ss.length K := by
    rw [← length_log, log_offerAll, List.length_take, length_rankedArrivals, Nat.min_comm]
  have hresults : List.Forall₂ (OmitsSynthetic keys) r.contents r.solutions := by
    have h := forall₂_solutions r
    rwa [keys_offerAll] at h
  have hinserts := inserts_offer hr s
  exact ⟨contents_offerAll K keys ss, hsize, hresults, retains_offerAll_iff K keys ss s,
    fun h => (h ▸ hinserts).entries_eq hr, fun h => (h ▸ hinserts).perm_of_room,
    fun h => (h ▸ hinserts).perm_of_full⟩

end Ranking

end PagedTopK
