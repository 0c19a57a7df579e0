import PagedTopK.Proofs.Plan.Threshold
import PagedTopK.Proofs.Ranking.Pruning
import PagedTopK.Strategy.State

set_option autoImplicit false

/-!
# The threshold that is sent

A strategy that sends its bound puts the key fields of its worst solution into the token that the
service has returned. A field that the worst solution does not bind is not put there, and an entry
that the token has for it from an earlier round stays. So the threshold says what it should only if
there is no such entry; otherwise the service may prune solutions that rank better than the worst
one.

## Main definitions

* `Strategy.Reachable` — the states that pages lead to.
* `Threshold.Denotes` — whether a threshold holds exactly the key fields of a solution.
* `Threshold.order` — how a solution ranks against a threshold.

## Main results

* `Strategy.nextToken_threshold` — what the threshold of the token to send holds, and when that is
  the worst solution.
* `Strategy.stale_entry_prunes_better` — a run in which it is not.
-/

namespace PagedTopK

open Solution

/-! ## Thresholds -/

namespace Threshold

/-- **A threshold denotes a solution** if it holds exactly its terms under the names of the
keys. -/
def Denotes (keys : List RankingKey) (t : Members) (s : Solution) : Prop :=
  ∀ key ∈ keys, t.lookup key.name = (s.get? key.name).map Json.text

/-- The term that a threshold holds under a name. -/
def term? (t : Members) (name : String) : Option String :=
  match t.lookup name with
  | some (.text term) => some term
  | _ => none

/-- **How a solution ranks against a threshold**, in which a missing entry counts as unbound. -/
def order (keys : List RankingKey) (s : Solution) (t : Members) : Ordering :=
  RankingKey.order (keys.map (·.direction)) (keys.map (·.valueIn s))
    (keys.map fun key => SortValue.ofTerm (term? t key.name))

/-- Solutions rank against a threshold as against a solution that it denotes. -/
lemma order_of_denotes {keys : List RankingKey} {t : Members} {worst : Solution}
    (h : Denotes keys t worst) (s : Solution) : order keys s t = orderBy keys s worst := by
  have hvalues : (keys.map fun key => SortValue.ofTerm (term? t key.name)) =
      keys.map (·.valueIn worst) := by
    refine List.map_congr_left ?_
    intro key hkey
    have hterm : term? t key.name = worst.get? key.name := by
      rw [term?, h key hkey]
      cases worst.get? key.name <;> rfl
    rw [hterm]
    rfl
  rw [order, hvalues, orderBy_eq_order]

/-- After the key fields of a solution have been written over old entries, the threshold denotes
the solution exactly if no old entry stands where the solution binds nothing. -/
lemma denotes_iff {keys : List RankingKey} {t t' : Members} {s : Solution}
    (h : ∀ key ∈ keys, t'.lookup key.name =
      ((s.get? key.name).map Json.text).or (t.lookup key.name)) :
    Denotes keys t' s ↔ ∀ key ∈ keys, s.get? key.name = none → t.lookup key.name = none := by
  constructor
  · intro hdenotes key hkey hnone
    have hentry := h key hkey
    rw [hdenotes key hkey, hnone] at hentry
    exact hentry.symm
  · intro hfree key hkey
    rw [h key hkey]
    cases hterm : s.get? key.name with
    | none => exact hfree key hkey hterm
    | some term => rfl

end Threshold

namespace Strategy

/-! ## Reachable states -/

/-- **The states that pages lead to.** -/
inductive Reachable : Strategy → Prop where
  /-- Keys that name fields, before the first round. -/
  | ofKeys (kind : StrategyKind) (limit : Nat) (keys : List RankingKey) :
    Reachable (.ofKeys kind limit keys)
  /-- The conditions of a query, before the first round. -/
  | ofConditions (kind : StrategyKind) (limit : Nat) (conditions : List OrderCondition) :
    Reachable (.ofConditions kind limit conditions)
  /-- One more page. -/
  | merge {state : Strategy} (bindings : List Solution) :
    Reachable state → Reachable (state.merge bindings)

/-- The ranking of a reachable state has been offered some solutions. -/
lemma Reachable.exists_offers {state : Strategy} (h : state.Reachable) :
    ∃ ss, state.ranking =
      (Ranking.empty state.ranking.capacity state.ranking.keys).offerAll ss := by
  induction h with
  | ofKeys kind limit keys => exact ⟨[], rfl⟩
  | ofConditions kind limit conditions => exact ⟨[], rfl⟩
  | @merge state bindings _ ih =>
    obtain ⟨ss, hss⟩ := ih
    unfold Strategy.merge
    split
    · refine ⟨ss ++ bindings.map (keyed state.conditions state.ranking.keys), ?_⟩
      rw [Ranking.capacity_offerAll, Ranking.keys_offerAll, Ranking.offerAll_append, ← hss]
    · exact ⟨ss, hss⟩

/-- A full ranking that may retain something has a worst solution, whose key fields are its
bound. -/
lemma exists_worst {r : Ranking} (hcapacity : 0 < r.capacity) (hfull : r.isFull = true) :
    ∃ worst, r.contents.getLast? = some worst ∧
      r.bound? = some (Ranking.keyFields r.keys worst) := by
  have hsize : r.capacity ≤ r.size := of_decide_eq_true hfull
  rw [Ranking.size_eq_contents] at hsize
  have hne : r.contents ≠ [] := List.ne_nil_of_length_pos (by omega)
  have hworst := List.getLast?_eq_some_getLast hne
  refine ⟨_, hworst, ?_⟩
  rw [Ranking.bound?_eq_contents, if_pos hfull, hworst]
  rfl

/-! ## The token to send -/

/-- As soon as there is a bound, it goes into a token that has a threshold. -/
lemma nextToken_of_bound? {state : Strategy} (hkind : state.kind.pushesThreshold = true)
    {bound : Solution} (hbound : state.ranking.bound? = some bound) {token : String} {t : Members}
    (ht : Continuation.threshold? token = some t) :
    ∃ changed : Plan, state.nextToken (some token) = .ok (some (Continuation.encode changed)) ∧
      changed.root.threshold = .ok (PlanNode.withValues t bound.bindings) := by
  obtain ⟨changed, htoken, hchanged⟩ := Continuation.withThreshold_of_threshold? ht bound
  refine ⟨changed, ?_, hchanged⟩
  rw [nextToken, if_pos hkind, hbound]
  show (Continuation.withThreshold token bound).map some = _
  rw [htoken]
  rfl

/-- The entry under the name of a key is the term of the solution, or the old one. -/
lemma lookup_withValues_keyFields {keys : List RankingKey} {key : RankingKey} (hkey : key ∈ keys)
    (t : Members) (s : Solution) :
    (PlanNode.withValues t (Ranking.keyFields keys s).bindings).lookup key.name =
      ((s.get? key.name).map Json.text).or (t.lookup key.name) := by
  rw [PlanNode.lookup_withValues, Ranking.get?_keyFields hkey]

/-- **What the threshold of the token to send holds.** The ranking of a state that pages have led to
is full and its capacity is not zero; the service has returned a token with a ranking operator. Then
the threshold of the token to send holds the term of the worst solution under the name of every key
that is bound there, and under other keys what it has held before. So it denotes the worst solution
exactly if the returned token holds nothing under a key that is unbound there. In that case the
threshold ranks as the worst solution does, and what ranks no better would not be retained.

**Proof sketch.** The bound is the worst solution cut down to the keys (`exists_worst`), and its
terms are written over the old entries (`PlanNode.lookup_withValues`). A full ranking meets its own
bound, and what ranks no better than a bound that is met is not retained
(`Ranking.Meets.contents_offer`). -/
theorem nextToken_threshold {state : Strategy} (hreach : state.Reachable)
    (hkind : state.kind.pushesThreshold = true) (hcapacity : 0 < state.ranking.capacity)
    (hfull : state.ranking.isFull = true) {token : String} {t : Members}
    (ht : Continuation.threshold? token = some t) :
    ∃ (worst : Solution) (changed : Plan) (t' : Members),
      state.ranking.contents.getLast? = some worst ∧
      (∀ s ∈ state.ranking.contents, noWorse state.ranking.keys s worst) ∧
      state.nextToken (some token) = .ok (some (Continuation.encode changed)) ∧
      changed.root.threshold = .ok t' ∧
      (∀ key ∈ state.ranking.keys, t'.lookup key.name =
        ((worst.get? key.name).map Json.text).or (t.lookup key.name)) ∧
      (Threshold.Denotes state.ranking.keys t' worst ↔
        ∀ key ∈ state.ranking.keys, worst.get? key.name = none → t.lookup key.name = none) ∧
      (Threshold.Denotes state.ranking.keys t' worst →
        Threshold.order state.ranking.keys worst t' = .eq ∧
        ∀ s, Threshold.order state.ranking.keys s t' ≠ .lt →
          (state.ranking.offer s).contents = state.ranking.contents) := by
  obtain ⟨ss, hss⟩ := hreach.exists_offers
  obtain ⟨worst, hworst, hbound⟩ := exists_worst hcapacity hfull
  obtain ⟨changed, hnext, hchanged⟩ := nextToken_of_bound? hkind hbound ht
  set keys := state.ranking.keys with hkeys
  have hentries : ∀ key ∈ keys,
      (PlanNode.withValues t (Ranking.keyFields keys worst).bindings).lookup key.name =
        ((worst.get? key.name).map Json.text).or (t.lookup key.name) := fun key hkey =>
    lookup_withValues_keyFields hkey t worst
  have hsound : state.ranking.Sound := by
    rw [hss]
    exact (Ranking.sound_empty _ _).offerAll ss
  have hmeets : state.ranking.Meets (Ranking.keyFields keys worst) := by
    rw [hss] at hbound ⊢
    exact Ranking.meets_of_bound? hbound
  have hrank : ∀ s, orderBy keys s (Ranking.keyFields keys worst) = orderBy keys s worst :=
    fun s => Ranking.orderBy_keyFields keys s worst
  have hsorted : ∀ s ∈ state.ranking.contents, noWorse keys s worst := by
    intro s hs
    rw [noWorse, ← hrank]
    exact hmeets.noWorse s hs
  refine ⟨worst, changed, _, hworst, hsorted, hnext, hchanged, hentries,
    Threshold.denotes_iff hentries, ?_⟩
  intro hdenotes
  refine ⟨?_, ?_⟩
  · rw [Threshold.order_of_denotes hdenotes]
    exact Std.ReflCmp.compare_self
  · intro s hs
    rw [Threshold.order_of_denotes hdenotes, ← hrank] at hs
    exact hmeets.contents_offer hsound (noWorse_iff.2 hs)

/-- An old entry is overwritten if the worst solution binds its name. -/
theorem nextToken_threshold_of_bound_keys :
    let keys : List RankingKey := [⟨"a", .ascending⟩, ⟨"b", .descending⟩]
    let worst := Solution.ofList [("a", "1"), ("b", "7")]
    let state := (ofKeys .collaborativeThreshold 1 keys).merge [worst]
    let token := "eyJyb290Ijp7InR5cGUiOiJ0b3BfayIsInRocmVzaG9sZCI6eyJhIjoiMiIsImIiOiI1In19fQ=="
    (Continuation.threshold? token).map (fun t => keys.map fun key => Threshold.term? t key.name) =
      some [some "2", some "5"] ∧
    ∃ (changed : Plan) (t' : Members),
      state.nextToken (some token) = .ok (some (Continuation.encode changed)) ∧
      changed.root.threshold = .ok t' ∧ Threshold.Denotes keys t' worst := by
  intro keys worst state token
  have hterms : (Continuation.threshold? token).map
      (fun t => keys.map fun key => Threshold.term? t key.name) = some [some "2", some "5"] := by
    decide +kernel
  obtain ⟨t, ht, -⟩ := Option.map_eq_some_iff.1 hterms
  have hreach : state.Reachable := .merge [worst] (.ofKeys _ 1 keys)
  obtain ⟨last, changed, t', hlast, -, hnext, ht', -, hdenotes, -⟩ :=
    nextToken_threshold hreach rfl (by decide +kernel) (by decide +kernel) ht
  have hworst : state.ranking.contents.getLast? = some worst := by decide +kernel
  rw [hworst] at hlast
  obtain rfl := Option.some.inj hlast
  have hbound : ∀ key ∈ keys, worst.get? key.name ≠ none := by decide +kernel
  refine ⟨hterms, changed, t', hnext, ht', hdenotes.2 ?_⟩
  intro key hkey hnone
  exact absurd hnone (hbound key hkey)

/-- **A threshold that prunes better solutions.** The first page puts both of its key fields into
the token; the solution of the second page takes its place and lacks the field `b`, but the token
keeps the old term for it. A solution that lies between the two is then pruned, although the
ranking would retain it. -/
theorem stale_entry_prunes_better :
    let keys : List RankingKey := [⟨"a", .ascending⟩, ⟨"b", .descending⟩]
    let first := (ofKeys .collaborativeThreshold 1 keys).merge
      [Solution.ofList [("a", "2"), ("b", "5")]]
    let second := first.merge [Solution.ofList [("a", "1")]]
    let fresh := "eyJyb290Ijp7InR5cGUiOiJ0b3BfayJ9fQ=="
    let echoed := "eyJyb290Ijp7InR5cGUiOiJ0b3BfayIsInRocmVzaG9sZCI6eyJhIjoiMiIsImIiOiI1In19fQ=="
    let stale := "eyJyb290Ijp7InR5cGUiOiJ0b3BfayIsInRocmVzaG9sZCI6eyJhIjoiMSIsImIiOiI1In19fQ=="
    let pruned := Solution.ofList [("a", "1"), ("b", "3")]
    first.nextToken (some fresh) = .ok (some echoed) ∧
    second.nextToken (some echoed) = .ok (some stale) ∧
    second.ranking.bound? = some (Solution.ofList [("a", "1")]) ∧
    (Continuation.threshold? stale).map (fun t => keys.map fun key => Threshold.term? t key.name) =
      some [some "1", some "5"] ∧
    (Continuation.threshold? stale).map (Threshold.order keys pruned) = some .gt ∧
    second.ranking.retains pruned = true := by
  refine ⟨?_, ?_, ?_, ?_, ?_, ?_⟩
  · decide +kernel
  · decide +kernel
  · decide +kernel
  · decide +kernel
  · decide +kernel
  · decide +kernel

end Strategy

end PagedTopK
