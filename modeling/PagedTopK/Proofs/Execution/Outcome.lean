import PagedTopK.Proofs.Except
import PagedTopK.Proofs.Execution.Rounds
import PagedTopK.Proofs.Strategy.Keyed

set_option autoImplicit false

/-!
# The results of an execution

A client that ranks returns the first rows of the stable sort of everything that it has received,
and a client that does not rank returns everything as it came. Either way a row is returned without
the fields of conditions, and its plain literals without their quotes.

## Main definitions

* `Execution.Presents` — whether one row is the form in which another one is returned.

## Main results

* `Execution.run_solutions` — the results of a run.
* `Execution.run_reads_earlier_key` — a run in which a condition reads the value of an earlier one.
-/

namespace PagedTopK

open RankingKey (syntheticName isSyntheticName)

namespace Execution

/-! ## How a row is returned -/

/-- **The form in which a row is returned**: no fields of conditions, and all other fields with
plain literals out of their quotes. -/
def Presents (row out : Solution) : Prop :=
  ∀ name, out.get? name =
    if isSyntheticName name then none else (row.get? name).map Term.unquoted

lemma get?_presented (s : Solution) (name : String) :
    (Strategy.presented s).get? name =
      if isSyntheticName name then none else (s.get? name).map Term.unquoted := by
  rw [Strategy.presented, Solution.get?_mapTerms, Solution.get?_filterNames]
  cases isSyntheticName name <;> rfl

/-- What has been attached to a row is taken away again. -/
lemma presents_of_omitsSynthetic {conditions : List OrderCondition} {row s : Solution}
    (h : Ranking.OmitsSynthetic (Strategy.keysOf conditions)
      (Strategy.keyed conditions (Strategy.keysOf conditions) row) s) :
    Presents row (Strategy.presented s) := by
  intro name
  rw [get?_presented]
  cases hname : isSyntheticName name with
  | true => rfl
  | false =>
    have hkey : ¬ ∃ key ∈ Strategy.keysOf conditions, key.isSynthetic = true ∧ key.name = name := by
      rintro ⟨key, -, hsynthetic, rfl⟩
      rw [RankingKey.isSynthetic, hname] at hsynthetic
      cases hsynthetic
    rw [h name, if_neg hkey, Strategy.get?_keyed conditions hname]

/-! ## The two ways to a result -/

/-- A client that ranks retains the first rows of the sort, with the values attached. -/
lemma contents_merge {kind : StrategyKind} (hkind : kind.ranksOnClient = true) (limit : Nat)
    (conditions : List OrderCondition) (rows : List Solution) :
    ((Strategy.ofConditions kind limit conditions).merge rows).ranking.contents =
      ((rows.mergeSort (Strategy.byConditions conditions)).take limit).map
        (Strategy.keyed conditions (Strategy.keysOf conditions)) := by
  have hranking : ((Strategy.ofConditions kind limit conditions).merge rows).ranking =
      (Ranking.empty limit (Strategy.keysOf conditions)).offerAll
        (rows.map (Strategy.keyed conditions (Strategy.keysOf conditions))) := by
    exact Strategy.ranking_merge hkind rows
  rw [hranking, Ranking.contents_offerAll, Solution.ranked, List.map_take]
  congr 1
  refine (List.map_mergeSort ?_).symm
  intro a _ b _
  exact (Strategy.noWorse_keyed conditions a b).symm

/-- The results of a client that ranks. -/
lemma finish_of_ranksOnClient {kind : StrategyKind} (hkind : kind.ranksOnClient = true)
    (limit : Nat) (conditions : List OrderCondition) (rows : List Solution) :
    List.Forall₂ Presents ((rows.mergeSort (Strategy.byConditions conditions)).take limit)
      ((Strategy.ofConditions kind limit conditions).merge rows).finish := by
  set state := (Strategy.ofConditions kind limit conditions).merge rows with hstate
  have hranks : state.kind.ranksOnClient = true := by
    rw [hstate, Strategy.kind_merge]
    exact hkind
  have hkeys : state.ranking.keys = Strategy.keysOf conditions := by
    rw [hstate, Strategy.ranking_merge hkind]
    exact Ranking.keys_offerAll _ _
  have hresults := Ranking.forall₂_solutions state.ranking
  rw [hkeys, contents_merge hkind, List.forall₂_map_left_iff] at hresults
  rw [Strategy.finish, if_pos hranks, List.forall₂_map_right_iff]
  exact hresults.imp fun _ _ h => presents_of_omitsSynthetic h

/-- The results of a client that does not rank. -/
lemma finish_of_not_ranksOnClient {kind : StrategyKind} (hkind : kind.ranksOnClient = false)
    (limit : Nat) (conditions : List OrderCondition) (rows : List Solution) :
    List.Forall₂ Presents rows
      ((Strategy.ofConditions kind limit conditions).merge rows).finish := by
  have hpages : ((Strategy.ofConditions kind limit conditions).merge rows).finish =
      rows.map Strategy.presented := by
    simp [Strategy.finish, Strategy.merge, Strategy.ofConditions, hkind]
  rw [hpages, List.forall₂_map_right_iff, List.forall₂_same]
  exact fun row _ => get?_presented row

/-! ## The results of a run -/

/-- **The results of a run.** A strategy that ranks on the client returns as many rows as are
wanted, from the front of the stable sort of all rows received, by the terms that the conditions of
the query give them. A condition that does not read the field of an earlier one gives a row its own
field of that number, or else its value in the row as received. A strategy that leaves the ranking
to the service returns all rows as they came. Every row is returned without the fields of
conditions, and otherwise with its own fields, plain literals out of their quotes.

**Proof sketch.** The state at the end is that after one page with all rows (`rounds_eq_merge`). Its
ranking retains the first of the stable sort of the rows with the values attached
(`Ranking.contents_offerAll`), which is the sort by the terms (`Strategy.noWorse_keyed`); what has
been attached goes away again (`presents_of_omitsSynthetic`). -/
theorem run_solutions {kind : StrategyKind} {options : Options} {query : String}
    {replies : List Reply} {result : Outcome}
    (h : (run kind options query replies).result = .ok result) :
    ∃ limit, Query.wanted query options.limit = .ok limit ∧
      (kind ≠ .serverComputed → ∃ conditions, Query.orderConditions query = .ok conditions ∧
        List.Forall₂ Presents
          (((received replies).mergeSort (Strategy.byConditions conditions)).take limit)
          result.solutions ∧
        ∀ (row : Solution) (i : Nat) (c : OrderCondition), conditions[i]? = some c →
          (∀ j < i, c.variable? ≠ some (syntheticName j)) →
          (Strategy.keyTerms row 0 conditions)[i]? =
            some ((row.get? (syntheticName i)).or (c.eval? row))) ∧
      (kind = .serverComputed → List.Forall₂ Presents (received replies) result.solutions) := by
  obtain ⟨limit, conditions, ordered, text, final, total, hlimit, hordering, -, hrounds, rfl⟩ :=
    exists_of_run_eq_ok h
  have hfinal := rounds_eq_merge hrounds
  refine ⟨limit, hlimit, ?_, ?_⟩
  · intro hne
    have hkind : kind.ranksOnClient = true := by
      cases kind <;> first | rfl | exact absurd rfl hne
    refine ⟨conditions, orderConditions_of_ordering hkind hordering, ?_, ?_⟩
    · rw [hfinal]
      exact finish_of_ranksOnClient hkind limit conditions (received replies)
    · intro row i c hc hfree
      have hterm := Strategy.getElem?_keyTerms hc row 0 fun j _ hj => hfree j (by omega)
      rwa [Nat.zero_add] at hterm
  · rintro rfl
    rw [hfinal]
    exact finish_of_not_ranksOnClient rfl limit conditions (received replies)

/-- The two best of three rows in two pages, one of them freed of its quotes. -/
theorem run_solutions_of_two_pages :
    let query := "SELECT ?x WHERE \x7b ?s ?p ?x \x7d ORDER BY DESC(?x) LIMIT 2"
    let replies : List Reply :=
      [.ok "\x7b\"bindings\":[\x7b\"x\":\"1\"\x7d,\x7b\"x\":\"\\\"5\\\"\"\x7d],\"next\":\"t\"\x7d",
        .ok "\x7b\"bindings\":[\x7b\"x\":\"9\"\x7d],\"next\":null\x7d"]
    ∃ (result : Outcome) (conditions : List OrderCondition),
      (run .clientMerge ⟨"", none, none, none, true, false, false⟩ query replies).result =
        .ok result ∧
      result.solutions.map (·.bindings) = [[("x", "5")], [("x", "9")]] ∧
      Query.orderConditions query = .ok conditions ∧
      List.Forall₂ Presents
        (((received replies).mergeSort (Strategy.byConditions conditions)).take 2)
        result.solutions := by
  intro query replies
  have hrun : ((run .clientMerge ⟨"", none, none, none, true, false, false⟩ query
      replies).result.toOption.map fun result => result.solutions.map (·.bindings)) =
        some [[("x", "5")], [("x", "9")]] := by
    decide +kernel
  obtain ⟨result, hresult, hbindings⟩ := exists_of_toOption_map hrun
  obtain ⟨limit, hlimit, hranks, -⟩ := run_solutions hresult
  obtain ⟨conditions, hconditions, hsolutions, -⟩ := hranks (by decide)
  have htwo : Query.wanted query none = .ok 2 := by decide +kernel
  rw [htwo] at hlimit
  cases hlimit
  exact ⟨result, conditions, hresult, hbindings, hconditions, hsolutions⟩

/-- The terms that a row would rank by if every condition were evaluated in the row as received. -/
def ownTerms (conditions : List OrderCondition) (row : Solution) : List (Option String) :=
  conditions.mapIdx fun i c => (row.get? (syntheticName i)).or (c.eval? row)

/-- Whether a row would then rank as good as another one or better. -/
def byOwnTerms (conditions : List OrderCondition) (a b : Solution) : Bool :=
  (RankingKey.order (conditions.map (·.direction)) ((ownTerms conditions a).map SortValue.ofTerm)
    ((ownTerms conditions b).map SortValue.ofTerm)).isLE

/-- **A condition that reads the value of an earlier one.** Two rows tie by the first condition. In
the rows as received the variable of the second one is unbound, so they would tie for good and keep
their order; but it has the name of the field that the first value has been attached under. -/
theorem run_reads_earlier_key :
    let query :=
      "SELECT ?x WHERE \x7b ?s ?p ?x \x7d ORDER BY ?x STR(?__order_condition_0) LIMIT 2"
    let replies : List Reply :=
      [.ok "\x7b\"bindings\":[\x7b\"x\":\"5.0\"\x7d,\x7b\"x\":\"5\"\x7d],\"next\":null\x7d"]
    let conditions : List OrderCondition :=
      [⟨"?x", .ascending⟩, ⟨"STR(?__order_condition_0)", .ascending⟩]
    Query.wanted query none = .ok 2 ∧ Query.orderConditions query = .ok conditions ∧
    ∃ result : Outcome,
      (run .clientMerge ⟨"", none, none, none, true, false, false⟩ query replies).result =
        .ok result ∧
      ¬ List.Forall₂ Presents (((received replies).mergeSort (byOwnTerms conditions)).take 2)
        result.solutions := by
  intro query replies conditions
  refine ⟨by decide +kernel, by decide +kernel, ?_⟩
  have hrun : ((run .clientMerge ⟨"", none, none, none, true, false, false⟩ query
      replies).result.toOption.map (·.solutions)) =
        some [Solution.ofList [("x", "5")], Solution.ofList [("x", "5.0")]] := by
    decide +kernel
  have hrows : received replies =
      [Solution.ofList [("x", "5.0")], Solution.ofList [("x", "5")]] := by
    decide +kernel
  have htie : (received replies).Pairwise fun a b => byOwnTerms conditions a b := by
    rw [hrows]
    decide +kernel
  have hclaimed : ((received replies).mergeSort (byOwnTerms conditions)).take 2 =
      [Solution.ofList [("x", "5.0")], Solution.ofList [("x", "5")]] := by
    rw [List.mergeSort_of_pairwise htie, hrows]
    rfl
  obtain ⟨result, hresult, hsolutions⟩ := exists_of_toOption_map hrun
  refine ⟨result, hresult, ?_⟩
  rw [hclaimed, hsolutions]
  intro h
  cases h with
  | cons hfirst _ =>
    have hx := hfirst "x"
    exact absurd hx (by decide +kernel)

end Execution

end PagedTopK
