import PagedTopK.Proofs.Execution.Outcome

set_option autoImplicit false

/-!
# Where pages end

The solutions of a run depend on the rows that it receives and on nothing else that the service
sends: not on how the rows are split into pages, nor on the tokens and the times between them. The
strategies that rank on the client differ in what they send back only, so that all of them make the
same of the same rows.

## Main results

* `Execution.solutions_of_same_rows` — two runs that receive the same rows have the same solutions.
-/

namespace PagedTopK

/-! ## What a strategy makes of rows -/

/-- What is made of rows depends on who ranks, not on what is sent back. -/
lemma Strategy.finish_merge_congr {kind other : StrategyKind}
    (hkind : kind.ranksOnClient = other.ranksOnClient) (limit : Nat)
    (conditions : List OrderCondition) (rows : List Solution) :
    ((ofConditions kind limit conditions).merge rows).finish =
      ((ofConditions other limit conditions).merge rows).finish := by
  have hranks : ∀ k, ((ofConditions k limit conditions).merge rows).kind.ranksOnClient =
      k.ranksOnClient := by
    intro k
    rw [kind_merge]
    rfl
  cases h : other.ranksOnClient with
  | true =>
    have hranking : ((ofConditions kind limit conditions).merge rows).ranking =
        ((ofConditions other limit conditions).merge rows).ranking := by
      rw [ranking_merge (show (ofConditions kind limit conditions).kind.ranksOnClient = true from
          hkind.trans h),
        ranking_merge (show (ofConditions other limit conditions).kind.ranksOnClient = true from h)]
      rfl
    rw [finish, finish, hranks, hranks, hkind, h, if_pos rfl, if_pos rfl, hranking]
  | false =>
    rw [finish, finish, hranks, hranks, hkind, h]
    simp [merge, ofConditions, hkind, h]

namespace Execution

/-- Whether a query can be ranked by depends on who ranks only. -/
lemma ordering_congr {kind other : StrategyKind}
    (hkind : kind.ranksOnClient = other.ranksOnClient) (query : String) :
    ordering kind query = ordering other query := by
  rw [ordering, ordering, hkind]

/-! ## Two runs -/

/-- **Two runs that receive the same rows have the same solutions**, if they ask for as many of them
and both or neither rank on the client. How the rows are split into pages, which tokens and times
come with them, and what the requests say besides makes no difference.

**Proof sketch.** Either run has settled the same number of results and the same conditions, and
ends in the state that one page with all rows leads to (`rounds_eq_merge`). What that state makes of
them depends on who ranks only (`Strategy.finish_merge_congr`). -/
theorem solutions_of_same_rows {kind other : StrategyKind} {options options' : Options}
    {query : String} {replies replies' : List Reply} {result result' : Outcome}
    (hkind : kind.ranksOnClient = other.ranksOnClient) (hlimit : options.limit = options'.limit)
    (hrows : received replies = received replies')
    (h : (run kind options query replies).result = .ok result)
    (h' : (run other options' query replies').result = .ok result') :
    result.solutions = result'.solutions := by
  obtain ⟨limit, conditions, ordered, text, final, total, hwanted, hordering, -, hrounds, rfl⟩ :=
    exists_of_run_eq_ok h
  obtain ⟨limit', conditions', ordered', text', final', total', hwanted', hordering', -, hrounds',
    rfl⟩ := exists_of_run_eq_ok h'
  rw [hlimit, hwanted'] at hwanted
  rw [ordering_congr hkind, hordering'] at hordering
  cases hwanted
  cases hordering
  calc final.finish
      = ((Strategy.ofConditions kind limit conditions).merge (received replies)).finish := by
        rw [rounds_eq_merge hrounds]
    _ = ((Strategy.ofConditions other limit conditions).merge (received replies')).finish := by
        rw [hrows, Strategy.finish_merge_congr hkind]
    _ = final'.finish := by rw [rounds_eq_merge hrounds']

/-- Three rows in one page for a client that keeps its bound to itself, and in three pages, one of
them empty, for a client that puts its bound into the token on the way. -/
theorem solutions_of_same_rows_in_three_pages :
    let query := "SELECT ?x WHERE \x7b ?s ?p ?x \x7d ORDER BY DESC(?x) LIMIT 2"
    let options : Options := ⟨"", none, none, none, true, false, false⟩
    let whole : List Reply :=
      [.ok "\x7b\"bindings\":[\x7b\"x\":\"1\"\x7d,\x7b\"x\":\"5\"\x7d,\x7b\"x\":\"9\"\x7d],\"next\":null\x7d"]
    let split : List Reply :=
      [.ok "\x7b\"bindings\":[\x7b\"x\":\"1\"\x7d,\x7b\"x\":\"5\"\x7d],\"next\":\"eyJyb290Ijp7InR5cGUiOiJ0b3BfayJ9fQ==\"\x7d",
        .ok "\x7b\"bindings\":[],\"next\":\"eyJyb290Ijp7InR5cGUiOiJ0b3BfayJ9fQ==\",\"stats\":\x7b\"saving_time\":3\x7d\x7d",
        .ok "\x7b\"bindings\":[\x7b\"x\":\"9\"\x7d],\"next\":null\x7d"]
    ∃ result result' : Outcome, (run .clientMerge options query whole).result = .ok result ∧
      (run .collaborativeThreshold options query split).result = .ok result' ∧
      (run .collaborativeThreshold options query split).requests.length = 3 ∧
      result.solutions = result'.solutions ∧
      result.solutions = [Solution.ofList [("x", "9")], Solution.ofList [("x", "5")]] := by
  intro query options whole split
  have hwhole : ((run .clientMerge options query whole).result.toOption.map (·.solutions)) =
      some [Solution.ofList [("x", "9")], Solution.ofList [("x", "5")]] := by
    decide +kernel
  have hsplit : ((run .collaborativeThreshold options query split).result.toOption.map
      (·.solutions)) = some [Solution.ofList [("x", "9")], Solution.ofList [("x", "5")]] := by
    decide +kernel
  have hthree : (run .collaborativeThreshold options query split).requests.length = 3 := by
    decide +kernel
  have hfirst : received whole = [Solution.ofList [("x", "1")], Solution.ofList [("x", "5")],
      Solution.ofList [("x", "9")]] := by
    decide +kernel
  have hsecond : received split = [Solution.ofList [("x", "1")], Solution.ofList [("x", "5")],
      Solution.ofList [("x", "9")]] := by
    decide +kernel
  obtain ⟨result, hresult, hsolutions⟩ := exists_of_toOption_map hwhole
  obtain ⟨result', hresult', -⟩ := exists_of_toOption_map hsplit
  have hkind : StrategyKind.clientMerge.ranksOnClient =
      StrategyKind.collaborativeThreshold.ranksOnClient := rfl
  exact ⟨result, result', hresult, hresult', hthree,
    solutions_of_same_rows hkind rfl (hfirst.trans hsecond.symm) hresult hresult', hsolutions⟩

end Execution

end PagedTopK
