import PagedTopK.Proofs.Execution.Outcome
import PagedTopK.Proofs.Execution.Requests
import PagedTopK.Proofs.Query.Modifiers

set_option autoImplicit false

/-!
# Ranking on the client and on the service

The same query is run once by a client that ranks what the service streams, and once by a service
that ranks. Both order the same rows by the same conditions and return as many of them as are
wanted. But the client ranks the rows of a query without modifiers and puts back the order and the
limit only, so it returns the first rows also where the query asks to skip some.

## Main definitions

* `Execution.Streams` — replies that bring some rows, page by page.
* `Query.Modifiers.skipped` — how many rows a query asks to skip.

## Main results

* `Execution.run_of_streams` — a strategy that sends tokens back as they come has results.
* `Execution.client_and_service` — the rows that both return.
* `Execution.client_skips_nothing` — a query for which they differ.
-/

namespace PagedTopK

/-- **How many rows a query asks to skip.** -/
def Query.Modifiers.skipped (m : Query.Modifiers) : Nat :=
  m.slice.offset?.elim 0 fun o => Digits.value o.digits

namespace Execution

/-! ## Pages -/

/-- **Replies that bring some rows**, page by page, each but the last with a token. -/
inductive Streams : List Reply → List Solution → Prop
  /-- The last page has no token. What follows is not asked for. -/
  | last {raw : String} {response : Response} {rest : List Reply} :
    Response.parse raw = .ok response → response.next = none →
    Streams (.ok raw :: rest) response.bindings
  /-- A page with a token is followed by others. -/
  | page {raw token : String} {response : Response} {rest : List Reply} {rows : List Solution} :
    Response.parse raw = .ok response → response.next = some token → Streams rest rows →
    Streams (.ok raw :: rest) (response.bindings ++ rows)

/-- A strategy that does not send its bound sends tokens back as they come. -/
lemma nextToken_of_not_pushesThreshold {state : Strategy}
    (h : state.kind.pushesThreshold = false) (returned : Option String) :
    state.nextToken returned = .ok returned := by
  cases returned with
  | none => rfl
  | some token => rw [Strategy.nextToken, if_neg (by rw [h]; exact Bool.false_ne_true)]

/-- The rounds come to their end, with all rows merged. -/
lemma rounds_of_streams {replies : List Reply} {rows : List Solution} (h : Streams replies rows)
    {state : Strategy} (hkind : state.kind.pushesThreshold = false) (metrics : Metrics)
    (request : Request) :
    ∃ total, (rounds state metrics request replies).2 = .ok (state.merge rows, total) := by
  induction h generalizing state metrics request with
  | last hparse hnext =>
    simp only [rounds, hparse, hnext]
    exact ⟨_, rfl⟩
  | @page raw token response rest rows hparse hnext h ih =>
    have hmerged : (state.merge response.bindings).kind.pushesThreshold = false := by
      rw [Strategy.kind_merge, hkind]
    simp only [rounds, hparse, nextToken_of_not_pushesThreshold hmerged, hnext,
      Strategy.merge_append]
    exact ih hmerged _ _

/-- **A run that is streamed has results**, those of one page with all rows, and its requests all
have the query as it is sent. -/
theorem run_of_streams {kind : StrategyKind} {options : Options} {query text : String}
    {limit : Nat} {conditions : List OrderCondition} {ordered : Bool} {replies : List Reply}
    {rows : List Solution} (hkind : kind.pushesThreshold = false)
    (hlimit : Query.wanted query options.limit = .ok limit)
    (hordering : ordering kind query = .ok (conditions, ordered))
    (htext : Query.rewritten kind query limit = .ok text) (h : Streams replies rows) :
    (∃ result, (run kind options query replies).result = .ok result ∧
      result.solutions = ((Strategy.ofConditions kind limit conditions).merge rows).finish) ∧
    ∀ request ∈ (run kind options query replies).requests, request.query = text := by
  obtain ⟨total, htotal⟩ := rounds_of_streams h
    (show (Strategy.ofConditions kind limit conditions).kind.pushesThreshold = false from hkind)
    .none (firstRequest kind options text)
  unfold run
  simp only [hlimit, hordering, htext, htotal]
  refine ⟨⟨_, rfl, rfl⟩, fun request hrequest => ?_⟩
  rw [eq_of_mem_rounds hrequest]
  rfl

/-! ## Rows as they are returned -/

/-- A row is returned in one form only. -/
lemma eq_presented_of_presents {row out : Solution} (h : Presents row out) :
    out = Strategy.presented row :=
  Solution.ext_get? fun name => (h name).trans (get?_presented row name).symm

lemma eq_map_presented {rows outs : List Solution} (h : List.Forall₂ Presents rows outs) :
    outs = rows.map Strategy.presented := by
  have heq : List.Forall₂ (fun row out => Strategy.presented row = out) rows outs :=
    h.imp fun _ _ hrow => (eq_presented_of_presents hrow).symm
  rw [← List.forall₂_map_left_iff, List.forall₂_eq_eq_eq] at heq
  exact heq.symm

/-! ## Both runs -/

/-- What both runs settle first. -/
lemma settled (pattern : List Char) {m : Query.Modifiers} {clause : Query.OrderClause}
    {l : Query.LimitClause} (horder : m.order = some clause) (hlimit : m.slice.limit? = some l) :
    Query.wanted (Query.withTail pattern m) none = .ok (Digits.value l.digits) ∧
    ordering .clientMerge (Query.withTail pattern m) = .ok (clause.conditions, true) ∧
    ordering .serverComputed (Query.withTail pattern m) = .ok ([], true) := by
  have hconditions : m.conditions = clause.conditions := by
    rw [Query.Modifiers.conditions, horder, Option.elim_some]
  refine ⟨?_, ?_, ?_⟩
  · rw [Query.wanted]
    simp only [Query.limit?_withTail, Query.Modifiers.limit?, hlimit]
    rfl
  · have hne : clause.conditions.isEmpty = false := by
      rw [List.isEmpty_eq_false_iff]
      exact clause.conditions_ne
    have hranks : StrategyKind.clientMerge.ranksOnClient = true := rfl
    rw [ordering, if_pos hranks, Query.orderConditions_withTail, hconditions]
    change Except.ok (clause.conditions, !clause.conditions.isEmpty) = _
    rw [hne]
    rfl
  · have hhas : Query.hasOrderBy (Query.withTail pattern m) = true := by
      rw [Query.hasOrderBy, Query.tail_withTail, Query.Modifiers.search_orderBy horder]
      rfl
    rw [ordering, if_neg (by decide), hhas]

/-- A query that cannot be rewritten is refused. -/
lemma run_of_projectAll_error {kind : StrategyKind} {options : Options} {query : String}
    {limit : Nat} {conditions : List OrderCondition} {ordered : Bool} {refusal : QueryError}
    (hlimit : Query.wanted query options.limit = .ok limit)
    (hordering : ordering kind query = .ok (conditions, ordered))
    (h : Query.projectAll query = .error refusal) (replies : List Reply) :
    (run kind options query replies).result = .error (.malformedQuery refusal) := by
  have htext : Query.rewritten kind query limit = .error refusal := by
    rw [Query.rewritten, h]
    rfl
  unfold run
  simp only [hlimit, hordering, htext]
  rfl

/-- **What both strategies return** for a query with an order clause and a limit, if the client is
streamed some rows and the service returns those that the query asks for. Either both refuse the
query, or both have results. The client returns the first rows of the stable sort, whatever the
query asks to skip, so they agree on a query that skips nothing. Where the projection stands before
the modifiers, the client sends the query without them, and the service is sent the offset as well.

**Proof sketch.** Both settle the same limit, and the conditions are those of the order clause
(`Query.orderConditions_withTail`). A strategy that does not send its bound goes on to the last page
(`rounds_of_streams`). Then the client has the first rows of the sort (`finish_of_ranksOnClient`)
and the other one everything that it has received (`finish_of_not_ranksOnClient`). -/
theorem client_and_service (pattern : List Char) {m : Query.Modifiers} {clause : Query.OrderClause}
    {l : Query.LimitClause} (horder : m.order = some clause) (hlimit : m.slice.limit? = some l)
    {options : Options} (hoptions : options.limit = none) (rows : List Solution)
    {clientReplies serviceReplies : List Reply} (hclient : Streams clientReplies rows)
    (hservice : Streams serviceReplies
      (((rows.mergeSort (Strategy.byConditions clause.conditions)).drop m.skipped).take
        (Digits.value l.digits))) :
    let query := Query.withTail pattern m
    let sorted := rows.mergeSort (Strategy.byConditions clause.conditions)
    let byClient := run .clientMerge options query clientReplies
    let byService := run .serverComputed options query serviceReplies
    (∀ refusal, Query.projectAll query = .error refusal →
      byClient.result = .error (.malformedQuery refusal) ∧
      byService.result = .error (.malformedQuery refusal)) ∧
    ∀ all, Query.projectAll query = .ok all →
      (∃ first second : Outcome, byClient.result = .ok first ∧ byService.result = .ok second ∧
        first.solutions =
          (sorted.take (Digits.value l.digits)).map Strategy.presented ∧
        second.solutions =
          ((sorted.drop m.skipped).take (Digits.value l.digits)).map Strategy.presented ∧
        (m.skipped = 0 → first.solutions = second.solutions)) ∧
      ∀ head, all = Query.withTail head m →
        (∀ request ∈ byClient.requests, request.query = Query.headOf head) ∧
        ∃ changed : Query.Modifiers, changed.order = m.order ∧
          changed.slice.offset? = m.slice.offset? ∧
          ∀ request ∈ byService.requests, request.query = Query.withTail head changed := by
  intro query sorted byClient byService
  obtain ⟨hwanted, hforClient, hforService⟩ := settled pattern horder hlimit
  rw [← hoptions] at hwanted
  constructor
  · intro refusal hrefusal
    exact ⟨run_of_projectAll_error hwanted hforClient hrefusal _,
      run_of_projectAll_error hwanted hforService hrefusal _⟩
  · intro all hall
    have hclientText : Query.rewritten .clientMerge query (Digits.value l.digits) =
        .ok (Query.withoutModifiers all) := by
      rw [Query.rewritten, hall]
      rfl
    have hserviceText : Query.rewritten .serverComputed query (Digits.value l.digits) =
        .ok (Query.setLimit all (Digits.value l.digits)) := by
      rw [Query.rewritten, hall]
      rfl
    obtain ⟨⟨first, hfirst, hfirstRows⟩, hclientRequests⟩ :=
      run_of_streams rfl hwanted hforClient hclientText hclient
    obtain ⟨⟨second, hsecond, hsecondRows⟩, hserviceRequests⟩ :=
      run_of_streams rfl hwanted hforService hserviceText hservice
    have hfirstSolutions := hfirstRows.trans
      (eq_map_presented (finish_of_ranksOnClient rfl _ clause.conditions rows))
    have hsecondSolutions := hsecondRows.trans
      (eq_map_presented (finish_of_not_ranksOnClient rfl _ [] _))
    refine ⟨⟨first, second, hfirst, hsecond, hfirstSolutions, hsecondSolutions, fun hskipped => ?_⟩,
      ?_⟩
    · rw [hfirstSolutions, hsecondSolutions, hskipped, List.drop_zero]
    · rintro head rfl
      refine ⟨fun request hrequest => ?_, m.withLimit (.plain _ l.value_lt), rfl,
        m.slice.withLimit_offset? _, fun request hrequest => ?_⟩
      · rw [hclientRequests request hrequest]
        exact (Query.withoutModifiers_withTail head m).1 (.inl (by simp [horder]))
      · rw [hserviceRequests request hrequest]
        exact Query.setLimit_withTail head m l.value_lt

/-! ## A query that skips a row -/

/-- The order of rows by `?x`. -/
def byX : Query.OrderClause where
  first := "ORDER".toList
  gap := Query.Gap.single
  second := "BY".toList
  conditions := [⟨"?x", .ascending⟩]
  body := ' ' :: "?x".toList
  spelled_first := by decide
  spelled_second := Query.spelled_by
  conditions_ne := List.cons_ne_nil _ _
  written := by
    have hx : OrderCondition.Written ⟨"?x", .ascending⟩ "?x".toList :=
      @OrderCondition.Written.bare '?' "x".toList (.inl rfl) (by decide)
        (List.all_eq_true.1 (by decide))
    exact .blank (by decide) (.single hx)
  ascii := by decide
  boundary_body := by decide
  ends := by
    intro c hc
    cases hc
    decide

/-- The second of the rows by `?x`. -/
def secondRow : Query.Modifiers where
  lead := Query.Gap.single.toSpaces
  order := some byX
  gap := Query.Gap.single.toSpaces
  slice := .limitOffset (.plain 1 (by decide)) Query.Gap.single
    { word := "OFFSET".toList
      gap := Query.Gap.single
      digits := ['1']
      spelled := by decide
      digits_ne := List.cons_ne_nil _ _
      forall_isDigit := List.all_eq_true.1 (by decide) }
  trail := Query.Spaces.none
  separated := fun _ _ => Query.Gap.single.text_ne

/-- Two rows, in this order. -/
def rowsByX : List Solution := [Solution.ofList [("x", "1")], Solution.ofList [("x", "2")]]

/-- The only page with these rows. -/
def pageOfBoth : String :=
  "\x7b\"bindings\":[\x7b\"x\":\"1\"\x7d,\x7b\"x\":\"2\"\x7d],\"next\":null\x7d"

/-- The only page with the second of them. -/
def pageOfSecond : String := "\x7b\"bindings\":[\x7b\"x\":\"2\"\x7d],\"next\":null\x7d"

lemma streams_pageOfBoth : Streams [.ok pageOfBoth] rowsByX := by
  have hparse : Response.parse pageOfBoth = .ok ⟨rowsByX, none, .none⟩ :=
    toOption_eq_some_iff.1 (by decide +kernel)
  exact .last hparse rfl

lemma streams_pageOfSecond :
    Streams [.ok pageOfSecond] ((rowsByX.drop secondRow.skipped).take 1) := by
  have hparse : Response.parse pageOfSecond =
      .ok ⟨(rowsByX.drop secondRow.skipped).take 1, none, .none⟩ :=
    toOption_eq_some_iff.1 (by decide +kernel)
  exact .last hparse rfl

/-- Both rows are in order as they come. -/
lemma mergeSort_rowsByX :
    rowsByX.mergeSort (Strategy.byConditions byX.conditions) = rowsByX := by
  have horder : rowsByX.Pairwise fun a b => Strategy.byConditions byX.conditions a b = true := by
    decide +kernel
  exact List.mergeSort_of_pairwise horder

/-- Both strategies have results for the second of two rows. -/
theorem client_and_service_of_secondRow :
    let query := Query.withTail "SELECT ?x WHERE \x7b ?s ?p ?x ".toList secondRow
    let options : Options := ⟨"", none, none, none, true, false, false⟩
    Streams [.ok pageOfBoth] rowsByX ∧
    Streams [.ok pageOfSecond] ((rowsByX.drop secondRow.skipped).take 1) ∧
    ∃ first second : Outcome,
      (run .clientMerge options query [.ok pageOfBoth]).result = .ok first ∧
      (run .serverComputed options query [.ok pageOfSecond]).result = .ok second ∧
      first.solutions = (rowsByX.take 1).map Strategy.presented ∧
      second.solutions =
        ((rowsByX.drop secondRow.skipped).take 1).map Strategy.presented := by
  intro query options
  have horder : secondRow.order = some byX := rfl
  have hlimit : secondRow.slice.limit? = some (.plain 1 (by decide)) := rfl
  have hservice : Streams [.ok pageOfSecond]
      (((rowsByX.mergeSort (Strategy.byConditions byX.conditions)).drop secondRow.skipped).take
        1) := by
    rw [mergeSort_rowsByX]
    exact streams_pageOfSecond
  obtain ⟨-, hruns⟩ := client_and_service "SELECT ?x WHERE \x7b ?s ?p ?x ".toList horder hlimit
    (show options.limit = none from rfl) rowsByX streams_pageOfBoth hservice
  have hall : Query.projectAll query =
      .ok "SELECT * WHERE \x7b ?s ?p ?x \x7d ORDER BY ?x LIMIT 1 OFFSET 1" :=
    toOption_eq_some_iff.1 (by decide +kernel)
  obtain ⟨⟨first, second, hfirst, hsecond, hfirstRows, hsecondRows, -⟩, -⟩ := hruns _ hall
  rw [mergeSort_rowsByX] at hfirstRows hsecondRows
  exact ⟨streams_pageOfBoth, streams_pageOfSecond, first, second, hfirst, hsecond, hfirstRows,
    hsecondRows⟩

/-- **The client skips nothing.** Of two rows the query asks for the second one. The service returns
it, but the client returns the first one. -/
theorem client_skips_nothing :
    let query := "SELECT ?x WHERE \x7b ?s ?p ?x \x7d ORDER BY ?x LIMIT 1 OFFSET 1"
    let options : Options := ⟨"", none, none, none, true, false, false⟩
    query = Query.withTail "SELECT ?x WHERE \x7b ?s ?p ?x ".toList secondRow ∧
    Streams [.ok pageOfBoth] rowsByX ∧
    Streams [.ok pageOfSecond]
      (((rowsByX.mergeSort (Strategy.byConditions byX.conditions)).drop secondRow.skipped).take
        1) ∧
    (run .clientMerge options query [.ok pageOfBoth]).result.toOption.map (·.solutions) =
      some [Solution.ofList [("x", "1")]] ∧
    (run .serverComputed options query [.ok pageOfSecond]).result.toOption.map (·.solutions) =
      some [Solution.ofList [("x", "2")]] := by
  intro query options
  refine ⟨by decide +kernel, streams_pageOfBoth, ?_, by decide +kernel, by decide +kernel⟩
  rw [mergeSort_rowsByX]
  exact streams_pageOfSecond

end Execution

end PagedTopK
