import Mathlib.Tactic.Lemma
import PagedTopK.Execution.Run
import PagedTopK.Proofs.Ranking.Best

set_option autoImplicit false

/-!
# What the rounds of an execution amount to

However the solutions are split into pages, an execution that comes to its end is in the state that
one page with all of them leads to.

## Main definitions

* `Execution.received` — the solutions of all responses up to the last one.

## Main results

* `Execution.rounds_eq_merge` — the state at the end of the rounds.
* `Execution.exists_of_run_eq_ok` — what a run with results has gone through.
-/

namespace PagedTopK

/-! ## Pages -/

namespace Strategy

lemma kind_merge (state : Strategy) (bindings : List Solution) :
    (state.merge bindings).kind = state.kind := by
  unfold merge
  split <;> rfl

/-- A client that ranks offers the rows of a page with the values of the conditions attached. -/
lemma ranking_merge {state : Strategy} (h : state.kind.ranksOnClient = true)
    (bindings : List Solution) :
    (state.merge bindings).ranking =
      state.ranking.offerAll (bindings.map (keyed state.conditions state.ranking.keys)) := by
  rw [merge, if_pos h]

/-- Two pages lead to the same state as one page with the solutions of both. -/
lemma merge_append (state : Strategy) (first second : List Solution) :
    state.merge (first ++ second) = (state.merge first).merge second := by
  cases h : state.kind.ranksOnClient with
  | true =>
    simp only [merge, h, if_true, List.map_append, Ranking.offerAll_append, Ranking.keys_offerAll]
  | false => simp [merge, h]

/-- A page without solutions changes nothing. -/
lemma merge_nil (state : Strategy) : state.merge [] = state := by
  cases h : state.kind.ranksOnClient with
  | true =>
    rw [merge, if_pos h]
    rfl
  | false => simp [merge, h]

/-- The service is done exactly if there is no token to send. -/
lemma nextToken_eq_none {state : Strategy} {returned : Option String}
    (h : state.nextToken returned = .ok none) : returned = none := by
  cases returned with
  | none => rfl
  | some token =>
    rw [nextToken] at h
    split at h
    · split at h
      · next bound _ =>
        cases htoken : Continuation.withThreshold token bound <;> rw [htoken] at h <;> cases h
      · cases h
    · cases h

lemma nextToken_eq_some {state : Strategy} {returned : Option String} {token : String}
    (h : state.nextToken returned = .ok (some token)) : ∃ own, returned = some own := by
  cases returned with
  | none => cases h
  | some own => exact ⟨own, rfl⟩

end Strategy

namespace Execution

/-! ## The rounds -/

/-- **The solutions of all responses** up to the first one without a token. -/
def received : List Reply → List Solution
  | [] => []
  | .error _ :: _ => []
  | .ok raw :: rest =>
    match Response.parse raw with
    | .error _ => []
    | .ok response =>
      match response.next with
      | none => response.bindings
      | some _ => response.bindings ++ received rest

/-- **At the end of the rounds** the state is the one that a single page with all solutions leads
to.

**Proof sketch.** Induction on the replies. Each round merges its page into the state, and two
merges in a row are one merge of both pages (`Strategy.merge_append`). -/
theorem rounds_eq_merge {state final : Strategy} {metrics total : Metrics} {request : Request}
    {replies : List Reply} (h : (rounds state metrics request replies).2 = .ok (final, total)) :
    final = state.merge (received replies) := by
  induction replies generalizing state metrics request with
  | nil => cases h
  | cons reply rest ih =>
    cases reply with
    | error fault => cases h
    | ok raw =>
      cases hparse : Response.parse raw with
      | error fault =>
        simp only [rounds, hparse] at h
        cases h
      | ok response =>
        simp only [rounds, hparse] at h
        simp only [received, hparse]
        cases hnext : (state.merge response.bindings).nextToken response.next with
        | error fault =>
          simp only [hnext] at h
          cases h
        | ok token? =>
          cases token? with
          | none =>
            simp only [hnext] at h
            cases h
            rw [Strategy.nextToken_eq_none hnext]
          | some token =>
            simp only [hnext] at h
            obtain ⟨own, hown⟩ := Strategy.nextToken_eq_some hnext
            rw [hown, ih h, Strategy.merge_append]

/-! ## Runs -/

/-- **A run with results** has settled the number of results and the conditions, and has come to
the end of its rounds. -/
theorem exists_of_run_eq_ok {kind : StrategyKind} {options : Options} {query : String}
    {replies : List Reply} {result : Outcome}
    (h : (run kind options query replies).result = .ok result) :
    ∃ (limit : Nat) (conditions : List OrderCondition) (ordered : Bool) (text : String)
      (final : Strategy) (total : Metrics),
      Query.wanted query options.limit = .ok limit ∧
      ordering kind query = .ok (conditions, ordered) ∧
      Query.rewritten kind query limit = .ok text ∧
      (rounds (.ofConditions kind limit conditions) .none (firstRequest kind options text)
        replies).2 = .ok (final, total) ∧
      result = outcome final total := by
  unfold run at h
  cases hlimit : Query.wanted query options.limit with
  | error refusal =>
    rw [hlimit] at h
    cases h
  | ok limit =>
    rw [hlimit] at h
    cases hordering : ordering kind query with
    | error refusal =>
      rw [hordering] at h
      cases h
    | ok settled =>
      obtain ⟨conditions, ordered⟩ := settled
      rw [hordering] at h
      cases htext : Query.rewritten kind query limit with
      | error refusal =>
        simp only [htext] at h
        cases h
      | ok text =>
        simp only [htext] at h
        cases hrounds : (rounds (.ofConditions kind limit conditions) .none
            (firstRequest kind options text) replies).2 with
        | error failure =>
          rw [hrounds] at h
          cases h
        | ok done =>
          obtain ⟨final, total⟩ := done
          rw [hrounds] at h
          cases h
          exact ⟨limit, conditions, ordered, text, final, total, rfl, rfl, htext, hrounds, rfl⟩

/-- The conditions of a client that ranks are those of the query. -/
lemma orderConditions_of_ordering {kind : StrategyKind} {query : String}
    {conditions : List OrderCondition} {ordered : Bool} (hkind : kind.ranksOnClient = true)
    (h : ordering kind query = .ok (conditions, ordered)) :
    Query.orderConditions query = .ok conditions := by
  rw [ordering, if_pos hkind] at h
  cases hconditions : Query.orderConditions query with
  | error refusal =>
    rw [hconditions] at h
    cases h
  | ok own =>
    rw [hconditions] at h
    cases h
    rfl

end Execution

end PagedTopK
