import PagedTopK.Execution.Run
import PagedTopK.Proofs.Except
import PagedTopK.Proofs.Query.Search

set_option autoImplicit false

/-!
# Queries without an order

A client that ranks reads the order conditions of a query; one that does not only looks whether
there is an order clause. Both learn the same from any text, because a clause without a single
condition is a fault and not an empty list. So every strategy is warned of the same queries.

## Main definitions

* `Query.asksForOrder` — whether there is an order clause, told by its conditions.

## Main results

* `Query.hasOrderBy_eq_asksForOrder` — looking for the clause and reading it agree.
* `Execution.warnings_run` — what a run warns of.
* `Execution.warnings_of_missing_order` — every strategy is warned of the same queries.
-/

namespace PagedTopK

/-! ## The order clause -/

namespace Query

/-- **Whether a query asks for an order**, told by its conditions: it does not only if there are
none. One whose clause is not understood does. -/
def asksForOrder (query : String) : Bool :=
  match orderConditions query with
  | .ok [] => false
  | _ => true

variable {query : String}

/-- Only a query without an order clause has no conditions: what is read of a clause is a fault or
at least one condition. -/
lemma orderConditions_eq_ok_nil_iff :
    orderConditions query = .ok [] ↔ search orderBy (tail query) = none := by
  rw [orderConditions]
  split
  · next hsearch => exact iff_of_true rfl hsearch
  · next place clause hsearch =>
    refine iff_of_false (fun hnil => ?_) (by rw [hsearch]; exact nofun)
    split at hnil
    · cases hnil
    · next hne => exact hne hnil

lemma asksForOrder_eq_false_iff : asksForOrder query = false ↔ orderConditions query = .ok [] := by
  unfold asksForOrder
  split
  · next hnil => exact iff_of_true rfl hnil
  · next hne => exact iff_of_false Bool.noConfusion hne

lemma hasOrderBy_eq_false_iff : hasOrderBy query = false ↔ search orderBy (tail query) = none := by
  rw [hasOrderBy, Option.isSome_eq_false_iff, Option.isNone_iff_eq_none]

/-- **Looking for the order clause and reading it agree** on every text. -/
theorem hasOrderBy_eq_asksForOrder (query : String) : hasOrderBy query = asksForOrder query := by
  rw [Bool.eq_iff_iff, ← not_iff_not, Bool.not_eq_true, Bool.not_eq_true, hasOrderBy_eq_false_iff,
    asksForOrder_eq_false_iff, orderConditions_eq_ok_nil_iff]

end Query

/-! ## Warnings -/

namespace Execution

/-- What a client is told of the order does not depend on whether it ranks. -/
lemma ordered_of_ordering {kind : StrategyKind} {query : String}
    {conditions : List OrderCondition} {ordered : Bool}
    (h : ordering kind query = .ok (conditions, ordered)) : ordered = Query.hasOrderBy query := by
  rw [ordering] at h
  split at h
  · obtain ⟨own, hown, hpair⟩ := map_eq_ok_iff.1 h
    obtain ⟨rfl, rfl⟩ := Prod.mk.inj hpair
    rw [Query.hasOrderBy_eq_asksForOrder, Query.asksForOrder, hown]
    cases own <;> rfl
  · cases h
    rfl

/-- A query that a ranking client refuses for its conditions has an order clause. -/
lemma hasOrderBy_of_ordering_error {kind : StrategyKind} {query : String} {fault : QueryError}
    (h : ordering kind query = .error fault) : Query.hasOrderBy query = true := by
  rw [ordering] at h
  split at h
  · rw [Query.hasOrderBy_eq_asksForOrder, Query.asksForOrder, map_eq_error_iff.1 h]
  · cases h

/-- **What a run warns of**: a query whose number of results is settled and that has no order
clause. -/
theorem warnings_run (kind : StrategyKind) (options : Options) (query : String)
    (replies : List Reply) :
    (run kind options query replies).warnings =
      if (Query.wanted query options.limit).toOption.isSome && !Query.hasOrderBy query then
        [.unordered]
      else [] := by
  unfold run
  cases Query.wanted query options.limit with
  | error fault => rfl
  | ok limit =>
    cases hordering : ordering kind query with
    | error fault =>
      rw [hasOrderBy_of_ordering_error hordering]
      rfl
    | ok settled =>
      obtain ⟨conditions, ordered⟩ := settled
      rw [← ordered_of_ordering hordering]
      have hwarnings : (if ordered then [] else [Warning.unordered]) =
          if (Except.ok limit : Except QueryError Nat).toOption.isSome && !ordered then
            [.unordered]
          else [] := by
        cases ordered <;> rfl
      cases htext : Query.rewritten kind query limit with
      | error fault => simpa only [htext, refused] using hwarnings
      | ok text => simpa only [htext] using hwarnings

/-- **Every strategy is warned of the same queries.** Whether a query has an order clause is the
same as whether reading its conditions gives any or fails. A run warns at most once, and does so
exactly if the number of results is settled and `ORDER BY` stands nowhere behind the last brace;
neither the strategy nor what the service replies makes a difference, even for a query that some
strategies refuse.

**Proof sketch.** A clause without conditions is refused, so that there are none only without a
clause (`Query.orderConditions_eq_ok_nil_iff`). A client that ranks is told the order by the
conditions and any other by the clause, which is the same (`ordered_of_ordering`); a query that is
refused for its conditions has a clause and would not be warned of either
(`hasOrderBy_of_ordering_error`). -/
theorem warnings_of_missing_order :
    (∀ query : String, Query.hasOrderBy query = Query.asksForOrder query) ∧
    ∀ (kind : StrategyKind) (options : Options) (query : String) (replies : List Reply),
      ((run kind options query replies).warnings = [.unordered] ∨
        (run kind options query replies).warnings = []) ∧
      ((run kind options query replies).warnings = [.unordered] ↔
        (∃ limit, Query.wanted query options.limit = .ok limit) ∧
        ∀ front back, Query.tail query = front ++ back →
          Query.orderBy front.getLast? back = none) ∧
      ∀ (other : StrategyKind) (others : List Reply),
        (run other options query others).warnings = (run kind options query replies).warnings := by
  refine ⟨Query.hasOrderBy_eq_asksForOrder, fun kind options query replies => ⟨?_, ?_, ?_⟩⟩
  · rw [warnings_run]
    split
    · exact .inl rfl
    · exact .inr rfl
  · rw [warnings_run, ← Query.search_eq_none_iff, ← Query.hasOrderBy_eq_false_iff]
    cases Query.wanted query options.limit with
    | error fault => simp [Except.toOption]
    | ok limit => simp [Except.toOption]
  · intro other others
    rw [warnings_run, warnings_run]

end Execution

end PagedTopK
