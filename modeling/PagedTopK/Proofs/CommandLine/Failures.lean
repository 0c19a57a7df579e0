import PagedTopK.CommandLine.Run
import PagedTopK.Proofs.Execution.Failures

set_option autoImplicit false

/-!
# Failures of a command

An execution is fail-stop: what is wrong with the query is found before anything is sent, what is
wrong with a round ends the execution in that round, and of an execution that fails nothing is
written and nothing is printed.

## Main results

* `CommandLine.executeQuery_of_failure` — what a command leaves behind if its execution fails.
* `CommandLine.execution_is_failStop` — executions are fail-stop.
-/

namespace PagedTopK.CommandLine

open Execution (Refused Settled FirstFailure run)

/-- A command whose execution fails writes no file and prints no report, over any transport. -/
lemma executeQuery_of_failure {world : World} {arguments : RunArguments} {ready : Preparation}
    {failure : Failure} (hready : prepare world arguments = .ok ready)
    (hfailure : (run ready.kind ready.options ready.query
      (world.transport.replies ready.client)).result = .error failure) :
    (executeQuery world arguments).result =
        .error (.execution (Report.queryName arguments.queryFile) ready.kind failure) ∧
      (executeQuery world arguments).printed = "" ∧
      (executeQuery world arguments).written = [] := by
  unfold executeQuery
  simp only [hready, hfailure, and_self]

/-- **Executions are fail-stop.** A query without a limit that can be read, without order conditions
that a ranking client can read, or without a projection is refused, and nothing is sent. Any other
query is sent, and the run fails exactly in the first round that brings a failure, with that
failure: there is one request for this round and for each one before it, and the replies after it
make no difference. There is at most one request more than there are replies. Whatever a transport
brings back, of an execution that fails a command writes no file and prints no report.

**Proof sketch.** A query that is not refused is settled (`Execution.exists_settled`), and the
rounds of the run stop in some round (`Execution.exists_stopsAt`). All rounds before it go on, so
that no other one can be the first with a failure (`Execution.StopsAt.error_iff`). The last part
needs no more of the replies than that the run over them fails (`executeQuery_of_failure`). -/
theorem execution_is_failStop (kind : StrategyKind) (options : Options) (query : String)
    (replies : List Reply) :
    (∀ refusal, Refused kind options query refusal →
      (run kind options query replies).requests = [] ∧
      (run kind options query replies).result = .error (.malformedQuery refusal)) ∧
    ((∀ refusal, ¬ Refused kind options query refusal) →
      ∃ limit conditions text, Settled kind options query limit conditions text ∧
        (run kind options query replies).requests ≠ [] ∧
        (∀ i failure, (run kind options query replies).result = .error failure ∧
            (run kind options query replies).requests.length = i + 1 ↔
          FirstFailure kind limit conditions replies i failure) ∧
        ((run kind options query replies).requests.length ≤ replies.length → ∀ others,
          run kind options query
              (replies.take (run kind options query replies).requests.length ++ others) =
            run kind options query replies)) ∧
    (run kind options query replies).requests.length ≤ replies.length + 1 ∧
    ∀ (world : World) (arguments : RunArguments) (ready : Preparation) (failure : Failure),
      prepare world arguments = .ok ready →
      (run ready.kind ready.options ready.query
        (world.transport.replies ready.client)).result = .error failure →
      (executeQuery world arguments).result =
          .error (.execution (Report.queryName arguments.queryFile) ready.kind failure) ∧
        (executeQuery world arguments).printed = "" ∧
        (executeQuery world arguments).written = [] := by
  refine ⟨fun refusal h => Execution.run_of_refused h replies, fun h => ?_, ?_,
    fun world arguments ready failure => executeQuery_of_failure⟩
  · obtain ⟨limit, conditions, text, n, hsettled, hlength, -, hfailure, hlater⟩ :=
      Execution.run_stops h replies
    refine ⟨limit, conditions, text, hsettled, List.ne_nil_of_length_eq_add_one hlength,
      fun i failure => ?_, fun hle => ?_⟩
    · rw [← hfailure i failure, hlength, Nat.add_right_cancel_iff]
    · rw [hlength] at hle ⊢
      exact hlater hle
  · by_cases h : ∃ refusal, Refused kind options query refusal
    · obtain ⟨refusal, hrefusal⟩ := h
      rw [(Execution.run_of_refused hrefusal replies).1]
      exact Nat.zero_le _
    · obtain ⟨limit, conditions, text, n, -, hlength, hle, -⟩ :=
        Execution.run_stops (not_exists.1 h) replies
      rw [hlength]
      exact Nat.succ_le_succ hle

end PagedTopK.CommandLine
