import Mathlib.Algebra.GroupWithZero.Nat
import PagedTopK.Proofs.Except
import PagedTopK.Proofs.Execution.Rounds

set_option autoImplicit false

/-!
# What an execution has cost

Byte counts stay at the greatest 64-bit number once they reach it. The size of one round is a
saturated sum as well, yet the total is the sum of all sizes, saturated once: it depends neither on
the order of the rounds nor on the place where a sum first reaches the bound. An execution counts
every round once, after its response has been understood.

## Main definitions

* `Metrics.Step`, `Metrics.afterAll` — what is recorded, and the metrics after it.
* `Execution.Exchange` — a request and the response to it.

## Main results

* `Metrics.dataTransfer_afterAll`, `Metrics.httpCalls_afterAll` — the counts after any steps.
* `Execution.exists_exchanges`, `Execution.exists_exchanges_of_run` — what the rounds of an
  execution record.
* `Execution.metrics_count_rounds` — the counts of all steps and of an execution with results.
-/

namespace PagedTopK

namespace Metrics

/-! ## Steps -/

/-- **One thing that is recorded.** -/
inductive Step where
  /-- A round, by the sizes of the request and the response. -/
  | round (sent received : Nat) (stats : ServiceStats)
  /-- The number of solutions. -/
  | solutions (count : Nat)
  /-- The time of the execution. -/
  | time (seconds nanoseconds : Nat)

/-- The metrics after one more step. -/
def after (m : Metrics) : Step → Metrics
  | .round sent received stats => m.afterRound sent received stats
  | .solutions count => m.withSolutions count
  | .time seconds nanoseconds => m.withTime seconds nanoseconds

/-- **The metrics after steps**, one after the other. -/
def afterAll (m : Metrics) (steps : List Step) : Metrics := steps.foldl after m

/-- The bytes of a round. -/
def Step.bytes : Step → Nat
  | round sent received _ => sent + received
  | solutions _ | time .. => 0

/-- Whether a step is a round. -/
def Step.isRound : Step → Bool
  | round .. => true
  | _ => false

lemma saturatingAdd_eq_min (a b : Nat) : saturatingAdd a b = min (Digits.word64 - 1) (a + b) :=
  Nat.min_comm _ _

/-- **A sum of two bounded sums meets the bound as the whole sum does.** -/
lemma min_add_min (greatest a b : Nat) :
    min greatest (min greatest a + min greatest b) = min greatest (a + b) := by
  omega

variable {m : Metrics} {n : Nat}

/-- One more step adds its bytes to a saturated sum. -/
lemma dataTransfer_after (h : m.dataTransfer = min (Digits.word64 - 1) n) (step : Step) :
    (m.after step).dataTransfer = min (Digits.word64 - 1) (n + step.bytes) := by
  cases step with
  | round sent received stats =>
    show saturatingAdd m.dataTransfer (saturatingAdd sent received) = _
    rw [h, saturatingAdd_eq_min, saturatingAdd_eq_min, min_add_min, Step.bytes]
  | solutions count => exact h
  | time seconds nanoseconds =>
    rw [Step.bytes, Nat.add_zero, after, withTime]
    exact h

/-- **The bytes of all steps**, saturated once. -/
lemma dataTransfer_afterAll (h : m.dataTransfer = min (Digits.word64 - 1) n) (steps : List Step) :
    (m.afterAll steps).dataTransfer = min (Digits.word64 - 1) (n + (steps.map Step.bytes).sum) := by
  induction steps generalizing m n with
  | nil =>
    rw [List.map_nil, List.sum_nil, Nat.add_zero]
    exact h
  | cons step rest ih =>
    rw [afterAll, List.foldl_cons, ← afterAll, ih (dataTransfer_after h step), List.map_cons,
      List.sum_cons, Nat.add_assoc]

/-- **The rounds among all steps.** -/
lemma httpCalls_afterAll (m : Metrics) (steps : List Step) :
    (m.afterAll steps).httpCalls = m.httpCalls + steps.countP Step.isRound := by
  induction steps generalizing m with
  | nil => rfl
  | cons step rest ih =>
    rw [afterAll, List.foldl_cons, ← afterAll, ih, List.countP_cons]
    cases step with
    | round sent received stats => exact Nat.add_right_comm _ _ _
    | solutions count => rfl
    | time seconds nanoseconds =>
      rw [after, withTime]
      rfl

end Metrics

namespace Execution

/-! ## Exchanges -/

/-- **A request and the response to it.** -/
structure Exchange where
  /-- What is sent. -/
  request : Request
  /-- What is received. -/
  raw : String
  /-- What is understood of it. -/
  response : Response
  /-- It is what the text writes. -/
  understood : Response.parse raw = .ok response

/-- What is recorded of an exchange: the sizes of both texts and the reported times. -/
def Exchange.step (e : Exchange) : Metrics.Step :=
  .round e.request.body.utf8ByteSize e.raw.utf8ByteSize e.response.stats

lemma countP_exchanges (exchanges : List Exchange) :
    (exchanges.map Exchange.step).countP Metrics.Step.isRound = exchanges.length := by
  rw [List.countP_map]
  exact List.countP_eq_length.2 fun _ _ => rfl

lemma sum_bytes_exchanges (exchanges : List Exchange) :
    ((exchanges.map Exchange.step).map Metrics.Step.bytes).sum =
      ((exchanges.map (·.request)).map fun r => r.body.utf8ByteSize).sum +
        ((exchanges.map (·.raw)).map String.utf8ByteSize).sum := by
  induction exchanges with
  | nil => rfl
  | cons e rest ih =>
    simp only [List.map_cons, List.sum_cons, ih]
    simp only [Exchange.step, Metrics.Step.bytes]
    omega

/-- **What the rounds of an execution record**: one exchange for every request, with the replies in
their order.

**Proof sketch.** Induction on the replies. A round that goes on or comes to the end has understood
its response and has recorded it before it looks at the token. -/
lemma exists_exchanges {state final : Strategy} {metrics total : Metrics} {request : Request}
    {replies : List Reply}
    (h : (rounds state metrics request replies).2 = .ok (final, total)) :
    ∃ exchanges : List Exchange,
      (rounds state metrics request replies).1 = exchanges.map (·.request) ∧
      exchanges.map (fun e => Except.ok e.raw) <+: replies ∧
      total = metrics.afterAll (exchanges.map Exchange.step) := by
  induction replies generalizing state metrics request with
  | nil => cases h
  | cons reply rest ih =>
    cases reply with
    | error fault => cases h
    | ok raw =>
      cases hparse : Response.parse raw with
      | error fault => simp [rounds, hparse] at h
      | ok response =>
        simp only [rounds, hparse] at h ⊢
        cases hnext : (state.merge response.bindings).nextToken response.next with
        | error fault => simp [hnext] at h
        | ok next? =>
          cases next? with
          | none =>
            simp only [hnext, Except.ok.injEq, Prod.mk.injEq] at h ⊢
            obtain ⟨-, rfl⟩ := h
            exact ⟨[⟨request, raw, response, hparse⟩], rfl, by simp, rfl⟩
          | some token =>
            simp only [hnext] at h ⊢
            obtain ⟨exchanges, hrequests, hreplies, rfl⟩ := ih h
            refine ⟨⟨request, raw, response, hparse⟩ :: exchanges, ?_, ?_, rfl⟩
            · rw [List.map_cons, ← hrequests]
            · exact List.cons_prefix_cons.2 ⟨rfl, hreplies⟩

/-- **The metrics of a run with results** are those after its exchanges, with the number of
solutions. -/
lemma exists_exchanges_of_run {kind : StrategyKind} {options : Options} {query : String}
    {replies : List Reply} {result : Outcome}
    (h : (run kind options query replies).result = .ok result) :
    ∃ exchanges : List Exchange,
      (run kind options query replies).requests = exchanges.map (·.request) ∧
      exchanges.map (fun e => Except.ok e.raw) <+: replies ∧
      result.metrics = (Metrics.none.afterAll (exchanges.map Exchange.step)).withSolutions
        result.solutions.length := by
  obtain ⟨limit, conditions, ordered, text, final, total, hlimit, hordering, htext, hrounds, rfl⟩ :=
    exists_of_run_eq_ok h
  obtain ⟨exchanges, hrequests, hreplies, rfl⟩ := exists_exchanges hrounds
  refine ⟨exchanges, ?_, hreplies, rfl⟩
  rw [← hrequests, run]
  simp only [hlimit, hordering, htext]

/-- **The metrics count rounds**: whatever is recorded in whatever order, the transferred bytes are
the sum of the sizes of all requests and responses, or the greatest 64-bit number if that is less,
and the calls are the rounds. Of an execution with results every request counts once, with the reply
to it, and the metrics have the number of its solutions.

**Proof sketch.** A step adds its bytes to a sum that is saturated once
(`Metrics.dataTransfer_after`). The rounds of an execution record their exchanges
(`exists_exchanges`), and the solutions come last. -/
theorem metrics_count_rounds :
    (∀ steps : List Metrics.Step,
      (Metrics.none.afterAll steps).dataTransfer =
        min (2 ^ 64 - 1) (steps.map Metrics.Step.bytes).sum ∧
      (Metrics.none.afterAll steps).httpCalls = steps.countP Metrics.Step.isRound ∧
      ∀ others : List Metrics.Step, others.Perm steps →
        (Metrics.none.afterAll others).dataTransfer = (Metrics.none.afterAll steps).dataTransfer ∧
        (Metrics.none.afterAll others).httpCalls = (Metrics.none.afterAll steps).httpCalls) ∧
    ∀ (kind : StrategyKind) (options : Options) (query : String) (replies : List Reply)
      (result : Outcome), (run kind options query replies).result = .ok result →
      ∃ raws : List String, raws.map Except.ok <+: replies ∧
        raws.length = (run kind options query replies).requests.length ∧
        result.metrics.httpCalls = (run kind options query replies).requests.length ∧
        result.metrics.dataTransfer = min (2 ^ 64 - 1)
          (((run kind options query replies).requests.map fun r => r.body.utf8ByteSize).sum +
            (raws.map String.utf8ByteSize).sum) ∧
        result.metrics.solutions = result.solutions.length := by
  have hnone : Metrics.none.dataTransfer = min (Digits.word64 - 1) 0 := by decide
  have hbytes := Metrics.dataTransfer_afterAll hnone
  simp only [Nat.zero_add] at hbytes
  have hcalls := Metrics.httpCalls_afterAll .none
  refine ⟨fun steps => ⟨hbytes steps, ?_, fun others hperm => ⟨?_, ?_⟩⟩, ?_⟩
  · rw [hcalls]
    exact Nat.zero_add _
  · rw [hbytes, hbytes, (hperm.map Metrics.Step.bytes).sum_nat]
  · rw [hcalls, hcalls, hperm.countP_eq]
  · intro kind options query replies result hresult
    obtain ⟨exchanges, hsent, hreplies, hmetrics⟩ := exists_exchanges_of_run hresult
    refine ⟨exchanges.map (·.raw), ?_, ?_, ?_, ?_, congrArg Metrics.solutions hmetrics⟩
    · rw [List.map_map]
      exact hreplies
    · rw [hsent, List.length_map, List.length_map]
    · rw [hmetrics]
      show (Metrics.none.afterAll _).httpCalls = _
      rw [hcalls, countP_exchanges, hsent, List.length_map]
      exact Nat.zero_add _
    · rw [hmetrics]
      show (Metrics.none.afterAll _).dataTransfer = _
      rw [hbytes, sum_bytes_exchanges, hsent]
      rfl

/-- Two rounds in either order, one of them past the bound by itself, and two pages of three
solutions in all. -/
theorem metrics_count_rounds_of_two_pages :
    let steps : List Metrics.Step := [.round (2 ^ 64 - 1) 5 .none, .round 7 1 .none]
    let query := "SELECT ?x WHERE \x7b ?s ?p ?x \x7d ORDER BY ?x LIMIT 2"
    let options : Options := ⟨"", none, none, none, true, false, false⟩
    let first := "\x7b\"bindings\":[\x7b\"x\":\"1\"\x7d,\x7b\"x\":\"5\"\x7d],\"next\":\"t\"\x7d"
    let last := "\x7b\"bindings\":[\x7b\"x\":\"é\"\x7d],\"next\":null\x7d"
    (Metrics.none.afterAll steps.reverse).dataTransfer =
      (Metrics.none.afterAll steps).dataTransfer ∧
    ∃ result : Outcome,
      (run .clientMerge options query [.ok first, .ok last, .error .notText]).result =
        .ok result ∧
      result.metrics.httpCalls = 2 ∧ result.metrics.solutions = result.solutions.length ∧
      ∃ raws : List String, raws.length = 2 ∧
        result.metrics.dataTransfer = min (2 ^ 64 - 1)
          (((run .clientMerge options query [.ok first, .ok last, .error .notText]).requests.map
              fun r => r.body.utf8ByteSize).sum +
            (raws.map String.utf8ByteSize).sum) := by
  intro steps query options first last
  obtain ⟨hsteps, hrun⟩ := metrics_count_rounds
  have hsome : (run .clientMerge options query
      [.ok first, .ok last, .error .notText]).result.toOption.map (·.metrics.httpCalls) =
        some 2 := by
    decide +kernel
  have hrequests : (run .clientMerge options query
      [.ok first, .ok last, .error .notText]).requests.length = 2 := by
    decide +kernel
  obtain ⟨result, hresult, hcalls⟩ := exists_of_toOption_map hsome
  obtain ⟨raws, -, hlength, -, htransfer, hsolutions⟩ := hrun _ _ _ _ _ hresult
  exact ⟨((hsteps steps).2.2 _ steps.reverse_perm).1, result, hresult, hcalls, hsolutions, raws,
    hlength.trans hrequests, htransfer⟩

end Execution

end PagedTopK
