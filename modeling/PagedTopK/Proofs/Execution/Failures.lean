import PagedTopK.Proofs.Execution.Requests

set_option autoImplicit false

/-!
# Where an execution fails

A run fails before its first request if the query is refused, and otherwise in the first round that
brings a failure: no response, one that cannot be read, or one with a token that the bound has to be
put into and cannot be. It asks for nothing after that.

## Main definitions

* `Execution.Refused` — why a query is refused.
* `Execution.Settled` — what is settled before the first request.
* `Execution.Brings` — what a round brings.
* `Execution.FirstFailure` — the first round with a failure.
* `Execution.StopsAt` — where rounds stop.

## Main results

* `Execution.run_of_refused` — a refused query is not sent.
* `Execution.exists_settled` — any other query is settled.
* `Execution.exists_stopsAt`, `Execution.StopsAt.error_iff` — rounds stop, and they fail in the first
  round with a failure.
* `Execution.run_stops` — so does a run whose query is not refused.
-/

namespace PagedTopK

namespace Execution

/-! ## Before the first request -/

/-- **Why a query is refused.** A reason counts only if the ones before it do not apply. -/
inductive Refused (kind : StrategyKind) (options : Options) (query : String) :
    QueryError → Prop where
  /-- Nothing says how many results are wanted. -/
  | noLimit : options.limit = none → Query.limit? query = .ok none →
    Refused kind options query .noLimit
  /-- The limit of the query cannot be read. -/
  | badLimit {refusal : QueryError} : options.limit = none →
    Query.limit? query = .error refusal → Refused kind options query refusal
  /-- A client that ranks cannot read the order conditions. -/
  | badConditions {limit : Nat} {refusal : QueryError} :
    Query.wanted query options.limit = .ok limit → kind.ranksOnClient = true →
    Query.orderConditions query = .error refusal → Refused kind options query refusal
  /-- The query has no projection. -/
  | noProjection {limit : Nat} : Query.wanted query options.limit = .ok limit →
    (kind.ranksOnClient = true → ∃ conditions, Query.orderConditions query = .ok conditions) →
    Query.search Query.select query.toList = none → Refused kind options query .noProjection

/-- **What is settled before the first request**: how many results are wanted, the conditions that
a client ranks by, and the query to send. -/
structure Settled (kind : StrategyKind) (options : Options) (query : String) (limit : Nat)
    (conditions : List OrderCondition) (text : String) : Prop where
  /-- So many results are wanted. -/
  limit_eq : Query.wanted query options.limit = .ok limit
  /-- A client that ranks does so by these conditions. -/
  conditions_eq : kind.ranksOnClient = true → Query.orderConditions query = .ok conditions
  /-- This query is sent. -/
  text_eq : Query.rewritten kind query limit = .ok text

lemma wanted_eq_error {query : String} {configured : Option Nat} {refusal : QueryError}
    (h : Query.wanted query configured = .error refusal) :
    configured = none ∧
      (Query.limit? query = .ok none ∧ refusal = .noLimit ∨
        Query.limit? query = .error refusal) := by
  cases configured with
  | some n => cases h
  | none =>
    refine ⟨rfl, ?_⟩
    cases hlimit : Query.limit? query with
    | error e =>
      rw [Query.wanted, hlimit] at h
      cases h
      exact .inr rfl
    | ok found =>
      rw [Query.wanted, hlimit] at h
      cases found with
      | some n => cases h
      | none =>
        cases h
        exact .inl ⟨rfl, rfl⟩

lemma projectAll_eq_error_iff {query : String} {refusal : QueryError} :
    Query.projectAll query = .error refusal ↔
      Query.search Query.select query.toList = none ∧ refusal = .noProjection := by
  rw [Query.projectAll]
  cases hselect : Query.search Query.select query.toList with
  | none => simp [eq_comm]
  | some found => simp

/-- **A refused query is not sent.** -/
theorem run_of_refused {kind : StrategyKind} {options : Options} {query : String}
    {refusal : QueryError} (h : Refused kind options query refusal) (replies : List Reply) :
    (run kind options query replies).requests = [] ∧
      (run kind options query replies).result = .error (.malformedQuery refusal) := by
  cases h with
  | noLimit hnone hlimit =>
    have hwanted : Query.wanted query options.limit = .error .noLimit := by
      rw [hnone, Query.wanted, hlimit]
      rfl
    simp [run, hwanted, refused]
  | badLimit hnone hlimit =>
    have hwanted : Query.wanted query options.limit = .error refusal := by
      rw [hnone, Query.wanted, hlimit]
      rfl
    simp [run, hwanted, refused]
  | badConditions hwanted hkind hconditions =>
    have hordering : ordering kind query = .error refusal := by
      rw [ordering, if_pos hkind, hconditions]
      rfl
    simp [run, hwanted, hordering, refused]
  | @noProjection limit hwanted hconditions hselect =>
    have hall : Query.projectAll query = .error .noProjection :=
      projectAll_eq_error_iff.2 ⟨hselect, rfl⟩
    have htext : Query.rewritten kind query limit = .error .noProjection := by
      rw [Query.rewritten, hall]
      rfl
    cases hordering : ordering kind query with
    | ok settled => simp [run, hwanted, hordering, htext, refused]
    | error other =>
      obtain ⟨hkind, hother⟩ := orderConditions_of_ordering_error hordering
      obtain ⟨conditions, hok⟩ := hconditions hkind
      rw [hok] at hother
      cases hother

/-- **A query that is not refused is settled**, and the run consists of its rounds. -/
theorem exists_settled {kind : StrategyKind} {options : Options} {query : String}
    (h : ∀ refusal, ¬ Refused kind options query refusal) :
    ∃ (limit : Nat) (conditions : List OrderCondition) (text : String) (warnings : List Warning),
      Settled kind options query limit conditions text ∧
      ∀ replies, run kind options query replies =
        ⟨(rounds (.ofConditions kind limit conditions) .none (firstRequest kind options text)
            replies).1, warnings,
          (rounds (.ofConditions kind limit conditions) .none (firstRequest kind options text)
            replies).2.map fun done => outcome done.1 done.2⟩ := by
  cases hwanted : Query.wanted query options.limit with
  | error refusal =>
    obtain ⟨hnone, ⟨hlimit, rfl⟩ | hlimit⟩ := wanted_eq_error hwanted
    · exact absurd (.noLimit hnone hlimit) (h _)
    · exact absurd (.badLimit hnone hlimit) (h _)
  | ok limit =>
    cases hordering : ordering kind query with
    | error refusal =>
      obtain ⟨hkind, hconditions⟩ := orderConditions_of_ordering_error hordering
      exact absurd (.badConditions hwanted hkind hconditions) (h _)
    | ok settled =>
      obtain ⟨conditions, ordered⟩ := settled
      have hconditions : kind.ranksOnClient = true →
          Query.orderConditions query = .ok conditions :=
        fun hkind => orderConditions_of_ordering hkind hordering
      cases htext : Query.rewritten kind query limit with
      | error refusal =>
        obtain ⟨hselect, rfl⟩ :=
          projectAll_eq_error_iff.1 (projectAll_of_rewritten_error htext)
        exact absurd (.noProjection hwanted (fun hkind => ⟨_, hconditions hkind⟩) hselect) (h _)
      | ok text =>
        refine ⟨limit, conditions, text, if ordered then [] else [.unordered],
          ⟨hwanted, hconditions, htext⟩, fun replies => ?_⟩
        simp only [run, hwanted, hordering, htext]

/-! ## One round -/

/-- **What a round brings**, when these solutions have arrived up to and including it: a token to
go on with, the end, or a failure. -/
inductive Brings (kind : StrategyKind) (limit : Nat) (conditions : List OrderCondition)
    (rows : List Solution) : Option Reply → Except Failure (Option String) → Prop where
  /-- There are no more replies. -/
  | noReply : Brings kind limit conditions rows none (.error (.transport .noReply))
  /-- The post fails. -/
  | noResponse {fault : TransportError} :
    Brings kind limit conditions rows (some (.error fault)) (.error (.transport fault))
  /-- The response cannot be read. -/
  | badResponse {raw : String} {fault : ResponseError} : Response.parse raw = .error fault →
    Brings kind limit conditions rows (some (.ok raw)) (.error (.protocol (.response fault)))
  /-- The bound has to be put into the token and cannot be. -/
  | badToken {reply : Reply} {token : String} {fault : TokenError} :
    returned? reply = some token → Forwards kind limit conditions rows token (.error fault) →
    Brings kind limit conditions rows (some reply) (.error (.protocol (.token fault)))
  /-- The response has no token. -/
  | last {raw : String} {response : Response} : Response.parse raw = .ok response →
    response.next = none → Brings kind limit conditions rows (some (.ok raw)) (.ok none)
  /-- The response has a token that can be forwarded. -/
  | goesOn {reply : Reply} {token next : String} :
    returned? reply = some token → Forwards kind limit conditions rows token (.ok next) →
    Brings kind limit conditions rows (some reply) (.ok (some next))

/-- What a round brings, from the state after it. -/
def brought (state : Strategy) : Option Reply → Except Failure (Option String)
  | none => .error (.transport .noReply)
  | some (.error fault) => .error (.transport fault)
  | some (.ok raw) =>
    match Response.parse raw with
    | .error fault => .error (.protocol (.response fault))
    | .ok response => (state.nextToken response.next).mapError fun fault =>
      .protocol (.token fault)

lemma brought_of_returned {reply : Reply} {token : String} (h : returned? reply = some token)
    (state : Strategy) :
    brought state (some reply) =
      (state.nextToken (some token)).mapError fun fault => .protocol (.token fault) := by
  cases reply with
  | error fault => cases h
  | ok raw =>
    cases hparse : Response.parse raw with
    | error fault => simp [returned?, hparse] at h
    | ok response =>
      simp only [returned?, hparse] at h
      simp only [brought, hparse, h]

/-- The state says what a round brings. -/
lemma brings_iff {kind : StrategyKind} {limit : Nat} {conditions : List OrderCondition}
    {rows : List Solution} {reply : Option Reply} {outcome : Except Failure (Option String)} :
    Brings kind limit conditions rows reply outcome ↔
      brought ((Strategy.ofConditions kind limit conditions).merge rows) reply = outcome := by
  constructor
  · intro h
    cases h with
    | noReply => rfl
    | noResponse => rfl
    | badResponse hparse => simp only [brought, hparse]
    | badToken hreturned hforwards =>
      rw [brought_of_returned hreturned, hforwards.nextToken_eq]
      rfl
    | last hparse hnext =>
      simp only [brought, hparse, hnext]
      rfl
    | goesOn hreturned hforwards =>
      rw [brought_of_returned hreturned, hforwards.nextToken_eq]
      rfl
  · rintro rfl
    rcases reply with _ | _ | raw
    · exact .noReply
    · exact .noResponse
    · cases hparse : Response.parse raw with
      | error fault =>
        simp only [brought, hparse]
        exact .badResponse hparse
      | ok response =>
        cases hnext : response.next with
        | none =>
          simp only [brought, hparse, hnext]
          exact .last hparse hnext
        | some token =>
          have hreturned : returned? (.ok raw) = some token := by
            simp only [returned?, hparse, hnext]
          obtain ⟨forwarded, hforwards⟩ := exists_forwards kind limit conditions rows token
          rw [brought_of_returned hreturned, hforwards.nextToken_eq]
          cases forwarded with
          | error fault => exact .badToken hreturned hforwards
          | ok next => exact .goesOn hreturned hforwards

section Rounds

variable {state : Strategy} {reply : Reply}

/-- A failure ends the rounds. -/
lemma rounds_of_failure {failure : Failure}
    (h : brought (state.merge (arrived reply)) (some reply) = .error failure) (metrics : Metrics)
    (request : Request) (rest : List Reply) :
    rounds state metrics request (reply :: rest) = ([request], .error failure) := by
  cases reply with
  | error fault =>
    cases h
    rfl
  | ok raw =>
    cases hparse : Response.parse raw with
    | error fault =>
      simp only [brought, hparse] at h
      cases h
      simp only [rounds, hparse]
    | ok response =>
      simp only [brought, arrived, hparse] at h
      simp only [rounds, hparse]
      cases hnext : (state.merge response.bindings).nextToken response.next with
      | ok next? =>
        rw [hnext] at h
        cases h
      | error fault =>
        rw [hnext] at h
        cases h
        rfl

/-- A response without a token ends the rounds. -/
lemma rounds_of_last (h : brought (state.merge (arrived reply)) (some reply) = .ok none)
    (metrics : Metrics) (request : Request) :
    ∃ done, ∀ rest, rounds state metrics request (reply :: rest) = ([request], .ok done) := by
  cases reply with
  | error fault => cases h
  | ok raw =>
    cases hparse : Response.parse raw with
    | error fault =>
      simp only [brought, hparse] at h
      cases h
    | ok response =>
      simp only [brought, arrived, hparse] at h
      cases hnext : (state.merge response.bindings).nextToken response.next with
      | error fault =>
        rw [hnext] at h
        cases h
      | ok next? =>
        rw [hnext] at h
        cases h
        refine ⟨(state.merge response.bindings, metrics.afterRound request.body.utf8ByteSize
          raw.utf8ByteSize response.stats), fun rest => ?_⟩
        simp only [rounds, hparse, hnext]

/-- After a token that can be forwarded the rounds go on with the other replies. -/
lemma rounds_of_next {next : String}
    (h : brought (state.merge (arrived reply)) (some reply) = .ok (some next))
    (metrics : Metrics) (request : Request) :
    ∃ total, ∀ rest, rounds state metrics request (reply :: rest) =
      (request :: (rounds (state.merge (arrived reply)) total
          { request with next := some next } rest).1,
        (rounds (state.merge (arrived reply)) total
          { request with next := some next } rest).2) := by
  cases reply with
  | error fault => cases h
  | ok raw =>
    cases hparse : Response.parse raw with
    | error fault =>
      simp only [brought, hparse] at h
      cases h
    | ok response =>
      simp only [brought, arrived, hparse] at h ⊢
      cases hnext : (state.merge response.bindings).nextToken response.next with
      | error fault =>
        rw [hnext] at h
        cases h
      | ok next? =>
        rw [hnext] at h
        cases h
        refine ⟨metrics.afterRound request.body.utf8ByteSize raw.utf8ByteSize response.stats,
          fun rest => ?_⟩
        simp only [rounds, hparse, hnext]

end Rounds

/-! ## All rounds -/

/-- **The first round with a failure** is the one of number `i`: every round before it goes on. -/
structure FirstFailure (kind : StrategyKind) (limit : Nat) (conditions : List OrderCondition)
    (replies : List Reply) (i : Nat) (failure : Failure) : Prop where
  /-- The rounds before it go on. -/
  before : ∀ j < i, ∃ next, Brings kind limit conditions (received (replies.take (j + 1)))
    replies[j]? (.ok (some next))
  /-- It brings the failure. -/
  fails : Brings kind limit conditions (received (replies.take (i + 1))) replies[i]?
    (.error failure)

/-- **Where rounds stop**: the round of number `n` is the last one, and it brings the end or the
failure that the rounds come to. Replies beyond it make no difference. -/
structure StopsAt (kind : StrategyKind) (limit : Nat) (conditions : List OrderCondition)
    (seen : List Solution) (metrics : Metrics) (request : Request) (replies : List Reply)
    (n : Nat) : Prop where
  /-- There is one request for every round. -/
  length_eq : (rounds ((Strategy.ofConditions kind limit conditions).merge seen) metrics request
    replies).1.length = n + 1
  /-- All replies may have been used up, but not more than that. -/
  le_length : n ≤ replies.length
  /-- Every round before it goes on. -/
  before : ∀ j < n, ∃ next,
    brought ((Strategy.ofConditions kind limit conditions).merge
      (seen ++ received (replies.take (j + 1)))) replies[j]? = .ok (some next)
  /-- It brings what the rounds come to. -/
  stops : brought ((Strategy.ofConditions kind limit conditions).merge
      (seen ++ received (replies.take (n + 1)))) replies[n]? =
    (rounds ((Strategy.ofConditions kind limit conditions).merge seen) metrics request
      replies).2.map fun _ => none
  /-- Other replies after it lead to the same. -/
  later : n < replies.length → ∀ others,
    rounds ((Strategy.ofConditions kind limit conditions).merge seen) metrics request
        (replies.take (n + 1) ++ others) =
      rounds ((Strategy.ofConditions kind limit conditions).merge seen) metrics request replies

section AllRounds

variable {kind : StrategyKind} {limit : Nat} {conditions : List OrderCondition}

/-- A round that goes on comes before the round that the others stop at. -/
lemma StopsAt.cons {seen : List Solution} {metrics total : Metrics} {request : Request}
    {reply : Reply} {rest : List Reply} {n : Nat} {next token : String}
    (hreturned : returned? reply = some token)
    (hbrought : brought (((Strategy.ofConditions kind limit conditions).merge seen).merge
      (arrived reply)) (some reply) = .ok (some next))
    (hrounds : ∀ rest, rounds ((Strategy.ofConditions kind limit conditions).merge seen) metrics
        request (reply :: rest) =
      (request :: (rounds (((Strategy.ofConditions kind limit conditions).merge seen).merge
          (arrived reply)) total { request with next := some next } rest).1,
        (rounds (((Strategy.ofConditions kind limit conditions).merge seen).merge
          (arrived reply)) total { request with next := some next } rest).2))
    (h : StopsAt kind limit conditions (seen ++ arrived reply) total
      { request with next := some next } rest n) :
    StopsAt kind limit conditions seen metrics request (reply :: rest) (n + 1) := by
  rw [← Strategy.merge_append] at hbrought
  simp only [← Strategy.merge_append] at hrounds
  constructor
  · rw [hrounds, List.length_cons, h.length_eq]
  · exact Nat.succ_le_succ h.le_length
  · intro j hj
    cases j with
    | zero =>
      rw [received_take_one]
      exact ⟨next, hbrought⟩
    | succ j =>
      obtain ⟨further, hfurther⟩ := h.before j (Nat.lt_of_succ_lt_succ hj)
      refine ⟨further, ?_⟩
      rwa [List.take_succ_cons, seen_cons hreturned]
  · rw [hrounds, List.take_succ_cons, seen_cons hreturned]
    exact h.stops
  · intro hlt others
    rw [List.take_succ_cons, List.cons_append, hrounds, hrounds,
      h.later (Nat.lt_of_succ_lt_succ hlt)]

/-- **Rounds stop.**

**Proof sketch.** Induction on the replies. A round that brings the end or a failure is the last
one, and the others go on with one reply less (`StopsAt.cons`). -/
lemma exists_stopsAt (seen : List Solution) (metrics : Metrics) (request : Request)
    (replies : List Reply) :
    ∃ n, StopsAt kind limit conditions seen metrics request replies n := by
  induction replies generalizing seen metrics request with
  | nil => exact ⟨0, rfl, Nat.le_refl 0, fun j hj => absurd hj (Nat.not_lt_zero j), rfl,
      fun h => absurd h (Nat.lt_irrefl 0)⟩
  | cons reply rest ih =>
    have hseen : seen ++ received ((reply :: rest).take (0 + 1)) = seen ++ arrived reply := by
      rw [received_take_one]
    cases hbrought : brought (((Strategy.ofConditions kind limit conditions).merge seen).merge
        (arrived reply)) (some reply) with
    | error failure =>
      have hrounds := rounds_of_failure hbrought metrics request
      refine ⟨0, by rw [hrounds]; rfl, Nat.zero_le _, fun j hj => absurd hj (Nat.not_lt_zero j),
        ?_, fun _ others => ?_⟩
      · rw [hrounds, hseen, Strategy.merge_append]
        exact hbrought
      · rw [hrounds]
        exact hrounds others
    | ok next? =>
      cases next? with
      | none =>
        obtain ⟨done, hrounds⟩ := rounds_of_last hbrought metrics request
        refine ⟨0, by rw [hrounds]; rfl, Nat.zero_le _,
          fun j hj => absurd hj (Nat.not_lt_zero j), ?_, fun _ others => ?_⟩
        · rw [hrounds, hseen, Strategy.merge_append]
          exact hbrought
        · rw [hrounds]
          exact hrounds others
      | some next =>
        obtain ⟨total, hrounds⟩ := rounds_of_next hbrought metrics request
        obtain ⟨n, hn⟩ := ih (seen ++ arrived reply) total { request with next := some next }
        have hgoesOn := brings_iff.2 ((Strategy.merge_append _ seen (arrived reply)).symm ▸ hbrought)
        cases hgoesOn with
        | goesOn hreturned _ => exact ⟨n + 1, hn.cons hreturned hbrought hrounds⟩

/-- Rounds fail in the first round with a failure. -/
lemma StopsAt.error_iff {metrics : Metrics} {request : Request} {replies : List Reply} {n : Nat}
    (h : StopsAt kind limit conditions [] metrics request replies n) (i : Nat)
    (failure : Failure) :
    (rounds ((Strategy.ofConditions kind limit conditions).merge []) metrics request
        replies).2 = .error failure ∧ n = i ↔
      FirstFailure kind limit conditions replies i failure := by
  constructor
  · rintro ⟨hfailure, rfl⟩
    refine ⟨fun j hj => ?_, ?_⟩
    · obtain ⟨next, hnext⟩ := h.before j hj
      exact ⟨next, brings_iff.2 hnext⟩
    · have hstops := h.stops
      rw [hfailure] at hstops
      exact brings_iff.2 hstops
  · intro hfirst
    have hfails := brings_iff.1 hfirst.fails
    rcases Nat.lt_trichotomy i n with hlt | rfl | hlt
    · obtain ⟨next, hnext⟩ := h.before i hlt
      cases hfails.symm.trans hnext
    · refine ⟨?_, rfl⟩
      have hsame := h.stops.symm.trans hfails
      cases hresult : (rounds ((Strategy.ofConditions kind limit conditions).merge []) metrics
          request replies).2 with
      | ok done =>
        rw [hresult] at hsame
        cases hsame
      | error other =>
        rw [hresult] at hsame
        cases hsame
        rfl
    · obtain ⟨next, hnext⟩ := hfirst.before n hlt
      have hsame := h.stops.symm.trans (brings_iff.1 hnext)
      cases hresult : (rounds ((Strategy.ofConditions kind limit conditions).merge []) metrics
          request replies).2 with
      | ok done =>
        rw [hresult] at hsame
        cases hsame
      | error other =>
        rw [hresult] at hsame
        cases hsame

end AllRounds

/-! ## Runs -/

/-- **A run stops**: it has sent one request for every round, the failures that it ends with are
those of the first round that brings one, and replies after its last round make no difference. -/
lemma run_stops {kind : StrategyKind} {options : Options} {query : String}
    (h : ∀ refusal, ¬ Refused kind options query refusal) (replies : List Reply) :
    ∃ (limit : Nat) (conditions : List OrderCondition) (text : String) (n : Nat),
      Settled kind options query limit conditions text ∧
      (run kind options query replies).requests.length = n + 1 ∧ n ≤ replies.length ∧
      (∀ i failure, (run kind options query replies).result = .error failure ∧ n = i ↔
        FirstFailure kind limit conditions replies i failure) ∧
      (n < replies.length → ∀ others,
        run kind options query (replies.take (n + 1) ++ others) =
          run kind options query replies) := by
  obtain ⟨limit, conditions, text, warnings, hsettled, hrun⟩ := exists_settled h
  obtain ⟨n, hstops⟩ : ∃ n, StopsAt kind limit conditions [] .none
      (firstRequest kind options text) replies n :=
    exists_stopsAt _ _ _ _
  have hfailure := hstops.error_iff
  have hlength := hstops.length_eq
  have hlater := hstops.later
  rw [Strategy.merge_nil] at hfailure hlength hlater
  simp only [hrun, map_eq_error_iff]
  refine ⟨limit, conditions, text, n, hsettled, hlength, hstops.le_length, hfailure,
    fun hlt others => ?_⟩
  rw [hlater hlt others]

end Execution

end PagedTopK
