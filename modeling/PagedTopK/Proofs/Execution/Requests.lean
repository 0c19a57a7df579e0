import PagedTopK.Proofs.Execution.Outcome
import PagedTopK.Proofs.Ranking.Pruning

set_option autoImplicit false

/-!
# The requests of an execution

The requests of a run differ in their token only. The first one has none, and a further one follows
every response that carries a token. A strategy that sends its bound puts it into the token once as
many solutions have arrived as are wanted; up to then, and under the other strategies, the token
goes back as it came and is not looked into.

## Main definitions

* `Execution.returned?` — the token that a reply carries.
* `Execution.lowerBound?` — the bound after some solutions have arrived.
* `Execution.Forwards` — what becomes of a returned token.
* `Execution.Protocol` — the rules that the requests of a run follow.

## Main results

* `Execution.run_follows_protocol` — every run follows the rules.
-/

namespace PagedTopK

namespace Execution

/-! ## Tokens -/

/-- **The token that a reply carries**, if the reply is a response that can be read. -/
def returned? : Reply → Option String
  | .error _ => none
  | .ok raw =>
    match Response.parse raw with
    | .error _ => none
    | .ok response => response.next

/-- **The bound after some solutions have arrived**: the worst of the first `limit` rows of their
stable sort, with the values of the conditions attached and cut down to these. -/
def lowerBound? (limit : Nat) (conditions : List OrderCondition) (rows : List Solution) :
    Option Solution :=
  ((rows.mergeSort (Strategy.byConditions conditions)).take limit).getLast?.map fun worst =>
    Ranking.keyFields (Strategy.keysOf conditions)
      (Strategy.keyed conditions (Strategy.keysOf conditions) worst)

/-- **What becomes of a returned token** once some solutions have arrived. -/
inductive Forwards (kind : StrategyKind) (limit : Nat) (conditions : List OrderCondition)
    (rows : List Solution) (token : String) : Except TokenError String → Prop where
  /-- It goes back as it came. -/
  | asReturned : kind.pushesThreshold = false ∨ limit = 0 ∨ rows.length < limit →
    Forwards kind limit conditions rows token (.ok token)
  /-- The bound is put into it. -/
  | withBound {bound : Solution} : kind.pushesThreshold = true → 0 < limit → limit ≤ rows.length →
    lowerBound? limit conditions rows = some bound →
    Forwards kind limit conditions rows token (Continuation.withThreshold token bound)

/-- **The rules that the requests of a run follow**: `first` is the first of them, and the bounds
are those of a ranking of the given size by the given conditions. -/
structure Protocol (kind : StrategyKind) (limit : Nat) (conditions : List OrderCondition)
    (first : Request) (replies : List Reply) (run : Run) : Prop where
  /-- The first request has no token. -/
  starts : run.requests.head? = some first ∧ first.next = none
  /-- Requests differ in their token only. -/
  keeps : ∀ request ∈ run.requests, request = { first with next := request.next }
  /-- After a request there is another one exactly if its reply carries a token that can be
  forwarded; the forwarded token is what that request carries. -/
  continues : ∀ i < run.requests.length, ∀ request : Request,
    run.requests[i + 1]? = some request ↔
      ∃ token next, replies[i]?.bind returned? = some token ∧
        Forwards kind limit conditions (received (replies.take (i + 1))) token (.ok next) ∧
        request = { first with next := some next }
  /-- A token is the reason of a failure exactly if the bound has to be put into it and cannot
  be. -/
  fails : ∀ fault : TokenError, run.result = .error (.protocol (.token fault)) ↔
    ∃ i < run.requests.length, ∃ token, replies[i]?.bind returned? = some token ∧
      Forwards kind limit conditions (received (replies.take (i + 1))) token (.error fault)

/-! ## The bound -/

/-- The ranking is full as soon as as many solutions have arrived as are wanted, and its bound is
then the worst of the best. -/
lemma bound?_merge {kind : StrategyKind} (hkind : kind.ranksOnClient = true) (limit : Nat)
    (conditions : List OrderCondition) (rows : List Solution) :
    ((Strategy.ofConditions kind limit conditions).merge rows).ranking.bound? =
      if limit ≤ rows.length then lowerBound? limit conditions rows else none := by
  have hcontents := contents_merge hkind limit conditions rows
  set ranking := ((Strategy.ofConditions kind limit conditions).merge rows).ranking with hranking
  rw [Strategy.ranking_merge hkind] at hranking
  have hkeys : ranking.keys = Strategy.keysOf conditions := by
    rw [hranking]
    exact Ranking.keys_offerAll _ _
  have hcapacity : ranking.capacity = limit := by
    rw [hranking]
    exact Ranking.capacity_offerAll _ _
  have hsize : ranking.size = min limit rows.length := by
    rw [Ranking.size_eq_contents, hcontents, List.length_map, List.length_take,
      List.length_mergeSort]
  have hfull : (ranking.isFull = true) = (limit ≤ rows.length) := by
    rw [Ranking.isFull, decide_eq_true_eq, hcapacity, hsize]
    exact propext (by omega)
  rw [Ranking.bound?_eq_contents, hcontents, hkeys, List.getLast?_map, Option.map_map]
  simp only [hfull]
  rfl

/-- There is a bound if something has arrived that may be retained. -/
lemma exists_lowerBound {limit : Nat} (conditions : List OrderCondition) {rows : List Solution}
    (hlimit : 0 < limit) (hrows : limit ≤ rows.length) :
    ∃ bound, lowerBound? limit conditions rows = some bound := by
  have hne : (rows.mergeSort (Strategy.byConditions conditions)).take limit ≠ [] := by
    refine List.ne_nil_of_length_pos ?_
    rw [List.length_take, List.length_mergeSort]
    omega
  rw [lowerBound?, List.getLast?_eq_some_getLast hne]
  exact ⟨_, rfl⟩

/-- Every returned token is dealt with by one of the rules. -/
lemma exists_forwards (kind : StrategyKind) (limit : Nat) (conditions : List OrderCondition)
    (rows : List Solution) (token : String) :
    ∃ outcome, Forwards kind limit conditions rows token outcome := by
  by_cases hpush : kind.pushesThreshold = true ∧ 0 < limit ∧ limit ≤ rows.length
  · obtain ⟨hkind, hlimit, hrows⟩ := hpush
    obtain ⟨bound, hbound⟩ := exists_lowerBound conditions hlimit hrows
    exact ⟨_, .withBound hkind hlimit hrows hbound⟩
  · refine ⟨_, .asReturned ?_⟩
    cases hkind : kind.pushesThreshold with
    | false => exact .inl rfl
    | true =>
      have hroom : ¬ (0 < limit ∧ limit ≤ rows.length) := fun h => hpush ⟨hkind, h⟩
      exact .inr (by omega)

/-- The state follows the rules. -/
lemma Forwards.nextToken_eq {kind : StrategyKind} {limit : Nat} {conditions : List OrderCondition}
    {rows : List Solution} {token : String} {outcome : Except TokenError String}
    (h : Forwards kind limit conditions rows token outcome) :
    ((Strategy.ofConditions kind limit conditions).merge rows).nextToken (some token) =
      outcome.map some := by
  have hkind := Strategy.kind_merge (.ofConditions kind limit conditions) rows
  have hstart : (Strategy.ofConditions kind limit conditions).kind = kind := rfl
  rw [Strategy.nextToken, hkind, hstart]
  cases h with
  | withBound hpushes hlimit hrows hbound =>
    rw [if_pos hpushes, bound?_merge (StrategyKind.ranksOnClient_of_pushesThreshold hpushes),
      if_pos hrows, hbound]
  | asReturned hplain =>
    cases hpushes : kind.pushesThreshold with
    | false => rfl
    | true =>
      have hnone : (if limit ≤ rows.length then lowerBound? limit conditions rows else none) =
          none := by
        split
        · next hrows =>
          have hzero : limit = 0 := by
            rcases hplain with h | h | h
            · rw [hpushes] at h
              cases h
            · exact h
            · omega
          rw [lowerBound?, hzero]
          rfl
        · rfl
      rw [if_pos rfl, bound?_merge (StrategyKind.ranksOnClient_of_pushesThreshold hpushes), hnone]
      rfl

lemma nextToken_eq_iff {kind : StrategyKind} {limit : Nat} {conditions : List OrderCondition}
    {rows : List Solution} {token : String} {outcome : Except TokenError String} :
    ((Strategy.ofConditions kind limit conditions).merge rows).nextToken (some token) =
        outcome.map some ↔
      Forwards kind limit conditions rows token outcome := by
  refine ⟨fun h => ?_, Forwards.nextToken_eq⟩
  obtain ⟨own, hown⟩ := exists_forwards kind limit conditions rows token
  have hsame : own.map some = outcome.map some := hown.nextToken_eq.symm.trans h
  have heq : own = outcome := by
    cases own <;> cases outcome <;> simp_all [Except.map]
  exact heq ▸ hown

/-! ## One round -/

/-- The solutions in a reply. -/
def arrived : Reply → List Solution
  | .error _ => []
  | .ok raw =>
    match Response.parse raw with
    | .error _ => []
    | .ok response => response.bindings

/-- What has been received goes on after a reply with a token. -/
lemma received_cons (reply : Reply) (rest : List Reply) :
    received (reply :: rest) =
      arrived reply ++ if (returned? reply).isSome then received rest else [] := by
  cases reply with
  | error fault => rfl
  | ok raw =>
    cases hparse : Response.parse raw with
    | error fault => simp [received, arrived, returned?, hparse]
    | ok response =>
      cases hnext : response.next <;> simp [received, arrived, returned?, hparse, hnext]

/-- **One round.** Either the reply carries a token that can be forwarded, and the rounds go on with
it, or the request is the last one. -/
lemma rounds_cons (state : Strategy) (metrics : Metrics) (request : Request) (reply : Reply)
    (rest : List Reply) :
    (∃ (token next : String) (total : Metrics), returned? reply = some token ∧
      (state.merge (arrived reply)).nextToken (some token) = .ok (some next) ∧
      rounds state metrics request (reply :: rest) =
        (request :: (rounds (state.merge (arrived reply)) total
            { request with next := some next } rest).1,
          (rounds (state.merge (arrived reply)) total
            { request with next := some next } rest).2)) ∨
    ((∀ token next, returned? reply = some token →
        (state.merge (arrived reply)).nextToken (some token) ≠ .ok (some next)) ∧
      ∃ result, rounds state metrics request (reply :: rest) = ([request], result) ∧
        ∀ fault, result = .error (.protocol (.token fault)) ↔
          ∃ token, returned? reply = some token ∧
            (state.merge (arrived reply)).nextToken (some token) = .error fault) := by
  cases reply with
  | error fault => exact .inr ⟨by simp [returned?], _, rfl, by simp [returned?]⟩
  | ok raw =>
    cases hparse : Response.parse raw with
    | error fault =>
      refine .inr ⟨by simp [returned?, hparse], .error (.protocol (.response fault)), ?_,
        by simp [returned?, hparse]⟩
      simp only [rounds, hparse]
    | ok response =>
      simp only [rounds, arrived, returned?, hparse]
      cases hreturned : response.next with
      | none =>
        refine .inr ⟨by simp, _, rfl, by simp⟩
      | some token =>
        cases hnext : (state.merge response.bindings).nextToken (some token) with
        | error fault =>
          refine .inr ⟨?_, _, rfl, by simp [hnext]⟩
          rintro own next hown
          cases hown
          simp [hnext]
        | ok next? =>
          cases next? with
          | none => cases Strategy.nextToken_eq_none hnext
          | some next => exact .inl ⟨token, next, _, rfl, hnext, rfl⟩

/-! ## All rounds -/

/-- The first request of the rounds is the one that they begin with. -/
lemma head?_rounds (state : Strategy) (metrics : Metrics) (request : Request)
    (replies : List Reply) :
    (rounds state metrics request replies).1.head? = some request := by
  cases replies with
  | nil => rfl
  | cons reply rest =>
    rcases rounds_cons state metrics request reply rest with
      ⟨token, next, total, -, -, hrounds⟩ | ⟨-, result, hrounds, -⟩
    · rw [hrounds]
      rfl
    · rw [hrounds]
      rfl

/-- The requests of the rounds differ in their token only. -/
lemma eq_of_mem_rounds {state : Strategy} {metrics : Metrics} {request other : Request}
    {replies : List Reply} (h : other ∈ (rounds state metrics request replies).1) :
    other = { request with next := other.next } := by
  induction replies generalizing state metrics request with
  | nil =>
    rw [List.mem_singleton.1 h]
  | cons reply rest ih =>
    rcases rounds_cons state metrics request reply rest with
      ⟨token, next, total, -, -, hrounds⟩ | ⟨-, result, hrounds, -⟩
    · rw [hrounds] at h
      rcases List.mem_cons.1 h with rfl | h
      · rfl
      · have hlater := ih h
        exact hlater
    · rw [hrounds] at h
      rw [List.mem_singleton.1 h]

/-- What has been received in the first reply. -/
lemma received_take_one (reply : Reply) (rest : List Reply) :
    received ((reply :: rest).take 1) = arrived reply := by
  rw [List.take_succ_cons, List.take_zero, received_cons]
  simp [received]

section Rounds

variable {kind : StrategyKind} {limit : Nat} {conditions : List OrderCondition}

/-- After a reply with a token, what has been seen before a later reply is what has been seen before
the rounds, the solutions in the first reply, and what has been received since. -/
lemma seen_cons {reply : Reply} {token : String} (h : returned? reply = some token)
    (seen : List Solution) (rest : List Reply) :
    seen ++ received (reply :: rest) = (seen ++ arrived reply) ++ received rest := by
  rw [received_cons, h]
  simp

/-- **What follows a request**, in rounds that begin after some solutions have been seen.

**Proof sketch.** Induction on the replies. The number zero is the present round (`rounds_cons`);
a later one belongs to the rounds that go on with the solutions of this round merged
(`Strategy.merge_append`). -/
lemma getElem?_rounds (seen : List Solution) (metrics : Metrics) (request : Request)
    (replies : List Reply) {i : Nat}
    (hi : i < (rounds ((Strategy.ofConditions kind limit conditions).merge seen) metrics request
      replies).1.length) (other : Request) :
    (rounds ((Strategy.ofConditions kind limit conditions).merge seen) metrics request
        replies).1[i + 1]? = some other ↔
      ∃ token next, replies[i]?.bind returned? = some token ∧
        Forwards kind limit conditions (seen ++ received (replies.take (i + 1))) token (.ok next) ∧
        other = { request with next := some next } := by
  induction replies generalizing seen metrics request i with
  | nil =>
    have hzero : i = 0 := by simpa [rounds] using hi
    simp [hzero, rounds]
  | cons reply rest ih =>
    have hmerge := (Strategy.merge_append (.ofConditions kind limit conditions) seen
      (arrived reply)).symm
    rcases rounds_cons ((Strategy.ofConditions kind limit conditions).merge seen) metrics request
      reply rest with ⟨token, next, total, hreturned, hnext, hrounds⟩ | ⟨hlast, result, hrounds, -⟩
    · rw [hmerge] at hnext hrounds
      rw [hrounds] at hi ⊢
      cases i with
      | zero =>
        have hforwards := nextToken_eq_iff.1 (show _ = (Except.ok next).map some from hnext)
        rw [List.getElem?_cons_succ, ← List.head?_eq_getElem?, head?_rounds, received_take_one]
        simp only [List.getElem?_cons_zero, Option.bind_some, hreturned, Option.some.injEq]
        constructor
        · rintro rfl
          exact ⟨token, next, rfl, hforwards, rfl⟩
        · rintro ⟨own, sent, rfl, hsent, rfl⟩
          have hsame := hsent.nextToken_eq.symm.trans hforwards.nextToken_eq
          cases hsame
          rfl
      | succ i =>
        have hi' := Nat.lt_of_succ_lt_succ hi
        rw [List.getElem?_cons_succ, ih (seen ++ arrived reply) total _ hi', List.take_succ_cons,
          seen_cons hreturned]
        rfl
    · rw [hrounds] at hi ⊢
      have hzero : i = 0 := by simpa using hi
      subst hzero
      simp only [hmerge] at hlast
      rw [received_take_one]
      simp only [List.getElem?_cons_zero, Option.bind_some]
      constructor
      · intro h
        cases h
      · rintro ⟨token, next, hreturned, hforwards, -⟩
        exact absurd hforwards.nextToken_eq (hlast token next hreturned)

/-- **When the rounds fail over a token.** -/
lemma rounds_error_iff (seen : List Solution) (metrics : Metrics) (request : Request)
    (replies : List Reply) (fault : TokenError) :
    (rounds ((Strategy.ofConditions kind limit conditions).merge seen) metrics request
        replies).2 = .error (.protocol (.token fault)) ↔
      ∃ i < (rounds ((Strategy.ofConditions kind limit conditions).merge seen) metrics request
          replies).1.length,
        ∃ token, replies[i]?.bind returned? = some token ∧
          Forwards kind limit conditions (seen ++ received (replies.take (i + 1))) token
            (.error fault) := by
  induction replies generalizing seen metrics request with
  | nil => simp [rounds]
  | cons reply rest ih =>
    have hmerge := (Strategy.merge_append (.ofConditions kind limit conditions) seen
      (arrived reply)).symm
    rcases rounds_cons ((Strategy.ofConditions kind limit conditions).merge seen) metrics request
      reply rest with
      ⟨token, next, total, hreturned, hnext, hrounds⟩ | ⟨hlast, result, hrounds, hresult⟩
    · rw [hmerge] at hnext hrounds
      have hforwards := nextToken_eq_iff.1 (show _ = (Except.ok next).map some from hnext)
      rw [hrounds]
      refine (ih (seen ++ arrived reply) total _).trans ?_
      constructor
      · rintro ⟨i, hi, own, hown, hfault⟩
        refine ⟨i + 1, Nat.succ_lt_succ hi, own, hown, ?_⟩
        rwa [List.take_succ_cons, seen_cons hreturned]
      · rintro ⟨i, hi, own, hown, hfault⟩
        cases i with
        | zero =>
          rw [received_take_one] at hfault
          simp only [List.getElem?_cons_zero, Option.bind_some, hreturned, Option.some.injEq] at hown
          subst hown
          have hsame := hfault.nextToken_eq.symm.trans hforwards.nextToken_eq
          cases hsame
        | succ i =>
          rw [List.take_succ_cons, seen_cons hreturned] at hfault
          exact ⟨i, Nat.lt_of_succ_lt_succ hi, own, hown, hfault⟩
    · rw [hmerge] at hresult
      rw [hrounds]
      refine (hresult fault).trans ?_
      constructor
      · rintro ⟨token, hreturned, hfault⟩
        refine ⟨0, Nat.zero_lt_one, token, hreturned, ?_⟩
        rw [received_take_one]
        exact nextToken_eq_iff.1 hfault
      · rintro ⟨i, hi, token, hreturned, hfault⟩
        have hzero : i = 0 := by simpa using hi
        subst hzero
        rw [received_take_one] at hfault
        exact ⟨token, hreturned, hfault.nextToken_eq⟩

/-- Rounds that begin without a token follow the rules. -/
lemma protocol_rounds (metrics : Metrics) {first : Request} (hfirst : first.next = none)
    (replies : List Reply) (warnings : List Warning) (results : Strategy × Metrics → Outcome) :
    Protocol kind limit conditions first replies
      ⟨(rounds (.ofConditions kind limit conditions) metrics first replies).1, warnings,
        (rounds (.ofConditions kind limit conditions) metrics first replies).2.map results⟩ := by
  have hstart := (Strategy.merge_nil (.ofConditions kind limit conditions)).symm
  constructor
  · exact ⟨head?_rounds _ _ _ _, hfirst⟩
  · exact fun request h => eq_of_mem_rounds h
  · intro i hi request
    rw [hstart] at hi ⊢
    exact getElem?_rounds [] metrics first replies hi request
  · intro fault
    rw [map_eq_error_iff, hstart]
    exact rounds_error_iff [] metrics first replies fault

end Rounds

/-! ## Runs -/

/-- A query may be refused for its order clause if that is looked into. -/
lemma orderConditions_of_ordering_error {kind : StrategyKind} {query : String}
    {refusal : QueryError} (h : ordering kind query = .error refusal) :
    kind.ranksOnClient = true ∧ Query.orderConditions query = .error refusal := by
  unfold ordering at h
  split at h
  · next hkind =>
    refine ⟨hkind, ?_⟩
    cases hconditions : Query.orderConditions query with
    | ok conditions =>
      rw [hconditions] at h
      cases h
    | error e =>
      rw [hconditions] at h
      cases h
      rfl
  · cases h

/-- A query that cannot be rewritten has no projection that can be widened. -/
lemma projectAll_of_rewritten_error {kind : StrategyKind} {query : String} {limit : Nat}
    {refusal : QueryError} (h : Query.rewritten kind query limit = .error refusal) :
    Query.projectAll query = .error refusal := by
  unfold Query.rewritten at h
  cases hall : Query.projectAll query with
  | ok all =>
    rw [hall] at h
    cases h
  | error e =>
    rw [hall] at h
    cases h
    rfl

/-- **The requests of a run.** A query that is refused is not sent. Otherwise the first request has
no token and the others differ from it in their token only. There is a further request exactly if
the last reply carries a token that can be forwarded. That token is sent as it came, unless the
strategy sends its bound and at least as many solutions have arrived as are wanted, and these are
more than none: then it is the returned token with the bound put in. If that cannot be done, there
is no further request and the run fails for that reason; nothing else about a token makes a run
fail.

**Proof sketch.** Induction on the replies (`getElem?_rounds`, `rounds_error_iff`), from a state
that has merged what has been received so far. Such a state has a bound exactly if enough solutions
have arrived (`bound?_merge`). -/
theorem run_follows_protocol (kind : StrategyKind) (options : Options) (query : String)
    (replies : List Reply) :
    (∃ refusal, (Query.wanted query options.limit = .error refusal ∨
        kind.ranksOnClient = true ∧ Query.orderConditions query = .error refusal ∨
        Query.projectAll query = .error refusal) ∧
      (run kind options query replies).requests = [] ∧
      (run kind options query replies).result = .error (.malformedQuery refusal)) ∨
    ∃ (limit : Nat) (conditions : List OrderCondition) (text : String),
      Query.wanted query options.limit = .ok limit ∧
      (kind.ranksOnClient = true → Query.orderConditions query = .ok conditions) ∧
      Query.rewritten kind query limit = .ok text ∧
      Protocol kind limit conditions (firstRequest kind options text) replies
        (run kind options query replies) := by
  unfold run
  cases hlimit : Query.wanted query options.limit with
  | error refusal => exact .inl ⟨refusal, .inl rfl, rfl, rfl⟩
  | ok limit =>
    cases hordering : ordering kind query with
    | error refusal =>
      exact .inl ⟨refusal, .inr (.inl (orderConditions_of_ordering_error hordering)), rfl, rfl⟩
    | ok settled =>
      obtain ⟨conditions, ordered⟩ := settled
      cases htext : Query.rewritten kind query limit with
      | error refusal =>
        exact .inl ⟨refusal, .inr (.inr (projectAll_of_rewritten_error htext)),
          by simp only [htext]; rfl, by simp only [htext]; rfl⟩
      | ok text =>
        refine .inr ⟨limit, conditions, text, rfl,
          fun hkind => orderConditions_of_ordering hkind hordering, htext, ?_⟩
        simp only [htext]
        exact protocol_rounds .none rfl replies _ _

end Execution

end PagedTopK
