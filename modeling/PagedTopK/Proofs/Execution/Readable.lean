import PagedTopK.Proofs.Execution.Cost
import PagedTopK.Proofs.Json.Finite
import PagedTopK.Proofs.Json.Record
import PagedTopK.Proofs.Service.Response

set_option autoImplicit false

/-!
# Metrics that can be read

A response is read only if the times in it are finite, but the times of all rounds are added up
without a look at the result, and a double that is not finite is written as null. So the text of the
metrics has a number in every field, and can be read, exactly if no step of the two sums overflows.

## Main definitions

* `Json.isNumber` — whether a value is a number.
* `Metrics.IsComplete` — whether a text has a number in every field of the metrics.
* `Execution.Exchange.StayInRange` — whether no step of the sums of the times overflows.

## Main results

* `Response.isFinite_stats` — the times of a response are finite.
* `Metrics.isFinite_milliseconds` — so is any measured time.
* `Metrics.readWith_compact` — what the text of metrics is read as.
* `Execution.metrics_readable_iff` — when the metrics of a run can be read.
* `Execution.metrics_unreadable_of_long_rounds` — a run of which they cannot.
-/

namespace PagedTopK

open Binary64 (StaysInRange)

/-! ## Reported times -/

namespace ServiceStats

/-- **Whether reported times are finite.** -/
structure IsFinite (s : ServiceStats) : Prop where
  /-- The time to take up the execution is. -/
  resuming : s.resumingTime.isFinite = true
  /-- The time to lay it down is. -/
  saving : s.savingTime.isFinite = true

lemma isFinite_none : IsFinite none := ⟨rfl, rfl⟩

end ServiceStats

namespace Response

lemma isFinite_of_readTime {stats : List (String × Json)} {name : String} {x : Binary64}
    (hexact : ∀ m ∈ stats, m.2.all Json.isExact = true) (h : readTime stats name = .ok x) :
    x.isFinite = true := by
  unfold readTime at h
  split at h
  · cases h
    rfl
  · cases h
    rfl
  · next i hlookup =>
    cases h
    have hword := hexact _ (mem_of_lookup hlookup)
    simp only [Json.all, Json.isExact, decide_eq_true_eq] at hword
    have hbound : i.natAbs ≤ 2 ^ 64 := by omega
    exact (Binary64.isAtMost_ofInt (by decide) hbound).isFinite
  · next y hlookup =>
    cases h
    exact hexact _ (mem_of_lookup hlookup)
  · cases h

lemma isFinite_of_readStats {v? : Option Json} {stats : ServiceStats}
    (hexact : ∀ v ∈ v?, v.all Json.isExact = true) (h : readStats v? = .ok stats) :
    stats.IsFinite := by
  unfold readStats at h
  split at h
  · cases h
    exact ServiceStats.isFinite_none
  · cases h
    exact ServiceStats.isFinite_none
  · next times =>
    have htimes := hexact _ rfl
    rw [Json.all, Json.allMembers_iff] at htimes
    obtain ⟨resuming, hresuming, h⟩ := bind_eq_ok_iff.1 h
    obtain ⟨saving, hsaving, h⟩ := bind_eq_ok_iff.1 h
    cases h
    exact ⟨isFinite_of_readTime htimes hresuming, isFinite_of_readTime htimes hsaving⟩
  · cases h

/-- **The times of a response are finite**: integers have 64 bits, and a numeral beyond every double
is refused. -/
theorem isFinite_stats {raw : String} {r : Response} (h : parse raw = .ok r) :
    r.stats.IsFinite := by
  unfold parse at h
  split at h
  · next value hread =>
    have hexact := (Json.all_isExact_of_readWith hread).2
    cases value with
    | object members =>
      rw [Json.all, Json.allMembers_iff] at hexact
      rw [ofJson_object] at h
      obtain ⟨bindings, -, h⟩ := bind_eq_ok_iff.1 h
      obtain ⟨next, -, h⟩ := bind_eq_ok_iff.1 h
      obtain ⟨stats, hstats, h⟩ := bind_eq_ok_iff.1 h
      cases h
      exact isFinite_of_readStats (fun v hv => hexact _ (mem_of_lookup hv)) hstats
    | null | bool | integer | double | text | array => cases h
  · cases h

end Response

/-! ## The text of metrics -/

/-- Whether a value is a number. -/
def Json.isNumber : Json → Bool
  | integer _ | double _ => true
  | _ => false

namespace Metrics

open Json (Reader Given document readWith reread)

/-- **Whether the counts of metrics have 64 bits.** -/
structure Fits (m : Metrics) : Prop where
  /-- The bytes. -/
  dataTransfer : m.dataTransfer < 2 ^ 64
  /-- The requests. -/
  httpCalls : m.httpCalls < 2 ^ 64
  /-- The solutions. -/
  solutions : m.solutions < 2 ^ 64

/-- The metrics with other times. -/
def withTimes (m : Metrics) (execution resuming saving : Binary64) : Metrics :=
  { m with executionTime := execution, resumingTime := resuming, savingTime := saving }

/-- **Metrics as they are read back**, with the times as which their texts are read. -/
def reread (m : Metrics) : Metrics :=
  m.withTimes (Json.reread m.executionTime) (Json.reread m.resumingTime)
    (Json.reread m.savingTime)

/-- **Whether a text has a number in every field** of the metrics. -/
def IsComplete (text : String) : Prop :=
  ∃ members, Json.parse? text.toList = some (.object members) ∧
    ∀ field ∈ fields, ∃ v, members.lookup field.name = some v ∧ v.isNumber = true

variable {m : Metrics}

/-- A time as it is read back. -/
lemma rewritten_timeJson (x : Binary64) :
    (ServiceStats.timeJson x).rewritten =
      if x.isFinite then .double (Json.reread x) else .null := by
  unfold ServiceStats.timeJson
  split
  · next hx => rw [Json.rewritten, if_pos hx]
  · rfl

lemma isNumber_rewritten_timeJson (x : Binary64) :
    (ServiceStats.timeJson x).rewritten.isNumber = x.isFinite := by
  rw [rewritten_timeJson]
  split
  · next hx => exact hx.symm
  · next hx => exact (Bool.not_eq_true _ ▸ hx).symm

/-- The members of the text. -/
def writtenMembers (m : Metrics) : List (String × Json) :=
  m.members.map fun member => (member.1, member.2.rewritten)

lemma all_isWord_json (h : m.Fits) : m.json.all Json.isWord = true := by
  have htime : ∀ x, (ServiceStats.timeJson x).all Json.isWord = true := by
    intro x
    unfold ServiceStats.timeJson
    split <;> rfl
  have hcount : ∀ {n : Nat}, n < 2 ^ 64 → (Json.natural n).all Json.isWord = true := by
    intro n hn
    simp only [Json.natural, Json.all, Json.isWord, decide_eq_true_eq]
    constructor <;> omega
  rw [json, Json.all, Json.allMembers_iff]
  simp only [members, List.forall_mem_cons]
  exact ⟨htime _, hcount h.dataTransfer, hcount h.httpCalls, hcount h.solutions, htime _, htime _,
    List.forall_mem_nil _⟩

lemma rewritten_json (m : Metrics) : m.json.rewritten = .object m.writtenMembers := by
  rw [json, Json.rewritten, Json.rewrittenMembers_eq_map]
  rfl

/-- The text of metrics holds their members. -/
lemma readText_compact (h : m.Fits) :
    Json.readText m.json.compact.toList = (document (.object m.writtenMembers), false) := by
  rw [Json.compact, String.toList_ofList, Json.readText_compactChars (all_isWord_json h),
    rewritten_json]

/-- Metrics are read from their members unless a time is null. -/
lemma ofDocument_writtenMembers (m : Metrics) :
    ofDocument (document (.object m.writtenMembers)) =
      if m.executionTime.isFinite && m.resumingTime.isFinite && m.savingTime.isFinite then
        .ok m.reread
      else .error .wrongType := by
  have hmembers : m.writtenMembers =
      [("execution_time", (ServiceStats.timeJson m.executionTime).rewritten),
        ("data_transfer", .natural m.dataTransfer), ("http_calls", .natural m.httpCalls),
        ("solutions", .natural m.solutions),
        ("resuming_time", (ServiceStats.timeJson m.resumingTime).rewritten),
        ("saving_time", (ServiceStats.timeJson m.savingTime).rewritten)] := rfl
  rw [hmembers, rewritten_timeJson, rewritten_timeJson, rewritten_timeJson]
  cases m.executionTime.isFinite <;> cases m.resumingTime.isFinite <;>
    cases m.savingTime.isFinite <;> rfl

/-- **What the text of metrics is read as**: the metrics with the times as which their texts are
read, but nothing if a time is not finite. -/
theorem readWith_compact (h : m.Fits) :
    readWith ofDocument m.json.compact.toList =
      if m.executionTime.isFinite && m.resumingTime.isFinite && m.savingTime.isFinite then
        .ok m.reread
      else .error .wrongType := by
  rw [readWith, readText_compact h]
  dsimp only
  rw [ofDocument_writtenMembers]
  split <;> next heq => exact heq.symm

/-- The object that the text of metrics writes. -/
lemma parse?_compact (h : m.Fits) :
    Json.parse? m.json.compact.toList = some (.object m.writtenMembers) := by
  have htime : ∀ x : Binary64, (ServiceStats.timeJson x).rewritten.isDistinct = true ∧
      (ServiceStats.timeJson x).rewritten.depth = 0 := by
    intro x
    rw [rewritten_timeJson]
    split <;> exact ⟨rfl, rfl⟩
  have hdistinct : Json.isDistinct (.object m.writtenMembers) = true := by
    rw [Json.isDistinct_object]
    refine ⟨by simp [writtenMembers, members], ?_⟩
    simp only [writtenMembers, members, List.map_cons, List.map_nil, List.forall_mem_cons]
    exact ⟨(htime _).1, rfl, rfl, rfl, (htime _).1, (htime _).1, List.forall_mem_nil _⟩
  have hdepth : Json.depth (.object m.writtenMembers) ≤ Json.maxDepth := by
    refine Nat.succ_le_succ (Nat.le_trans (Json.depthMembers_le.2 ?_) (Nat.zero_le 126))
    simp only [writtenMembers, members, List.map_cons, List.map_nil, List.forall_mem_cons]
    exact ⟨(htime _).2.le, Nat.le_refl 0, Nat.le_refl 0, Nat.le_refl 0, (htime _).2.le,
      (htime _).2.le, List.forall_mem_nil _⟩
  have hvalue : Reader.value (document (.object m.writtenMembers)) =
      .ok (.object m.writtenMembers) := by
    rw [Reader.value, Json.json?_document, if_pos hdepth]
    exact congrArg Except.ok (Json.collapse_of_isDistinct hdistinct)
  rw [Json.parse?, readWith, readText_compact h]
  simp only [hvalue]
  rfl

/-- **The text of metrics has a number in every field** exactly if all times are finite. -/
lemma isComplete_compact_iff (h : m.Fits) :
    IsComplete m.json.compact ↔ m.executionTime.isFinite = true ∧
      m.resumingTime.isFinite = true ∧ m.savingTime.isFinite = true := by
  have hfields : (∀ field ∈ fields, ∃ v, m.writtenMembers.lookup field.name = some v ∧
      v.isNumber = true) ↔ m.executionTime.isFinite = true ∧
        m.resumingTime.isFinite = true ∧ m.savingTime.isFinite = true := by
    rw [← isNumber_rewritten_timeJson, ← isNumber_rewritten_timeJson m.resumingTime,
      ← isNumber_rewritten_timeJson m.savingTime]
    simp only [fields, List.forall_mem_cons]
    constructor
    · rintro ⟨⟨_, ⟨⟩, hexecution⟩, -, -, -, ⟨_, ⟨⟩, hresuming⟩, ⟨_, ⟨⟩, hsaving⟩, -⟩
      exact ⟨hexecution, hresuming, hsaving⟩
    · rintro ⟨hexecution, hresuming, hsaving⟩
      exact ⟨⟨_, rfl, hexecution⟩, ⟨_, rfl, rfl⟩, ⟨_, rfl, rfl⟩, ⟨_, rfl, rfl⟩,
        ⟨_, rfl, hresuming⟩, ⟨_, rfl, hsaving⟩, List.forall_mem_nil _⟩
  rw [IsComplete, parse?_compact h, ← hfields]
  constructor
  · rintro ⟨_, ⟨⟩, hall⟩
    exact hall
  · exact fun hall => ⟨_, rfl, hall⟩

/-! ## Measured times -/

lemma resumingTime_withTime (m : Metrics) (seconds nanoseconds : Nat) :
    (m.withTime seconds nanoseconds).resumingTime = m.resumingTime := by
  rw [withTime]

lemma savingTime_withTime (m : Metrics) (seconds nanoseconds : Nat) :
    (m.withTime seconds nanoseconds).savingTime = m.savingTime := by
  rw [withTime]

lemma fits_withTime {m : Metrics} (h : m.Fits) (seconds nanoseconds : Nat) :
    (m.withTime seconds nanoseconds).Fits := by
  rw [withTime]
  exact ⟨h.dataTransfer, h.httpCalls, h.solutions⟩

/-- **A measured time is finite**, as long as its parts have 64 bits. -/
theorem isFinite_milliseconds {seconds nanoseconds : Nat} (hseconds : seconds < 2 ^ 64)
    (hnanoseconds : nanoseconds < 2 ^ 64) : (milliseconds seconds nanoseconds).isFinite = true := by
  have hbillion := Binary64.isAtMost_ofNat (k := 64) (n := 1000000000) (by decide) (by decide)
  have hone := Binary64.unitsPerOne_le_units_ofNat hbillion.isFinite (by decide)
  have hwhole := Binary64.isAtMost_ofNat (k := 64) (by decide) hseconds.le
  have hparts := Binary64.isAtMost_ofNat (k := 64) (by decide) hnanoseconds.le
  have hfraction := Binary64.isAtMost_div (by decide) hparts hbillion.isFinite hone
  have hthousand := Binary64.isAtMost_ofNat (k := 10) (n := 1000) (by decide) (by decide)
  have hsum := Binary64.isAtMost_add (by decide) hwhole hfraction
  exact (Binary64.isAtMost_mul (by decide) hsum hthousand).isFinite

end Metrics

/-! ## Runs -/

namespace Execution

/-- **Whether no step of the sums of the times overflows.** -/
structure TimesInRange (exchanges : List Exchange) : Prop where
  /-- Those to take up the execution. -/
  resuming : StaysInRange .zero (exchanges.map fun e => e.response.stats.resumingTime)
  /-- Those to lay it down. -/
  saving : StaysInRange .zero (exchanges.map fun e => e.response.stats.savingTime)

/-- The times after exchanges are added up one after the other. -/
lemma times_afterAll (m : Metrics) (exchanges : List Exchange) :
    (m.afterAll (exchanges.map Exchange.step)).resumingTime =
        (exchanges.map fun e => e.response.stats.resumingTime).foldl (· + ·) m.resumingTime ∧
      (m.afterAll (exchanges.map Exchange.step)).savingTime =
        (exchanges.map fun e => e.response.stats.savingTime).foldl (· + ·) m.savingTime := by
  induction exchanges generalizing m with
  | nil => exact ⟨rfl, rfl⟩
  | cons e rest ih => exact ih (m.after e.step)

/-- The sums of the times are finite exactly if no step of them overflows. -/
lemma isFinite_times_iff (exchanges : List Exchange) :
    (Metrics.none.afterAll (exchanges.map Exchange.step)).resumingTime.isFinite = true ∧
      (Metrics.none.afterAll (exchanges.map Exchange.step)).savingTime.isFinite = true ↔
      TimesInRange exchanges := by
  obtain ⟨hresuming, hsaving⟩ := times_afterAll .none exchanges
  have hstats : ∀ e ∈ exchanges, e.response.stats.IsFinite := fun e _ =>
    Response.isFinite_stats e.understood
  have hzero : Binary64.zero.isFinite = true := rfl
  rw [hresuming, hsaving]
  show (List.foldl _ Binary64.zero _).isFinite = true ∧
    (List.foldl _ Binary64.zero _).isFinite = true ↔ _
  rw [Binary64.isFinite_foldl_add_iff hzero
      (List.forall_mem_map.2 fun e he => (hstats e he).resuming),
    Binary64.isFinite_foldl_add_iff hzero (List.forall_mem_map.2 fun e he => (hstats e he).saving)]
  exact ⟨fun h => ⟨h.1, h.2⟩, fun h => ⟨h.resuming, h.saving⟩⟩

variable {kind : StrategyKind} {options : Options} {query : String} {replies : List Reply}
  {result : Outcome}

/-- The counts of a run have 64 bits if those of its replies and solutions have. -/
lemma fits_metrics (hresult : (run kind options query replies).result = .ok result)
    (hreplies : replies.length < 2 ^ 64) (hsolutions : result.solutions.length < 2 ^ 64) :
    result.metrics.Fits := by
  obtain ⟨exchanges, -, hprefix, hmetrics⟩ := exists_exchanges_of_run hresult
  have hlength := hprefix.length_le
  rw [List.length_map] at hlength
  rw [hmetrics]
  refine ⟨?_, ?_, hsolutions⟩
  · have hnone : Metrics.none.dataTransfer = min (Digits.word64 - 1) 0 := by decide
    have hword : Digits.word64 = 2 ^ 64 := rfl
    show (Metrics.none.afterAll _).dataTransfer < 2 ^ 64
    rw [Metrics.dataTransfer_afterAll hnone]
    omega
  · show (Metrics.none.afterAll _).httpCalls < 2 ^ 64
    rw [Metrics.httpCalls_afterAll, countP_exchanges]
    show 0 + _ < 2 ^ 64
    omega

/-- **When the metrics of a run can be read.** The times of all responses are finite. The text of
the metrics has a number in every field exactly if no step of the two sums of these times overflows,
and exactly then it is read as metrics: those of the run, with the times as which their texts are
read. Otherwise a sum is an infinity or no number, its field is null, and reading the text is
refused.

**Proof sketch.** A response with a time that is not finite is refused (`Response.isFinite_stats`),
and so is null in the place of a number (`Metrics.readWith_compact`). A sum that has left the finite
doubles stays out (`Binary64.isFinite_foldl_add_iff`), while the counts have 64 bits and the
measured time is finite in any case (`Metrics.isFinite_milliseconds`). -/
theorem metrics_readable_iff {seconds nanoseconds : Nat}
    (hresult : (run kind options query replies).result = .ok result)
    (hreplies : replies.length < 2 ^ 64) (hsolutions : result.solutions.length < 2 ^ 64)
    (hseconds : seconds < 2 ^ 64) (hnanoseconds : nanoseconds < 10 ^ 9) :
    ∃ exchanges : List Exchange,
      (run kind options query replies).requests = exchanges.map (·.request) ∧
      exchanges.map (fun e => Except.ok e.raw) <+: replies ∧
      (∀ e ∈ exchanges, e.response.stats.IsFinite) ∧
      (Metrics.IsComplete (result.metrics.withTime seconds nanoseconds).json.compact ↔
        TimesInRange exchanges) ∧
      (∀ read, Json.readWith Metrics.ofDocument
          (result.metrics.withTime seconds nanoseconds).json.compact.toList = .ok read ↔
        TimesInRange exchanges ∧ read = (result.metrics.withTime seconds nanoseconds).reread) := by
  obtain ⟨exchanges, hsent, hprefix, hmetrics⟩ := exists_exchanges_of_run hresult
  have hfits := Metrics.fits_withTime (fits_metrics hresult hreplies hsolutions) seconds nanoseconds
  have htime : (result.metrics.withTime seconds nanoseconds).executionTime.isFinite = true :=
    Metrics.isFinite_milliseconds hseconds (by omega)
  have hsums : (result.metrics.withTime seconds nanoseconds).resumingTime.isFinite = true ∧
      (result.metrics.withTime seconds nanoseconds).savingTime.isFinite = true ↔
      TimesInRange exchanges := by
    rw [← isFinite_times_iff, hmetrics, Metrics.resumingTime_withTime, Metrics.savingTime_withTime]
    rfl
  refine ⟨exchanges, hsent, hprefix, fun e _ => Response.isFinite_stats e.understood, ?_, ?_⟩
  · rw [Metrics.isComplete_compact_iff hfits, ← hsums]
    exact and_iff_right htime
  · intro read
    rw [Metrics.readWith_compact hfits, htime, Bool.true_and, ← hsums, ← Bool.and_eq_true]
    split
    · next hfinite =>
      rw [Except.ok.injEq]
      exact ⟨fun h => ⟨hfinite, h.symm⟩, fun h => h.2.symm⟩
    · next hinfinite => exact iff_of_false nofun fun h => hinfinite h.1

/-- Two pages with times of both signs, one of them an integer and one of them missing. -/
theorem metrics_readable_iff_of_two_pages :
    let query := "SELECT ?x WHERE \x7b\x7d ORDER BY ?x LIMIT 2"
    let options : Options := ⟨"", none, none, none, true, false, false⟩
    let first := "\x7b\"bindings\":[],\"next\":\"t\",\"stats\":\x7b\"resuming_time\":1.7e308\x7d\x7d"
    let last := "\x7b\"bindings\":[\x7b\"x\":\"1\"\x7d],\"next\":null,\"stats\":" ++
      "\x7b\"resuming_time\":-1e300,\"saving_time\":7\x7d\x7d"
    ∃ result : Outcome,
      (run .clientMerge options query [.ok first, .ok last]).result = .ok result ∧
      Metrics.IsComplete (result.metrics.withTime 1 500000000).json.compact ∧
      ∃ exchanges : List Exchange, exchanges.length = 2 ∧ TimesInRange exchanges := by
  intro query options first last
  have hrun : (run .clientMerge options query [.ok first, .ok last]).result.toOption.map
      (fun result => decide (result.metrics.resumingTime.isFinite = true ∧
        result.metrics.savingTime.isFinite = true ∧ result.solutions.length < 2 ^ 64)) =
          some true := by
    decide +kernel
  have hrequests : (run .clientMerge options query [.ok first, .ok last]).requests.length = 2 := by
    decide +kernel
  obtain ⟨result, hresult, hdecide⟩ := exists_of_toOption_map hrun
  obtain ⟨hresuming, hsaving, hfew⟩ := of_decide_eq_true hdecide
  obtain ⟨exchanges, hsent, -, -, hcomplete, -⟩ := @metrics_readable_iff _ _ _ _ _ 1 500000000
    hresult (by decide) hfew (by decide) (by decide)
  have hfits := Metrics.fits_withTime (fits_metrics hresult (by decide) hfew) 1 500000000
  have hread := (Metrics.isComplete_compact_iff hfits).2
  rw [Metrics.resumingTime_withTime, Metrics.savingTime_withTime] at hread
  have hall := hread ⟨Metrics.isFinite_milliseconds (by decide) (by decide), hresuming, hsaving⟩
  refine ⟨result, hresult, hall, exchanges, ?_, hcomplete.1 hall⟩
  rw [hsent, List.length_map] at hrequests
  exact hrequests

/-- **Two long rounds make metrics that cannot be read**: each of the two times is a double, their
sum is not, and null is written in its place. -/
theorem metrics_unreadable_of_long_rounds :
    let query := "SELECT ?x WHERE \x7b\x7d ORDER BY ?x LIMIT 2"
    let options : Options := ⟨"", none, none, none, true, false, false⟩
    let first := "\x7b\"bindings\":[],\"next\":\"t\",\"stats\":\x7b\"resuming_time\":1.7e308\x7d\x7d"
    let last := "\x7b\"bindings\":[],\"next\":null,\"stats\":\x7b\"resuming_time\":1.7e308\x7d\x7d"
    ∃ result : Outcome,
      (run .clientMerge options query [.ok first, .ok last]).result = .ok result ∧
      ¬ Metrics.IsComplete (result.metrics.withTime 1 500000000).json.compact ∧
      ∀ read, Json.readWith Metrics.ofDocument
        (result.metrics.withTime 1 500000000).json.compact.toList ≠ .ok read := by
  intro query options first last
  have hrun : (run .clientMerge options query [.ok first, .ok last]).result.toOption.map
      (fun result => decide (result.metrics.resumingTime.isFinite = false ∧
        result.solutions.length < 2 ^ 64)) = some true := by
    decide +kernel
  obtain ⟨result, hresult, hdecide⟩ := exists_of_toOption_map hrun
  obtain ⟨hinfinite, hfew⟩ := of_decide_eq_true hdecide
  have hfits := Metrics.fits_withTime (fits_metrics hresult (by decide) hfew) 1 500000000
  rw [← Metrics.resumingTime_withTime _ 1 500000000] at hinfinite
  refine ⟨result, hresult, ?_, fun read => ?_⟩
  · rw [Metrics.isComplete_compact_iff hfits, hinfinite]
    exact fun h => Bool.false_ne_true h.2.1
  · rw [Metrics.readWith_compact hfits, hinfinite, Bool.and_false, Bool.false_and]
    exact nofun

end Execution

end PagedTopK
