import PagedTopK.Service.Response

set_option autoImplicit false

/-!
# Metrics of an execution

What an execution has cost. Byte counts stay at the greatest 64-bit number once they reach it; times
are added up in double precision.

## Main definitions

* `Metrics` — the counts and times.
* `Metrics.afterRound` — the metrics after one more round.
* `Metrics.json`, `Metrics.ofDocument` — their JSON form.
-/

namespace PagedTopK

open Json (ReadError Reader Field Given)

/-- **What an execution has cost.** Times are in milliseconds. -/
structure Metrics where
  /-- The time from the first request to the results. -/
  executionTime : Binary64
  /-- How many bytes have been sent and received. -/
  dataTransfer : Nat
  /-- How many requests have been answered. -/
  httpCalls : Nat
  /-- How many solutions there are. -/
  solutions : Nat
  /-- The sum of the times to take up the execution. -/
  resumingTime : Binary64
  /-- The sum of the times to lay it down. -/
  savingTime : Binary64
deriving DecidableEq

namespace Metrics

/-- The metrics before the first round. -/
def none : Metrics := ⟨.zero, 0, 0, 0, .zero, .zero⟩

/-- A sum that stays at the greatest 64-bit number. -/
def saturatingAdd (a b : Nat) : Nat := min (a + b) (Digits.word64 - 1)

/-- **The metrics after one more round**, from the sizes of the request and the response. -/
def afterRound (m : Metrics) (sent received : Nat) (stats : ServiceStats) : Metrics :=
  { m with
    dataTransfer := saturatingAdd m.dataTransfer (saturatingAdd sent received)
    httpCalls := m.httpCalls + 1
    resumingTime := m.resumingTime + stats.resumingTime
    savingTime := m.savingTime + stats.savingTime }

/-- The metrics with the number of solutions. -/
def withSolutions (m : Metrics) (count : Nat) : Metrics := { m with solutions := count }

/-- A duration in milliseconds: the seconds and the billionths of a second are added in double
precision and then multiplied. -/
def milliseconds (seconds nanoseconds : Nat) : Binary64 :=
  (Binary64.ofNat seconds + Binary64.ofNat nanoseconds / Binary64.ofNat 1000000000) *
    Binary64.ofNat 1000

/-- The metrics with the time of the execution. -/
def withTime (m : Metrics) (seconds nanoseconds : Nat) : Metrics :=
  { m with executionTime := milliseconds seconds nanoseconds }

/-- The members of the JSON form. -/
def members (m : Metrics) : List (String × Json) :=
  [("execution_time", ServiceStats.timeJson m.executionTime),
    ("data_transfer", .natural m.dataTransfer),
    ("http_calls", .natural m.httpCalls),
    ("solutions", .natural m.solutions),
    ("resuming_time", ServiceStats.timeJson m.resumingTime),
    ("saving_time", ServiceStats.timeJson m.savingTime)]

/-- **The JSON form.** -/
def json (m : Metrics) : Json := .object m.members

/-- The fields in the order of writing. -/
def fields : List Field :=
  [.reads "execution_time" .double, .reads "data_transfer" .natural, .reads "http_calls" .natural,
    .reads "solutions" .natural, .reads "resuming_time" .double, .reads "saving_time" .double]

/-- **The metrics of a document.** -/
def ofDocument : Reader Metrics := fun d => do
  let given ← Given.ofDocument fields d
  return {
    executionTime := ← given.required "execution_time" .double
    dataTransfer := ← given.required "data_transfer" .natural
    httpCalls := ← given.required "http_calls" .natural
    solutions := ← given.required "solutions" .natural
    resumingTime := ← given.required "resuming_time" .double
    savingTime := ← given.required "saving_time" .double }

end Metrics

end PagedTopK
