import PagedTopK.Json.Reader
import PagedTopK.Solution
import PagedTopK.Text.Digits

set_option autoImplicit false

/-!
# Responses

What the service returns in one round: a page of solutions, the token for the next round or null
after the last one, and the times that it took to resume and to save the execution.

## Main definitions

* `ServiceStats`, `Response` — the parts of a response.
* `ResponseError` — why a response is refused.
* `Response.parse` — the response that a text writes.
-/

namespace PagedTopK

open Json (ReadError Reader Field Given)

/-- **The times that the service reports**, in milliseconds. -/
structure ServiceStats where
  /-- The time to take up the execution. -/
  resumingTime : Binary64
  /-- The time to lay it down. -/
  savingTime : Binary64
deriving DecidableEq

namespace ServiceStats

/-- No time at all. -/
def none : ServiceStats := ⟨.zero, .zero⟩

/-- The value of a double; null if it is not finite. -/
def timeJson (x : Binary64) : Json := if x.isFinite then .double x else .null

/-- The JSON form. -/
def json (s : ServiceStats) : Json :=
  .object [("resuming_time", timeJson s.resumingTime), ("saving_time", timeJson s.savingTime)]

/-- The times of a document. -/
def ofDocument : Reader ServiceStats := fun d => do
  let given ← Given.ofDocument [.reads "resuming_time" .double, .reads "saving_time" .double] d
  return {
    resumingTime := ← given.required "resuming_time" .double
    savingTime := ← given.required "saving_time" .double }

end ServiceStats

/-- **One response of the service.** -/
structure Response where
  /-- The solutions of the page. -/
  bindings : List Solution
  /-- The token for the next round, none after the last one. -/
  next : Option String
  /-- The reported times. -/
  stats : ServiceStats
deriving DecidableEq

/-- **Why a response is refused.** -/
inductive ResponseError where
  /-- It is not JSON. -/
  | notJson (cause : ReadError)
  /-- It is not an object. -/
  | notObject
  /-- The solutions are missing. -/
  | noBindings
  /-- The solutions are not an array. -/
  | bindingsNotArray
  /-- A solution is not an object. -/
  | bindingNotObject (index : Nat)
  /-- A solution binds something that is not a text. -/
  | termNotText (index : Nat) (name : String)
  /-- The token is missing. -/
  | noNext
  /-- The token is neither a text nor null. -/
  | nextNotText
  /-- The times are neither an object nor null. -/
  | statsNotObject
  /-- A time is neither a number nor null. -/
  | statNotNumber (name : String)
deriving DecidableEq

/-- The wording of a cause. -/
def ResponseError.message : ResponseError → String
  | notJson cause => "response is not valid JSON: " ++ cause.message
  | notObject => "response MUST be a JSON object"
  | noBindings => "response is missing `bindings`"
  | bindingsNotArray => "`bindings` MUST be an array"
  | bindingNotObject index => "binding " ++ Digits.text index ++ " MUST be an object"
  | termNotText index name =>
    "binding " ++ Digits.text index ++ ": value of `" ++ name ++ "` MUST be a string"
  | noNext => "response is missing `next`"
  | nextNotText => "`next` MUST be a string or null"
  | statsNotObject => "`stats` MUST be an object"
  | statNotNumber name => "`stats." ++ name ++ "` MUST be a number"

namespace Response

/-- The bindings of a solution, in the order of writing. -/
def readTerms (index : Nat) : List (String × Json) → Except ResponseError (List (String × String))
  | [] => .ok []
  | (name, .text term) :: rest => (readTerms index rest).map ((name, term) :: ·)
  | (name, _) :: _ => .error (.termNotText index name)

/-- The solutions of a page; the first one has the given number. -/
def readBindings (index : Nat) : List Json → Except ResponseError (List Solution)
  | [] => .ok []
  | .object members :: rest => do
    let terms ← readTerms index members
    let others ← readBindings (index + 1) rest
    return Solution.ofList terms :: others
  | _ :: _ => .error (.bindingNotObject index)

/-- A reported time; missing or null it is zero. -/
def readTime (stats : List (String × Json)) (name : String) : Except ResponseError Binary64 :=
  match stats.lookup name with
  | none | some .null => .ok .zero
  | some (.integer i) => .ok (Binary64.ofInt i)
  | some (.double x) => .ok x
  | some _ => .error (.statNotNumber name)

/-- The response that a value writes. The solutions are looked at first, then the token, then the
times. -/
def ofJson : Json → Except ResponseError Response
  | .object members => do
    let bindings ← match members.lookup "bindings" with
      | some (.array rows) => readBindings 0 rows
      | some _ => .error .bindingsNotArray
      | none => .error .noBindings
    let next ← match members.lookup "next" with
      | some .null => .ok none
      | some (.text token) => .ok (some token)
      | some _ => .error .nextNotText
      | none => .error .noNext
    let stats ← match members.lookup "stats" with
      | none | some .null => .ok ServiceStats.none
      | some (.object stats) => do
        let resumingTime ← readTime stats "resuming_time"
        let savingTime ← readTime stats "saving_time"
        .ok ⟨resumingTime, savingTime⟩
      | some _ => .error .statsNotObject
    return { bindings, next, stats }
  | _ => .error .notObject

/-- **The response that a text writes.** -/
def parse (body : String) : Except ResponseError Response :=
  match Json.readWith .value body.toList with
  | .ok value => ofJson value
  | .error cause => .error (.notJson cause)

end Response

end PagedTopK
