import PagedTopK.Json.Reader
import PagedTopK.Json.Writer

set_option autoImplicit false

/-!
# Requests

What the client sends in one round. A round after the first one carries the token that the service
returned, so that the execution goes on where it was suspended.

## Main definitions

* `Request` — the fields of a request.
* `Request.json`, `Request.ofDocument` — its JSON form.
-/

namespace PagedTopK

open Json (ReadError Reader Field Given)

/-- **One request to the service.** -/
structure Request where
  /-- The text of the query. -/
  query : String
  /-- The graph that the query is about. -/
  defaultGraph : String
  /-- The token of the suspended execution. -/
  next : Option String
  /-- How long the round may take, in milliseconds. -/
  quota : Option Nat
  /-- Whether the order of joins is that of the query. -/
  forceOrder : Bool
  /-- Whether the service drops solutions early. -/
  earlyPruning : Bool
  /-- Whether the service keeps nothing between rounds. -/
  stateless : Bool
  /-- How many results one round may give. -/
  maxLimit : Option Nat
  /-- The selector of the ranking operator. -/
  topkStrategy : Option String
deriving DecidableEq

namespace Request

/-- **The JSON form.** What is absent is null, but an absent selector is left out. -/
def json (r : Request) : Json :=
  .object ([
    ("query", .text r.query),
    ("defaultGraph", .text r.defaultGraph),
    ("next", Json.optional .text r.next),
    ("quota", Json.optional .natural r.quota),
    ("forceOrder", .bool r.forceOrder),
    ("earlyPruning", .bool r.earlyPruning),
    ("stateless", .bool r.stateless),
    ("maxLimit", Json.optional .natural r.maxLimit)] ++
    (r.topkStrategy.map fun s => ("topkStrategy", Json.text s)).toList)

/-- The text that is sent. -/
def body (r : Request) : String := r.json.compact

/-- The fields in the order of writing. -/
def fields : List Field :=
  [.reads "query" .text, .reads "defaultGraph" .text, .reads "next" (.optional .text),
    .reads "quota" (.optional .natural), .reads "forceOrder" .flag, .reads "earlyPruning" .flag,
    .reads "stateless" .flag, .reads "maxLimit" (.optional .natural),
    { Field.reads "topkStrategy" (.optional .text) with mayEnd := true }]

/-- **The request of a document.** -/
def ofDocument : Reader Request := fun d => do
  let given ← Given.ofDocument fields d
  return {
    query := ← given.required "query" .text
    defaultGraph := ← given.required "defaultGraph" .text
    next := ← given.possible "next" .text
    quota := ← given.possible "quota" .natural
    forceOrder := ← given.required "forceOrder" .flag
    earlyPruning := ← given.required "earlyPruning" .flag
    stateless := ← given.required "stateless" .flag
    maxLimit := ← given.possible "maxLimit" .natural
    topkStrategy := ← given.possible "topkStrategy" .text }

end Request

end PagedTopK
