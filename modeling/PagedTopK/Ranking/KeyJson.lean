import PagedTopK.Json.Reader
import PagedTopK.Ranking.Key

set_option autoImplicit false

/-!
# Ranking keys in JSON

## Main definitions

* `RankingKey.json`, `RankingKey.ofDocument` — a key as an object with a name and a direction.
-/

namespace PagedTopK

open Json (ReadError Reader Field Given)

namespace Direction

/-- The direction with a name, in capital letters only, or the objection to it. -/
def choose (name : String) : Except ReadError Direction :=
  if name = ascending.name then .ok ascending
  else if name = descending.name then .ok descending
  else .error (.unknownVariant name [ascending.name, descending.name])

/-- **The direction of a document**: its name, or an object whose one member has that name and is
null. -/
def ofDocument : Reader Direction
  | .scalar (.text name) => choose name
  | .object ((some name, d) :: rest) closed => do
    let direction ← choose name
    match d, rest, closed with
    | .scalar .null, [], true => return direction
    | .scalar .null, _, _ => throw .grammar
    | _, _, _ => throw d.refusal
  | _ => .error .grammar

end Direction

namespace RankingKey

/-- The JSON form. -/
def json (key : RankingKey) : Json :=
  .object [("name", .text key.name), ("direction", .text key.direction.name)]

/-- **The key of a document.** -/
def ofDocument : Reader RankingKey := fun d => do
  let given ← Given.ofDocument [.reads "name" .text, .reads "direction" Direction.ofDocument] d
  return {
    name := ← given.required "name" .text
    direction := ← given.required "direction" Direction.ofDocument }

end RankingKey

end PagedTopK
