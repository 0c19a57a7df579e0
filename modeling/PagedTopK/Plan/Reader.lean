import PagedTopK.Json.Reader
import PagedTopK.Plan.Basic

set_option autoImplicit false

/-!
# Reading and writing plans

A plan is written as an object with a member `root`, and an operator as an object with a member
`type`. The outermost operator is read in the order of the text: its kind is looked at where it
stands, but what its other members hold is looked into only after its closing brace. The operators
below it are read from values.

## Main definitions

* `PlanNode.ofJson` — an operator from a value.
* `Plan.ofDocument` — a plan from a document.
* `PlanNode.json`, `Plan.json` — the value that writes an operator or a plan.
-/

namespace PagedTopK

open Json (ReadError Reader Document)

/-! ## Kinds -/

/-- The operator with a name, or the objection to it. -/
def Operator.choose (name : String) : Except ReadError Operator :=
  match ofName? name with
  | some op => .ok op
  | none => .error (.unknownVariant name names)

/-- The operator that a document names. -/
def Operator.ofDocument : Reader Operator := fun d => Reader.text d >>= choose

/-- The operator that a value names, or gives by its place among all operators. -/
def Operator.ofJson : Json → Except ReadError Operator
  | .text name => choose name
  | .integer (.ofNat i) =>
    match all[i]? with
    | some op => .ok op
    | none => .error .wrongType
  | _ => .error .wrongType

/-- **The kind of an operator**, from its members in order. -/
def Operator.ofMembers : Option Operator → Members → Except ReadError Operator
  | some op, [] => .ok op
  | none, [] => .error (.missingField "type")
  | found, (name, value) :: rest =>
    if name = "type" then
      match found with
      | some _ => .error (.duplicateField "type")
      | none =>
        match ofJson value with
        | .ok op => ofMembers (some op) rest
        | .error e => .error e
    else ofMembers found rest

namespace PlanNode

/-! ## Operators from values -/

/-- Other members of an operator: those with a name of their own left out, repeated names
merged. -/
def otherMembers (own : List String) (members : Members) : Members :=
  Json.mergeMembers (Json.collapseMembers (members.filter fun m => !own.contains m.1))

/-- The threshold among the members of a ranking operator, from the values of that name. -/
def readThreshold : Json → Except ReadError Members
  | .object members => .ok (Json.mergeMembers (Json.collapseMembers members))
  | _ => .error .wrongType

mutual

/-- **The operator that a value writes.** A list is refused, but only after the kind that it begins
with has been looked at. -/
def ofJson : Json → Except ReadError PlanNode
  | .object members => do
    match ← Operator.ofMembers none members with
    | .wrapper kind => ofWrapper kind none members members
    | .ranking kind => ofRanking kind none none members members
    | .leaf kind => return leaf kind (otherMembers ["type"] members)
  | .array [] => .error (.missingField "type")
  | .array (first :: _) =>
    match Operator.ofJson first with
    | .ok _ => .error .wrongType
    | .error e => .error e
  | _ => .error .wrongType

/-- A wrapper from its members in order; `source` has been found already or not. -/
def ofWrapper (kind : WrapperKind) (source : Option PlanNode) (all : Members) :
    Members → Except ReadError PlanNode
  | [] =>
    match source with
    | some s => .ok (wrapper kind s (otherMembers ["type", "source"] all))
    | none => .error (.missingField "source")
  | (name, value) :: rest =>
    if name = "source" then
      match source with
      | some _ => .error (.duplicateField "source")
      | none =>
        match ofJson value with
        | .ok s => ofWrapper kind (some s) all rest
        | .error e => .error e
    else ofWrapper kind source all rest

/-- A ranking operator from its members in order; what has been found already is given. A source may
be null. -/
def ofRanking (kind : RankingKind) (threshold : Option Members)
    (source : Option (Option PlanNode)) (all : Members) : Members → Except ReadError PlanNode
  | [] =>
    .ok (ranking kind (threshold.getD []) (source.getD none)
      (otherMembers ["type", "threshold", "source"] all))
  | (name, value) :: rest =>
    if name = "threshold" then
      match threshold with
      | some _ => .error (.duplicateField "threshold")
      | none =>
        match readThreshold value with
        | .ok t => ofRanking kind (some t) source all rest
        | .error e => .error e
    else if name = "source" then
      match source, value with
      | some _, _ => .error (.duplicateField "source")
      | none, .null => ofRanking kind threshold (some none) all rest
      | none, value =>
        match ofJson value with
        | .ok s => ofRanking kind threshold (some (some s)) all rest
        | .error e => .error e
    else ofRanking kind threshold source all rest

end

/-- An operator of a known kind from its other members. -/
def ofKind (op : Operator) (members : Members) : Except ReadError PlanNode :=
  match op with
  | .wrapper kind => ofWrapper kind none members members
  | .ranking kind => ofRanking kind none none members members
  | .leaf kind => .ok (leaf kind (otherMembers ["type"] members))

/-! ## The outermost operator -/

/-- Read any value, with room for brackets. -/
def readValue (room : Nat) : Reader Json := fun d =>
  match d.json? room with
  | some v => .ok v
  | none => .error .grammar

/-- The kind and the other members of an operator, in the order of the text. -/
def readMembers (room : Nat) (closed : Bool) :
    Option Operator → List (Option String × Document) → Except ReadError (Operator × Members)
  | _, (none, _) :: _ => .error .grammar
  | found, (some name, d) :: rest => do
    if name = "type" then
      if found.isSome then throw (.duplicateField "type")
      let op ← Operator.ofDocument d
      readMembers room closed (some op) rest
    else
      let value ← readValue room d
      let (op, others) ← readMembers room closed found rest
      return (op, (name, value) :: others)
  | found, [] =>
    if !closed then .error .grammar
    else match found with
      | some op => .ok (op, [])
      | none => .error (.missingField "type")

/-- **The outermost operator** of a document, with room for brackets. -/
def ofDocument (room : Nat) : Reader PlanNode
  | .object members closed => do
    let (op, others) ← readMembers (room - 1) closed none members
    ofKind op others
  | .array [] closed => .error (if closed then .missingField "type" else .grammar)
  | .array (first :: rest) closed => do
    let _ ← Operator.ofDocument first
    let _ ← rest.mapM (readValue (room - 1))
    .error (if closed then .wrongType else .grammar)
  | d => .error d.refusal

/-! ## Writing -/

/-- **The value that writes an operator**: its kind, its threshold unless that is empty, its source
if there is one, and its other fields. -/
def json : PlanNode → Json
  | wrapper kind source fields =>
    .object (("type", .text (Operator.wrapper kind).name) :: ("source", source.json) :: fields)
  | ranking kind threshold source fields =>
    let sourceMember := match source with
      | none => []
      | some s => [("source", s.json)]
    .object (("type", .text (Operator.ranking kind).name) ::
      ((if threshold.isEmpty then [] else [("threshold", .object threshold)]) ++
        sourceMember ++ fields))
  | leaf kind fields => .object (("type", .text (Operator.leaf kind).name) :: fields)

end PlanNode

namespace Plan

/-- The members of a plan, in the order of the text; the outermost operator has been found already
or not. -/
def readMembers (closed : Bool) :
    Option PlanNode → List (Option String × Document) → Except ReadError (PlanNode × Members)
  | _, (none, _) :: _ => .error .grammar
  | found, (some name, d) :: rest => do
    if name = "root" then
      if found.isSome then throw (.duplicateField "root")
      let node ← PlanNode.ofDocument (Json.maxDepth - 1) d
      readMembers closed (some node) rest
    else
      let value ← PlanNode.readValue (Json.maxDepth - 1) d
      let (node, others) ← readMembers closed found rest
      return (node, (name, value) :: others)
  | found, [] =>
    if !closed then .error .grammar
    else match found with
      | some node => .ok (node, [])
      | none => .error (.missingField "root")

/-- **The plan of a document.** -/
def ofDocument : Reader Plan
  | .object members closed => do
    let (root, others) ← readMembers closed none members
    return ⟨root, Json.mergeMembers (Json.collapseMembers others)⟩
  | d => .error d.refusal

/-- **The value that writes a plan**: the outermost operator and the fields beside it. -/
def json (p : Plan) : Json := .object (("root", p.root.json) :: p.extra)

end Plan

end PagedTopK
