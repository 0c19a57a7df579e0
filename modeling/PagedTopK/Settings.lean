import PagedTopK.Text.Digits
import PagedTopK.Yaml.Node

set_option autoImplicit false

/-!
# Settings

A settings file names the service: its address, the default graph and, if wanted, how long to wait
for it. Whatever else the file holds is passed over.

## Main definitions

* `Settings` — what a settings file says.
* `Settings.parse?` — the settings that a YAML text writes.
-/

namespace PagedTopK

open Yaml (Node)

/-- **What a settings file says.** -/
structure Settings where
  /-- The address of the service. -/
  url : String
  /-- The default graph. -/
  graph : String
  /-- How many seconds to wait for the service. -/
  timeout : Option Nat
deriving DecidableEq

namespace Settings

/-- **What a node is**, its name put aside. A number of names means the last one of the nodes with
it, which are given in order. -/
def actual (named : List (Nat × Node)) : Node → Node
  | .label _ node => node
  | .alias number => (named.reverse.lookup number).getD .empty
  | node => node

/-- The text of any scalar. -/
def text? (named : List (Nat × Node)) (node : Node) : Option String :=
  match actual named node with
  | .scalar text _ _ => some text
  | _ => none

/-- The keys of members, if all of them are scalars. -/
def keyed? (named : List (Nat × Node)) : List (Node × Node) → Option (List (String × Node))
  | [] => some []
  | (key, value) :: rest =>
    match text? named key, keyed? named rest with
    | some name, some others => some ((name, value) :: others)
    | _, _ => none

/-- **The members of a section.** None of the given names may come twice; a section that is not
written has no members. -/
def section? (named : List (Nat × Node)) (names : List String) (node : Node) :
    Option (List (String × Node)) :=
  match actual named node with
  | .mapping members =>
    (keyed? named members).filter fun ms =>
      names.all fun name => (ms.filter fun m => m.1 == name).length ≤ 1
  | .scalar "" .plain _ => some []
  | _ => none

/-- The number that hexadecimal, octal or binary digits write. -/
def inBase? (base : Nat) (digits : List Char) : Option Nat :=
  let values := digits.filterMap fun c =>
    let n := if c.isDigit then c.toNat - '0'.toNat else c.toLower.toNat - 'a'.toNat + 10
    if c.isAlphanum ∧ n < base then some n else none
  let n := values.foldl (fun n d => base * n + d) 0
  if digits ≠ [] ∧ values.length = digits.length ∧ n < Digits.word64 then some n else none

/-- **The natural number of a plain scalar**: decimal digits without a leading zero, or digits after
`0x`, `0o` or `0b`, with an optional plus sign. -/
def number? (text : List Char) : Option Nat :=
  let digits := match text with
    | '+' :: rest => rest
    | _ => text
  match digits with
  | '0' :: 'x' :: rest => inBase? 16 rest
  | '0' :: 'o' :: rest => inBase? 8 rest
  | '0' :: 'b' :: rest => inBase? 2 rest
  | '0' :: _ :: _ => none
  | _ => inBase? 10 digits

/-- The spellings of nothing. -/
def nullNames : List String := ["~", "null", "Null", "NULL"]

/-- The tag of nothing. -/
def nullTag : List UInt8 := Utf8.encode "tag:yaml.org,2002:null".toList

/-- The tag of integers. -/
def integerTag : List UInt8 := Utf8.encode "tag:yaml.org,2002:int".toList

/-- **A natural number or nothing.** A tag other than that of nothing asks for a number; only a
plain scalar is one, or one on lines of its own that are kept and with the tag of integers. -/
def optionalNumber? (named : List (Nat × Node)) (node : Node) : Option (Option Nat) :=
  match actual named node with
  | .scalar text .plain none =>
    if text = "" ∨ text ∈ nullNames then some none else (number? text.toList).map some
  | .scalar text .plain (some tag) =>
    if tag = nullTag then if text ∈ nullNames then some none else none
    else (number? text.toList).map some
  | .scalar text .literal (some tag) =>
    if tag = integerTag then (number? text.toList).map some else none
  | _ => none

/-- The settings of a node. -/
def ofNode? (node : Node) : Option Settings := do
  let named := node.labelled
  let all ← section? named ["endpoints", "http"] node
  let endpoints ← all.lookup "endpoints" >>= section? named ["sage"]
  let service ← endpoints.lookup "sage" >>= section? named ["url", "graph"]
  let url ← service.lookup "url" >>= text? named
  let graph ← service.lookup "graph" >>= text? named
  let http ← match all.lookup "http" with
    | some h => section? named ["timeout_secs"] h
    | none => some []
  let timeout ← match http.lookup "timeout_secs" with
    | some t => optionalNumber? named t
    | none => some none
  return { url, graph, timeout }

/-- **The settings that a YAML text writes.** -/
def parse? (text : String) : Option Settings := (Yaml.parse? text.toList).bind ofNode?

end Settings

end PagedTopK
