import PagedTopK.Json.Scanner

set_option autoImplicit false

/-!
# Documents: the shape of a text that should hold JSON

A document is the tree that the tokens of a text describe, up to the first place where the grammar
is violated. What comes after that place is not part of the document. A reader that goes through a
document in order therefore meets its own objections to the values and the fault of the grammar in
the order of the text.

## Main definitions

* `Json.Document` — a tree with at most one fault.
* `Json.Builder` — the part of a document that has been seen, as a tree with a hole at its end.
* `Json.Builder.step` — the builder after one more token.
* `Json.readText` — the document of a text, and whether anything follows it.
-/

namespace PagedTopK.Json

/-- **A tree with at most one fault of grammar**, which comes last in the order of the text. The
name of a member is missing if it has half of a surrogate pair. -/
inductive Document where
  /-- A scalar. -/
  | scalar (value : Scalar)
  /-- An array; unless it is closed, a fault comes after its items. -/
  | array (items : List Document) (closed : Bool)
  /-- An object; unless it is closed, a fault comes after its members. -/
  | object (members : List (Option String × Document)) (closed : Bool)
  /-- A fault where a value should begin. -/
  | broken
deriving Inhabited

/-- **An open bracket around a value that is being read.** Items and members are in reverse. -/
inductive Frame where
  /-- An array with the items before the value. -/
  | array (items : List Document)
  /-- An object with the members before the value, and the name of the value. -/
  | object (members : List (Option String × Document)) (name : Option String)

/-- **What has been seen and what may come.** -/
inductive Builder where
  /-- A value must come. -/
  | value (outer : List Frame)
  /-- In an array, after the bracket or an item. -/
  | array (items : List Document) (outer : List Frame)
  /-- In an object, after the brace or a member. -/
  | object (members : List (Option String × Document)) (outer : List Frame)
  /-- In an object, after a comma. -/
  | nextMember (members : List (Option String × Document)) (outer : List Frame)
  /-- In an object, after the name of a member. -/
  | colon (members : List (Option String × Document)) (name : Option String) (outer : List Frame)
  /-- After the whole document. -/
  | done (document : Document)
  /-- After a fault, or after a token that follows the document. -/
  | ended (document : Document) (whole : Bool)

namespace Builder

/-- Put a complete value into the innermost open bracket. -/
def complete (d : Document) : List Frame → Builder
  | [] => done d
  | .array items :: outer => array (d :: items) outer
  | .object members name :: outer => object ((name, d) :: members) outer

/-- The document of a value with a fault in it or after it, inside open brackets. -/
def enclose (d : Document) (outer : List Frame) : Document :=
  outer.foldl (fun d frame =>
    match frame with
    | .array items => .array (d :: items).reverse false
    | .object members name => .object ((name, d) :: members).reverse false) d

/-- The builder after a fault. -/
def fault (d : Document) (outer : List Frame) : Builder := ended (enclose d outer) false

/-- The name that a token gives to a member, if it gives one: none if that has half of a surrogate
pair. -/
def nameOf? : Token → Option (Option String)
  | .scalar (.text s) => some (some s)
  | .scalar .loneSurrogate => some none
  | _ => none

/-- The builder after a token where a value must come. -/
def beginValue (outer : List Frame) : Token → Builder
  | .scalar s => complete (.scalar s) outer
  | .openArray => array [] outer
  | .openObject => object [] outer
  | _ => fault .broken outer

/-- The builder after a token where the name of a member must come. -/
def beginMember (members : List (Option String × Document)) (outer : List Frame) (t : Token) :
    Builder :=
  match nameOf? t with
  | some n => colon members n outer
  | none => fault (.object members.reverse false) outer

/-- **The builder after one more token.** -/
def step (b : Builder) (t : Token) : Builder :=
  match b with
  | value outer => beginValue outer t
  | array items outer =>
    match t, items with
    | .closeArray, _ => complete (.array items.reverse true) outer
    | .comma, _ :: _ => value (.array items :: outer)
    | _, [] => beginValue (.array [] :: outer) t
    | _, _ => fault (.array items.reverse false) outer
  | object members outer =>
    match t, members with
    | .closeObject, _ => complete (.object members.reverse true) outer
    | .comma, _ :: _ => nextMember members outer
    | _, [] => beginMember [] outer t
    | _, _ => fault (.object members.reverse false) outer
  | nextMember members outer => beginMember members outer t
  | colon members n outer =>
    match t with
    | .colon => value (.object members n :: outer)
    | _ => fault (.object ((n, .broken) :: members).reverse false) outer
  | done d => ended d true
  | ended d whole => ended d whole

/-- **The document**, once all tokens have been seen, and whether something follows it. A text that
ends too early has its fault at the end. -/
def finish : Builder → Document × Bool
  | value outer => (enclose .broken outer, false)
  | array items outer => (enclose (.array items.reverse false) outer, false)
  | object members outer | nextMember members outer =>
    (enclose (.object members.reverse false) outer, false)
  | colon members n outer =>
    (enclose (.object ((n, .broken) :: members).reverse false) outer, false)
  | done d => (d, false)
  | ended d whole => (d, whole)

end Builder

/-- **The document of a text**, and whether something other than white space follows it. -/
def readText (cs : List Char) : Document × Bool :=
  ((tokenize cs).foldl Builder.step (.value [])).finish

end PagedTopK.Json
