import PagedTopK.Json.Basic
import PagedTopK.Json.Document

set_option autoImplicit false

/-!
# Reading values from documents

A document is read by what is expected of it: any JSON value, a text, a number, or a record with
named fields. The first objection in the order of the text is the one reported, be it to the value
or to the grammar.

## Main definitions

* `Json.ReadError` — the objections.
* `Json.Document.json?` — any value, up to a depth of nesting.
* `Json.Reader` — what makes something of a document: `Json.Reader.text`, `Json.Reader.natural` and
  the like.
* `Json.Given.ofDocument` — the fields of a record, written as an object or as an array.
* `Json.parse?` — the value that a text writes.
-/

namespace PagedTopK.Json

/-- **Why a text is not what is expected.** -/
inductive ReadError where
  /-- The text is not JSON, or holds a value that cannot be represented. -/
  | grammar
  /-- A value has the wrong type. -/
  | wrongType
  /-- A record has no such field. -/
  | missingField (name : String)
  /-- A choice has no such name. -/
  | unknownVariant (name : String) (known : List String)
  /-- A field is given twice. -/
  | duplicateField (name : String)
deriving DecidableEq

/-- A name in back quotes. -/
def backquoted (name : String) : String := "`" ++ name ++ "`"

/-- The names of a choice in words. -/
def choiceText : List String → String
  | [] => "there are no variants"
  | [a] => "expected " ++ backquoted a
  | [a, b] => "expected " ++ backquoted a ++ " or " ++ backquoted b
  | names => "expected one of " ++ String.intercalate ", " (names.map backquoted)

/-- **The wording of an objection**, without the place. -/
def ReadError.message : ReadError → String
  | grammar => "<json syntax>"
  | wrongType => "<wrong type>"
  | missingField name => "missing field " ++ backquoted name
  | unknownVariant name known =>
    "unknown variant " ++ backquoted name ++ ", " ++ choiceText known
  | duplicateField name => "duplicate field " ++ backquoted name

/-- How many brackets may be open at once. -/
def maxDepth : Nat := 127

/-- The value of a scalar, if it stands for one. -/
def Scalar.json? : Scalar → Option Json
  | null => some .null
  | bool b => some (.bool b)
  | integer i => some (.integer i)
  | double x => some (.double x)
  | text s => some (.text s)
  | tooGreat | loneSurrogate => none

/-- The objection to a scalar of the wrong type: one that stands for no value is a fault of
grammar. -/
def Scalar.refusal (s : Scalar) : ReadError :=
  if s.json?.isSome then .wrongType else .grammar

namespace Document

/-! ## Any value -/

mutual

/-- **The value of a document** without faults in which at most `room` brackets are open at once.
Members of one name are all kept. -/
def json? : Nat → Document → Option Json
  | _, scalar s => s.json?
  | room + 1, array items true => (items? room items).map .array
  | room + 1, object members true => (members? room members).map .object
  | _, _ => none

/-- The values of items. -/
def items? : Nat → List Document → Option (List Json)
  | _, [] => some []
  | room, d :: rest =>
    match json? room d with
    | some v => (items? room rest).map (v :: ·)
    | none => none

/-- The values of members with their names. -/
def members? : Nat → List (Option String × Document) → Option (List (String × Json))
  | _, [] => some []
  | room, (some name, d) :: rest =>
    match json? room d with
    | some v => (members? room rest).map ((name, v) :: ·)
    | none => none
  | _, (none, _) :: _ => none

end

/-! ## What is passed over -/

mutual

/-- Whether the grammar is kept. Depth does not count, nor do numerals and texts that stand for no
value. -/
def isWhole : Document → Bool
  | scalar _ => true
  | array items closed => closed && itemsWhole items
  | object members closed => closed && membersWhole members
  | broken => false

/-- Whether the grammar is kept in all items. -/
def itemsWhole : List Document → Bool
  | [] => true
  | d :: rest => isWhole d && itemsWhole rest

/-- Whether the grammar is kept in all members. -/
def membersWhole : List (Option String × Document) → Bool
  | [] => true
  | (_, d) :: rest => isWhole d && membersWhole rest

end

/-- The objection to a document of the wrong type. -/
def refusal : Document → ReadError
  | scalar s => s.refusal
  | broken => .grammar
  | _ => .wrongType

end Document

/-! ## Readers -/

/-- **A reader** makes something of a document or objects to it. -/
abbrev Reader (α : Type) := Document → Except ReadError α

namespace Reader

/-- Pass over a value of any kind. -/
def pass : Reader Unit := fun d => if d.isWhole then .ok () else .error .grammar

/-- Read any value; of members with one name the later gives the value. -/
def value : Reader Json := fun d =>
  match d.json? maxDepth with
  | some v => .ok v.collapse
  | none => .error .grammar

/-- Read a text. -/
def text : Reader String
  | .scalar (.text s) => .ok s
  | d => .error d.refusal

/-- Read an integer that is not negative. -/
def natural : Reader Nat
  | .scalar (.integer (.ofNat n)) => .ok n
  | d => .error d.refusal

/-- Read a truth value. -/
def flag : Reader Bool
  | .scalar (.bool b) => .ok b
  | d => .error d.refusal

/-- Read a number as a double. -/
def double : Reader Binary64
  | .scalar (.double x) => .ok x
  | .scalar (.integer i) => .ok (Binary64.ofInt i)
  | d => .error d.refusal

/-- Read a value or null. -/
def optional {α : Type} (read : Reader α) : Reader (Option α)
  | .scalar .null => .ok none
  | d => (read d).map some

end Reader

/-! ## Records -/

/-- **A field of a record**: its name, the objections to its value, and whether an array may end
before it. -/
structure Field where
  /-- The name. -/
  name : String
  /-- Look at a value. -/
  check : Reader Unit
  /-- Whether the field may be left out at the end of an array. -/
  mayEnd : Bool

/-- A field with a reader for its values. -/
def Field.reads {α : Type} (name : String) (read : Reader α) : Field :=
  ⟨name, fun d => (read d).map fun _ => (), false⟩

/-- **The values of the fields that a record gives**, by name. -/
abbrev Given := List (String × Document)

namespace Given

/-- The fields of a record that are given by name; other members are passed over. -/
def ofMembers (table : List Field) (seen : List String) (closed : Bool) :
    List (Option String × Document) → Except ReadError Given
  | [] => if closed then .ok [] else .error .grammar
  | (none, _) :: _ => .error .grammar
  | (some name, d) :: rest =>
    match table.find? (·.name == name) with
    | none => do
      Reader.pass d
      ofMembers table seen closed rest
    | some field => do
      if name ∈ seen then throw (.duplicateField name)
      field.check d
      let others ← ofMembers table (name :: seen) closed rest
      return (name, d) :: others

/-- The fields of a record that are given by place. -/
def ofItems (closed : Bool) : List Field → List Document → Except ReadError Given
  | [], [] => if closed then .ok [] else .error .grammar
  | [], _ :: _ => .error .grammar
  | field :: fields, [] =>
    if !closed then .error .grammar
    else if field.mayEnd then ofItems closed fields []
    else .error .wrongType
  | field :: fields, d :: rest => do
    field.check d
    let others ← ofItems closed fields rest
    return (field.name, d) :: others

/-- **The fields of a record**, written as an object in any order or as an array in the order of the
table. -/
def ofDocument (table : List Field) : Reader Given
  | .object members closed => ofMembers table [] closed members
  | .array items closed => ofItems closed table items
  | d => .error d.refusal

/-- A field that must be there. -/
def required {α : Type} (given : Given) (name : String) (read : Reader α) :
    Except ReadError α :=
  match given.lookup name with
  | some d => read d
  | none => .error (.missingField name)

/-- A field that may be missing or null. -/
def possible {α : Type} (given : Given) (name : String) (read : Reader α) :
    Except ReadError (Option α) :=
  match given.lookup name with
  | some d => read.optional d
  | none => .ok none

end Given

/-! ## Whole texts -/

/-- **Read a text** that holds one document and nothing else. -/
def readWith {α : Type} (read : Reader α) (cs : List Char) : Except ReadError α :=
  let (d, more) := readText cs
  match read d with
  | .error e => .error e
  | .ok a => if more then .error .grammar else .ok a

/-- **The value that a text writes**, if it writes one. -/
def parse? (cs : List Char) : Option Json := (readWith Reader.value cs).toOption

end PagedTopK.Json
