import PagedTopK.Text.Digits

set_option autoImplicit false

/-!
# YAML tokens

Block structure is written by indentation. Its beginnings and ends are tokens of their own, which
take up no text.

## Main definitions

* `Yaml.Style`, `Yaml.Tag`, `Yaml.Directive` — what some tokens hold.
* `Yaml.Token` — the tokens of a YAML text.
* `Yaml.Cursor` — a place in a text.
-/

namespace PagedTopK.Yaml

/-- **How a scalar is written.** -/
inductive Style where
  /-- As it is. -/
  | plain
  /-- In single or double quotes. -/
  | quoted
  /-- On lines of its own, which are kept. -/
  | literal
  /-- On lines of its own, which are joined. -/
  | folded
deriving DecidableEq

/-- **A tag as it is written**: its handle and the rest. A tag that is written in full has the empty
handle. -/
structure Tag where
  /-- The handle. -/
  handle : List Char
  /-- The bytes after it. -/
  suffix : List UInt8
deriving DecidableEq

/-- **What a line before a document says.** -/
inductive Directive where
  /-- The version of YAML. -/
  | version (major minor : Nat)
  /-- What a handle of tags stands for. -/
  | handle (handle : List Char) (meaning : List UInt8)
deriving DecidableEq

/-- **A token of a YAML text.** -/
inductive Token where
  /-- A line that begins with a percent sign. -/
  | directive (content : Directive)
  /-- Three hyphens. -/
  | documentStart
  /-- Three dots. -/
  | documentEnd
  /-- The beginning of a block of items. -/
  | blockSequenceStart
  /-- The beginning of a block of members. -/
  | blockMappingStart
  /-- The end of a block. -/
  | blockEnd
  /-- `[` -/
  | flowSequenceStart
  /-- `]` -/
  | flowSequenceEnd
  /-- An opening brace. -/
  | flowMappingStart
  /-- A closing brace. -/
  | flowMappingEnd
  /-- The hyphen before an item. -/
  | blockEntry
  /-- `,` -/
  | flowEntry
  /-- The beginning of a key. -/
  | key
  /-- The colon after a key. -/
  | value
  /-- A name for the node that follows. -/
  | anchor (name : List Char)
  /-- A node that has been named. -/
  | alias (name : List Char)
  /-- A tag of the node that follows. -/
  | tag (tag : Tag)
  /-- A scalar. -/
  | scalar (text : List Char) (style : Style)
deriving DecidableEq

/-- **A place in a text**: what follows, and where that is. -/
structure Cursor where
  /-- The characters from here on. -/
  rest : List Char
  /-- The number of the line, from zero on. -/
  line : Nat
  /-- The number of the column, from zero on. -/
  column : Nat
  /-- How many bytes come before. -/
  index : Nat
deriving DecidableEq

/-- A space or a tab. -/
def isBlank (c : Char) : Bool := c == ' ' || c == '\t'

/-- A line break. -/
def isBreak (c : Char) : Bool := c == '\n' || c == '\u2028' || c == '\u2029'

/-- Whether a token ends before a character or at the end of the text. -/
def isGap : Option Char → Bool
  | none => true
  | some c => isBlank c || isBreak c

namespace Cursor

/-- The beginning of a text. -/
def start (cs : List Char) : Cursor := ⟨cs, 0, 0, 0⟩

/-- The character here. -/
def head? (c : Cursor) : Option Char := c.rest.head?

/-- The character after the one here. -/
def second? (c : Cursor) : Option Char := c.rest.tail.head?

/-- One character on. -/
def next (c : Cursor) : Cursor :=
  match c.rest with
  | [] => c
  | x :: rest =>
    if isBreak x then ⟨rest, c.line + 1, 0, c.index + x.utf8Size⟩
    else ⟨rest, c.line, c.column + 1, c.index + x.utf8Size⟩

/-- Some characters on. -/
def skip : Nat → Cursor → Cursor
  | 0, c => c
  | n + 1, c => skip n c.next

/-- The run of characters of a class here, and the place after it. -/
def span (p : Char → Bool) (c : Cursor) : List Char × Cursor :=
  let run := c.rest.takeWhile p
  (run, c.skip run.length)

/-- Whether three equal signs stand here and nothing right after them. -/
def hasMark (c : Cursor) (sign : Char) : Bool :=
  match c.rest with
  | x :: y :: z :: rest => x == sign && y == sign && z == sign && isGap rest.head?
  | _ => false

/-- Whether a document begins or ends here. -/
def atDocumentMark (c : Cursor) : Bool :=
  c.column == 0 && (c.hasMark '-' || c.hasMark '.')

end Cursor

/-- The value of a hexadecimal digit. -/
def hexValue? (c : Char) : Option Nat :=
  if c.isDigit then some (c.toNat - '0'.toNat)
  else if 'a' ≤ c ∧ c ≤ 'f' then some (c.toNat - 'a'.toNat + 10)
  else if 'A' ≤ c ∧ c ≤ 'F' then some (c.toNat - 'A'.toNat + 10)
  else none

end PagedTopK.Yaml
