import PagedTopK.Encoding.Utf8
import PagedTopK.Yaml.Token

set_option autoImplicit false

/-!
# YAML tags and directives

A tag is written with a handle, which stands for the beginning of a longer name, or in full between
angle brackets. Characters in it may be written as escaped bytes. Lines that begin with a percent
sign come before a document: they give the version of YAML, or say what a handle stands for.

## Main definitions

* `Yaml.readTag?` — a tag.
* `Yaml.readDirective?` — a line with a percent sign.
-/

namespace PagedTopK.Yaml

/-- Whether a character may be in a handle, in the name of a directive or in that of an anchor. -/
def isNameChar (c : Char) : Bool := c.isAlphanum || c == '_' || c == '-'

/-- Whether a character may be in a tag; a full one may hold more. -/
def isTagChar (isFull : Bool) (c : Char) : Bool :=
  isNameChar c || ";/?:@&=+$.!~*\x27()%".toList.contains c || (isFull && ",[]".toList.contains c)

/-- A byte that is written as a percent sign and two hexadecimal digits. -/
def readByte? (c : Cursor) : Option (UInt8 × Cursor) :=
  match c.rest with
  | '%' :: a :: b :: _ =>
    match hexValue? a, hexValue? b with
    | some x, some y => some (UInt8.ofNat (16 * x + y), c.skip 3)
    | _, _ => none
  | _ => none

/-- How many bytes follow the first byte of a character. -/
def bytesAfter? (first : UInt8) : Option Nat :=
  if first < 0x80 then some 0
  else if 0xC0 ≤ first ∧ first < 0xE0 then some 1
  else if 0xE0 ≤ first ∧ first < 0xF0 then some 2
  else if 0xF0 ≤ first ∧ first < 0xF8 then some 3
  else none

/-- As many later bytes of a character. -/
def readLaterBytes? : Nat → Cursor → Option (List UInt8 × Cursor)
  | 0, c => some ([], c)
  | n + 1, c =>
    (readByte? c).bind fun (b, after) =>
      if 0x80 ≤ b ∧ b < 0xC0 then (readLaterBytes? n after).map fun r => (b :: r.1, r.2) else none

/-- The bytes of a character, all of them escaped. -/
def readEscape? (c : Cursor) : Option (List UInt8 × Cursor) :=
  (readByte? c).bind fun (b, after) =>
    (bytesAfter? b).bind fun n => (readLaterBytes? n after).map fun r => (b :: r.1, r.2)

/-- The text of a tag from here on, put in reverse before bytes in reverse. -/
def readTagBytes? (isFull : Bool) : Nat → Cursor → List UInt8 → Option (List UInt8 × Cursor)
  | 0, c, bytes => some (bytes, c)
  | fuel + 1, c, bytes =>
    match c.head? with
    | none => some (bytes, c)
    | some x =>
      if !isTagChar isFull x then some (bytes, c)
      else if x = '%' then
        (readEscape? c).bind fun (more, after) =>
          readTagBytes? isFull fuel after (more.reverse ++ bytes)
      else readTagBytes? isFull fuel c.next (UInt8.ofNat x.toNat :: bytes)

/-- **The text of a tag** from here on, in bytes, and the place after it. -/
def readTagText? (isFull : Bool) (c : Cursor) : Option (List UInt8 × Cursor) :=
  (readTagBytes? isFull c.rest.length c []).map fun r => (r.1.reverse, r.2)

/-- The same where something must be written. -/
def readSomeTagText? (isFull : Bool) (c : Cursor) : Option (List UInt8 × Cursor) :=
  (readTagText? isFull c).filter fun r => r.1 ≠ []

/-- What counts of the text of a tag: what comes before a zero byte. -/
def untilZero (bytes : List UInt8) : List UInt8 := bytes.takeWhile (· ≠ 0)

/-- What may be a handle: an exclamation mark and a name, with a second mark after the name if there
is one. -/
def readHandle (c : Cursor) : List Char × Cursor :=
  let (name, after) := c.next.span isNameChar
  if after.head? = some '!' then ('!' :: name ++ ['!'], after.next) else ('!' :: name, after)

/-- **A tag**, from its exclamation mark on. Without a second mark the first one alone is the
handle; a tag of one mark is written in full. -/
def readTag? (c : Cursor) : Option (Tag × Cursor) :=
  if c.second? = some '<' then
    (readSomeTagText? true (c.skip 2)).bind fun (text, after) =>
      if after.head? = some '>' then some (⟨[], untilZero text⟩, after.next) else none
  else
    let (handle, after) := readHandle c
    let isHandle := 1 < handle.length && handle.getLast? == some '!'
    if isHandle then
      (readSomeTagText? false after).map fun (text, after) => (⟨handle, untilZero text⟩, after)
    else
      (readTagText? false after).map fun (text, after) =>
        let suffix := untilZero (Utf8.encode (handle.drop 1) ++ text)
        (if suffix = [] then ⟨[], Utf8.encode ['!']⟩ else ⟨['!'], suffix⟩, after)

/-- A number of at most nine digits. -/
def readVersionNumber? (c : Cursor) : Option (Nat × Cursor) :=
  let (digits, after) := c.span Char.isDigit
  if digits ≠ [] ∧ digits.length ≤ 9 then some (Digits.value digits, after) else none

/-- The version in a directive. -/
def readVersion? (c : Cursor) : Option (Directive × Cursor) := do
  let (major, dot) ← readVersionNumber? (c.span isBlank).2
  if dot.head? ≠ some '.' then none
  else
    let (minor, after) ← readVersionNumber? dot.next
    return (.version major minor, after)

/-- The handle in a directive and what it stands for. -/
def readHandleMeaning? (c : Cursor) : Option (Directive × Cursor) := do
  let mark := (c.span isBlank).2
  if mark.head? ≠ some '!' then none
  else
    let (handle, gap) := readHandle mark
    if handle ≠ ['!'] ∧ handle.getLast? ≠ some '!' then none
    else if !gap.head?.any isBlank then none
    else
      let (meaning, after) ← readSomeTagText? true (gap.span isBlank).2
      if isGap after.head? then return (.handle handle (untilZero meaning), after) else none

/-- **A line with a percent sign**: what it says, and the place after it. -/
def readDirective? (c : Cursor) : Option (Directive × Cursor) := do
  let (name, after) := c.next.span isNameChar
  let (directive, rest) ←
    if !isGap after.head? then none
    else if name = "YAML".toList then readVersion? after
    else if name = "TAG".toList then readHandleMeaning? after
    else none
  let gap := (rest.span isBlank).2
  let ended := if gap.head? = some '#' then (gap.span (!isBreak ·)).2 else gap
  if ended.head?.all isBreak then return (directive, ended.next) else none

end PagedTopK.Yaml
