import PagedTopK.Yaml.Token

set_option autoImplicit false

/-!
# YAML scalars

A plain or quoted scalar may go over several lines. One line feed in it is a space, and of more
line breaks the first one is left out if it is a line feed; blanks around line breaks do not count.
A block scalar keeps its lines, or joins them in the same way.

## Main definitions

* `Yaml.foldBreaks` — what line breaks leave between two lines that are joined.
* `Yaml.plainScalar?` — a scalar without quotes.
* `Yaml.quotedScalar?` — a scalar in single or double quotes.
* `Yaml.blockScalar?` — a scalar on indented lines of its own.
-/

namespace PagedTopK.Yaml

/-! ## What stands between words -/

/-- **What line breaks leave between two lines that are joined**, both in reverse: a line feed alone
is a space, and at the beginning of more line breaks it is left out. -/
def foldBreaks (breaks : List Char) : List Char :=
  if breaks.getLast? = some '\n' then if breaks.length = 1 then [' '] else breaks.dropLast
  else breaks

/-- **What stands between two words of a scalar**: blanks, or line breaks with blanks around them.
Both are kept in reverse. An escaped line break counts for nothing by itself. -/
structure Gap where
  /-- The blanks before the first line break. -/
  blanks : List Char
  /-- The line breaks. -/
  breaks : List Char
  /-- Whether the gap begins with an escaped line break. -/
  escaped : Bool
deriving DecidableEq

namespace Gap

/-- Nothing between words. -/
def none : Gap := ⟨[], [], false⟩

/-- Whether there is a line break. -/
def hasBreak (g : Gap) : Bool := g.escaped || !g.breaks.isEmpty

/-- The text of a gap, in reverse. -/
def text (g : Gap) : List Char :=
  if g.escaped then g.breaks
  else if g.breaks.isEmpty then g.blanks
  else foldBreaks g.breaks

end Gap

/-- Read a gap on. A tab may not stand in the indentation of a plain scalar, which goes up to the
column `indent`. -/
def readGap? (indent : Nat) : Nat → Cursor → Gap → Option (Gap × Cursor)
  | 0, c, g => some (g, c)
  | fuel + 1, c, g =>
    match c.head? with
    | some x =>
      if isBreak x then readGap? indent fuel c.next { g with blanks := [], breaks := x :: g.breaks }
      else if isBlank x then
        if g.hasBreak then
          if x == '\t' && c.column < indent then Option.none
          else readGap? indent fuel c.next g
        else readGap? indent fuel c.next { g with blanks := x :: g.blanks }
      else some (g, c)
    | Option.none => some (g, c)

/-! ## Plain scalars -/

/-- Whether a character has a meaning of its own inside brackets. -/
def isFlowSign (c : Char) : Bool := ",[]\x7b\x7d".toList.contains c

/-- A word of a plain scalar, put in reverse before a text in reverse. Inside brackets a colon may
not stand right before one of their signs. -/
def readWord? (inFlow : Bool) : Nat → Cursor → List Char → Option (List Char × Cursor)
  | 0, c, text => some (text, c)
  | fuel + 1, c, text =>
    match c.head? with
    | none => some (text, c)
    | some x =>
      if isGap (some x) then some (text, c)
      else if x == ':' && inFlow && c.second?.any fun y => isFlowSign y || y == '?' then none
      else if x == ':' && isGap c.second? then some (text, c)
      else if inFlow && isFlowSign x then some (text, c)
      else readWord? inFlow fuel c.next (x :: text)

/-- A plain scalar from here on. -/
def readPlain? (inFlow : Bool) (indent : Nat) :
    Nat → Cursor → List Char → Gap → Option (List Char × Cursor × Bool)
  | 0, _, _, _ => none
  | fuel + 1, c, text, gap =>
    if c.atDocumentMark || c.head? == some '#' then some (text, c, gap.hasBreak)
    else
      match readWord? inFlow fuel c (gap.text ++ text) with
      | none => none
      | some (longer, after) =>
        if after.index = c.index then some (text, c, gap.hasBreak)
        else if !(after.head?.any fun x => isGap (some x)) then some (longer, after, false)
        else
          match readGap? indent fuel after .none with
          | none => none
          | some (g, place) =>
            if !inFlow && place.column < indent then some (longer, place, g.hasBreak)
            else readPlain? inFlow indent fuel place longer g

/-- **A plain scalar**: its text, the place after it and after the blanks that follow, and whether
there is a line break among those. Outside of brackets its lines are indented to the column `indent`
at least. -/
def plainScalar? (inFlow : Bool) (indent : Nat) (c : Cursor) :
    Option (List Char × Cursor × Bool) :=
  (readPlain? inFlow indent (c.rest.length + 1) c [] .none).map fun r => (r.1.reverse, r.2)

/-! ## Quoted scalars -/

/-- The character that an escape of one letter stands for. -/
def simpleEscape? : Char → Option Char
  | '0' => some '\x00'
  | 'a' => some '\x07'
  | 'b' => some '\x08'
  | 't' => some '\t'
  | '\t' => some '\t'
  | 'n' => some '\n'
  | 'v' => some '\x0b'
  | 'f' => some '\x0c'
  | 'r' => some '\r'
  | 'e' => some '\x1b'
  | ' ' => some ' '
  | '"' => some '"'
  | '/' => some '/'
  | '\\' => some '\\'
  | 'N' => some '\u0085'
  | '_' => some '\u00a0'
  | 'L' => some '\u2028'
  | 'P' => some '\u2029'
  | _ => none

/-- How many hexadecimal digits follow the letter of an escape. -/
def escapeLength? : Char → Option Nat
  | 'x' => some 2
  | 'u' => some 4
  | 'U' => some 8
  | _ => none

/-- The character with a hexadecimal number of a given length. -/
def hexChar? (length : Nat) (cs : List Char) : Option Char :=
  let digits := (cs.take length).filterMap hexValue?
  let n := digits.foldl (fun n d => 16 * n + d) 0
  if digits.length = length ∧ n.isValidChar then some (Char.ofNat n) else none

/-- What ends a run of characters in a quoted scalar. -/
inductive RunEnd where
  /-- A blank or a line break. -/
  | gap
  /-- The closing quote. -/
  | quote
  /-- An escaped line break. -/
  | escapedBreak
deriving DecidableEq

/-- A run of characters in a quoted scalar, put in reverse before a text in reverse. -/
def readRun? (single : Bool) : Nat → Cursor → List Char → Option (List Char × Cursor × RunEnd)
  | 0, _, _ => none
  | fuel + 1, c, text =>
    match c.head? with
    | none => none
    | some x =>
      if isGap (some x) then some (text, c, .gap)
      else if single then
        if x ≠ '\'' then readRun? single fuel c.next (x :: text)
        else if c.second? = some '\'' then readRun? single fuel (c.skip 2) ('\'' :: text)
        else some (text, c.next, .quote)
      else if x = '"' then some (text, c.next, .quote)
      else if x ≠ '\\' then readRun? single fuel c.next (x :: text)
      else
        match c.second? with
        | none => none
        | some y =>
          if isBreak y then some (text, c.skip 2, .escapedBreak)
          else
            match simpleEscape? y with
            | some z => readRun? single fuel (c.skip 2) (z :: text)
            | none =>
              match escapeLength? y with
              | none => none
              | some n =>
                match hexChar? n (c.skip 2).rest with
                | some z => readRun? single fuel (c.skip (2 + n)) (z :: text)
                | none => none

/-- A quoted scalar after its opening quote. -/
def readQuoted? (single : Bool) : Nat → Cursor → List Char → Option (List Char × Cursor)
  | 0, _, _ => none
  | fuel + 1, c, text =>
    if c.atDocumentMark then none
    else
      match readRun? single (fuel + 1) c text with
      | none => none
      | some (longer, after, .quote) => some (longer, after)
      | some (longer, after, ending) =>
        match readGap? 0 fuel after ⟨[], [], ending == .escapedBreak⟩ with
        | none => none
        | some (g, place) => readQuoted? single fuel place (g.text ++ longer)

/-- **A quoted scalar**: its text and the place after it. -/
def quotedScalar? (single : Bool) (c : Cursor) : Option (List Char × Cursor) :=
  (readQuoted? single (c.rest.length + 1) c.next []).map fun r => (r.1.reverse, r.2)

/-! ## Block scalars -/

/-- What becomes of the line breaks at the end of a block scalar. -/
inductive Chomping where
  /-- One is kept. -/
  | clip
  /-- None is kept. -/
  | strip
  /-- All are kept. -/
  | keep
deriving DecidableEq

/-- The header of a block scalar after its sign: a chomping sign and an indentation digit, in either
order. -/
def blockHeader? (c : Cursor) : Option (Chomping × Option Nat × Cursor) :=
  let chomping? (c : Cursor) : Option (Chomping × Cursor) :=
    match c.head? with
    | some '+' => some (.keep, c.next)
    | some '-' => some (.strip, c.next)
    | _ => none
  let digit? (c : Cursor) : Option (Nat × Cursor) :=
    match c.head? with
    | some x => if x.isDigit then some (x.toNat - '0'.toNat, c.next) else none
    | none => none
  let found : Chomping × Option Nat × Cursor :=
    match chomping? c with
    | some (k, c) =>
      match digit? c with
      | some (d, c) => (k, some d, c)
      | none => (k, none, c)
    | none =>
      match digit? c with
      | some (d, c) =>
        match chomping? c with
        | some (k, c) => (k, some d, c)
        | none => (.clip, some d, c)
      | none => (.clip, none, c)
  let after := (found.2.2.span isBlank).2
  let ended := if after.head? = some '#' then (after.span (!isBreak ·)).2 else after
  if found.2.1 = some 0 ∨ !ended.head?.all isBreak then none
  else some (found.1, found.2.1, ended.next)

/-- Empty lines of a block scalar and the indentation of the next line: the place there, the line
breaks in reverse, and the deepest column that was reached. An unknown indentation is zero. -/
def readEmptyLines? (indent : Nat) :
    Nat → Cursor → List Char → Nat → Option (Cursor × List Char × Nat)
  | 0, c, breaks, deepest => some (c, breaks, deepest)
  | fuel + 1, c, breaks, deepest =>
    let inside := indent = 0 ∨ c.column < indent
    match c.head? with
    | some ' ' =>
      if inside then readEmptyLines? indent fuel c.next breaks deepest
      else some (c, breaks, max deepest c.column)
    | some '\t' => if inside then none else some (c, breaks, max deepest c.column)
    | some x =>
      if isBreak x then readEmptyLines? indent fuel c.next (x :: breaks) (max deepest c.column)
      else some (c, breaks, max deepest c.column)
    | none => some (c, breaks, max deepest c.column)

/-- The lines of a block scalar, put in reverse before a text in reverse. `ending` holds the line
break of the line before if there is one, `breaks` those of empty lines after it, and `indented`
says whether the line before begins with a blank. -/
def readLines? (isLiteral : Bool) (indent : Nat) :
    Nat → Cursor → List Char → List Char → List Char → Bool →
      Option (List Char × Cursor × List Char × List Char)
  | 0, _, _, _, _, _ => none
  | fuel + 1, c, text, ending, breaks, indented =>
    if c.column = indent ∧ c.head?.isSome then
      let startsBlank := c.head?.any isBlank
      let isJoined := !ending.isEmpty && !isLiteral && !indented && !startsBlank
      let joint := if isJoined then foldBreaks (breaks ++ ending) else breaks ++ ending
      let (line, after) := c.span (!isBreak ·)
      match readEmptyLines? indent fuel after.next [] 0 with
      | none => none
      | some (place, more, _) =>
        readLines? isLiteral indent fuel place (line.reverse ++ joint ++ text) after.head?.toList
          more startsBlank
    else some (text, c, ending, breaks)

/-- **A block scalar**, from its sign on, in a block of the given indentation: its text and the
place after it. -/
def blockScalar? (isLiteral : Bool) (outer : Int) (c : Cursor) : Option (List Char × Cursor) :=
  match blockHeader? c.next with
  | none => none
  | some (chomping, given, first) =>
    let base := (max outer 0).toNat
    match readEmptyLines? ((given.map fun d => base + d).getD 0) first.rest.length first [] 0 with
    | none => none
    | some (place, breaks, deepest) =>
      let indent := (given.map fun d => base + d).getD (max (max deepest (outer + 1).toNat) 1)
      match readLines? isLiteral indent (first.rest.length + 1) place [] [] breaks false with
      | none => none
      | some (text, after, ending, trailing) =>
        let ended : List Char := match chomping with
          | .strip => text
          | .clip => ending ++ text
          | .keep => trailing ++ ending ++ text
        some (ended.reverse, after)

end PagedTopK.Yaml
