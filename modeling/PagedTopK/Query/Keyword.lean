set_option autoImplicit false

/-!
# Keywords in query text

Keywords are found in plain text, without a grammar. A keyword is matched in ASCII letters of
either case, may hold a gap of white space, and stands at a place that the character before it
allows. Word characters and white space are those of ASCII.

## Main definitions

* `Query.isWordChar`, `Query.isSpace` — the two classes.
* `Query.stripWord?` — the text after a keyword at its start.
* `Query.searchFrom` — the first place where a pattern matches.
* `Query.boundary`, `Query.notVariable` — what may stand before a keyword.
-/

namespace PagedTopK.Query

/-- A letter, digit or underscore of ASCII. -/
def isWordChar (c : Char) : Bool := c.isAlphanum || c == '_'

/-- White space of ASCII, form feed and vertical tab included. -/
def isSpace (c : Char) : Bool :=
  c == ' ' || (0x9 ≤ c.toNat && c.toNat ≤ 0xD)

/-- **The text after a word** at its start, in letters of either case. The word is given in lower
case. -/
def stripWord? : List Char → List Char → Option (List Char)
  | [], cs => some cs
  | _ :: _, [] => none
  | w :: ws, c :: cs => if c.toLower = w then stripWord? ws cs else none

/-- The text after at least one space. -/
def stripSpaces? : List Char → Option (List Char)
  | c :: cs => if isSpace c then some (cs.dropWhile isSpace) else none
  | [] => none

/-- The text after two words with a gap between them. -/
def stripTwoWords? (first second : List Char) (cs : List Char) : Option (List Char) :=
  (stripWord? first cs).bind fun gap => (stripSpaces? gap).bind (stripWord? second)

/-- Whether a word may begin or end between the end of a text and what follows: there is nothing or
no word character. -/
def boundary : Option Char → Bool
  | none => true
  | some c => !isWordChar c

/-- Whether a solution modifier may begin after a character: the sign of a variable makes the word
a variable. -/
def notVariable : Option Char → Bool
  | none => true
  | some c => !isWordChar c && c != '?' && c != '$'

/-- A pattern looks at the character before a place and the text from there on. -/
abbrev Pattern (α : Type) := Option Char → List Char → Option α

/-- **The first place where a pattern matches**, counted from `skipped`, with what it gives. -/
def searchFrom {α : Type} (pattern : Pattern α) (skipped : Nat) (before : Option Char) :
    List Char → Option (Nat × α)
  | [] => (pattern before []).map (skipped, ·)
  | c :: cs =>
    match pattern before (c :: cs) with
    | some a => some (skipped, a)
    | none => searchFrom pattern (skipped + 1) (some c) cs

/-- The first place in a text where a pattern matches. -/
def search {α : Type} (pattern : Pattern α) (text : List Char) : Option (Nat × α) :=
  searchFrom pattern 0 none text

/-- `ORDER BY` as words of their own; gives the text after them. -/
def orderBy : Pattern (List Char) := fun before cs =>
  if boundary before then
    (stripTwoWords? "order".toList "by".toList cs).filter fun rest => boundary rest.head?
  else none

/-- The beginning of a solution modifier: `ORDER BY`, `LIMIT` or `OFFSET`, not as the name of a
variable. -/
def modifier : Pattern Unit := fun before cs =>
  let ends (rest : Option (List Char)) : Bool := rest.any fun r => boundary r.head?
  if notVariable before && (ends (stripTwoWords? "order".toList "by".toList cs) ||
      ends (stripWord? "limit".toList cs) || ends (stripWord? "offset".toList cs)) then some ()
  else none

/-- `LIMIT` and a number; gives the digits and the text after them. -/
def limit : Pattern (List Char × List Char) := fun before cs =>
  if notVariable before then
    ((stripWord? "limit".toList cs).bind stripSpaces?).bind fun rest =>
      let digits := rest.takeWhile Char.isDigit
      if digits = [] then none else some (digits, rest.dropWhile Char.isDigit)
  else none

/-- The end of a projection: blanks aside, an opening brace or the word `WHERE`. -/
def projectionEnd : Pattern Unit := fun before cs =>
  let gap := cs.takeWhile isSpace
  let previous := (gap.getLast?).or before
  match cs.dropWhile isSpace with
  | '{' :: _ => some ()
  | rest =>
    if boundary previous && (stripWord? "where".toList rest).any fun r => boundary r.head? then
      some ()
    else none

/-- `SELECT` with its spaces and with `DISTINCT` or `REDUCED` and their spaces, if a projection
ends after it. Gives the text from the projection on and the length of the projection. -/
def select : Pattern (List Char × Nat) := fun before cs =>
  if boundary before then
    ((stripWord? "select".toList cs).bind stripSpaces?).bind fun rest =>
      let body :=
        (((stripWord? "distinct".toList rest).or (stripWord? "reduced".toList rest)).bind
          stripSpaces?).getD rest
      (searchFrom projectionEnd 0 none body).map fun found => (body, found.1)
  else none

end PagedTopK.Query
