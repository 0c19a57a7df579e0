set_option autoImplicit false

/-!
# Blank characters and trimming

A blank is a character with the Unicode property White_Space. Trimming removes blanks, or any other
class of characters, at the ends of a text.

## Main definitions

* `Text.isBlank` — the class of blanks.
* `Text.trimStart`, `Text.trimEnd`, `Text.trim` — a text without the blanks at its ends.
* `Text.dropWhileEnd` — a text without the longest run of a class at its end.
-/

namespace PagedTopK.Text

/-- **Whether a character is white space** in Unicode. -/
def isBlank (c : Char) : Bool :=
  let n := c.toNat
  (0x9 ≤ n && n ≤ 0xD) || n == 0x20 || n == 0x85 || n == 0xA0 || n == 0x1680 ||
    (0x2000 ≤ n && n ≤ 0x200A) || n == 0x2028 || n == 0x2029 || n == 0x202F || n == 0x205F ||
    n == 0x3000

/-- The text without the longest run of characters of a class at its end. -/
def dropWhileEnd (p : Char → Bool) (cs : List Char) : List Char :=
  (cs.reverse.dropWhile p).reverse

/-- The text without leading blanks. -/
def trimStart (cs : List Char) : List Char := cs.dropWhile isBlank

/-- The text without trailing blanks. -/
def trimEnd (cs : List Char) : List Char := dropWhileEnd isBlank cs

/-- The text without blanks at either end. -/
def trim (cs : List Char) : List Char := trimEnd (trimStart cs)

/-- The text after a leading part, if it starts with that part. -/
def stripStart? (start cs : List Char) : Option (List Char) :=
  if start.isPrefixOf cs then some (cs.drop start.length) else none

/-- The text before a last character, if it ends with that character. -/
def stripEnd? (last : Char) (cs : List Char) : Option (List Char) :=
  if cs.getLast? = some last then some cs.dropLast else none

end PagedTopK.Text
