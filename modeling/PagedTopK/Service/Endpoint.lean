import PagedTopK.Encoding.Utf8

set_option autoImplicit false

/-!
# Endpoints

The address of a service is a URL. What a request asks the server for is the path and the query of
the URL, with dot segments resolved and with the characters escaped that may not stand there.

## Main definitions

* `Endpoint` — the parts of a plain HTTP address.
* `Endpoint.parse?` — the address that a text writes.
-/

namespace PagedTopK

/-- **The address of a service** over plain HTTP. -/
structure Endpoint where
  /-- The host and the port. -/
  authority : List Char
  /-- What is asked for: the path and the query. -/
  target : List Char
deriving DecidableEq

namespace Endpoint

/-! ## Escapes -/

/-- A hexadecimal digit in upper case. -/
def hexDigit (n : Nat) : Char := (Nat.digitChar n).toUpper

/-- A character as escaped bytes. -/
def percentEncoded (c : Char) : List Char :=
  (Utf8.encode [c]).flatMap fun b => ['%', hexDigit (b.toNat / 16), hexDigit (b.toNat % 16)]

/-- A text with the characters of a class escaped, and all that are not printable ASCII. -/
def escapeIn (special : List Char) (cs : List Char) : List Char :=
  cs.flatMap fun c =>
    if c.toNat ≤ 0x20 ∨ 0x7F ≤ c.toNat ∨ c ∈ special then percentEncoded c else [c]

/-- A segment of a path with escapes. -/
def escapeSegment : List Char → List Char := escapeIn ['"', '#', '<', '>', '?', '`', '{', '}']

/-- A query with escapes. -/
def escapeQuery : List Char → List Char := escapeIn ['"', '#', '<', '>', '\'']

/-! ## Paths -/

/-- Whether a character divides the segments of a path. -/
def isSlash (c : Char) : Bool := c == '/' || c == '\\'

/-- The segments of a path. -/
def segments (cs : List Char) : List (List Char) := cs.splitOnP isSlash

/-- A segment with escaped dots written out, in lower case. -/
def dotsOf (segment : List Char) : String :=
  (String.ofList (segment.map Char.toLower)).replace "%2e" "."

/-- Whether a segment names a drive: a letter and a colon or a bar. -/
def isDrive : List Char → Bool
  | [c, mark] => c.isAlpha && (mark == ':' || mark == '|')
  | _ => false

/-- Add a segment to those before it, which are kept in reverse. A single dot adds nothing, two dots
take the last segment away unless it names a drive; at the end they leave the segment empty. -/
def addSegment (before : List (List Char)) (segment : List Char) (isLast : Bool) :
    List (List Char) :=
  if dotsOf segment = ".." then
    let above := if before.head?.any isDrive then before else before.tail
    if isLast then [] :: above else above
  else if dotsOf segment = "." then (if isLast then [] :: before else before)
  else escapeSegment segment :: before

/-- All segments with dots resolved, in reverse. -/
def resolve (before : List (List Char)) : List (List Char) → List (List Char)
  | [] => before
  | s :: rest => resolve (addSegment before s rest.isEmpty) rest

/-- **A path** with dots resolved and with escapes. -/
def pathOf (cs : List Char) : List Char :=
  (resolve [] (segments (cs.drop 1))).reverse.flatMap fun s => '/' :: s

/-! ## Addresses -/

/-- The text after the name of the scheme, if that is plain HTTP. -/
def afterScheme? : List Char → Option (List Char)
  | h :: t :: u :: p :: ':' :: rest =>
    if [h, t, u, p].map Char.toLower = ['h', 't', 't', 'p'] then some (rest.dropWhile isSlash)
    else none
  | _ => none

/-- Whether a character ends the authority. -/
def endsAuthority (c : Char) : Bool := isSlash c || c == '?' || c == '#'

/-- Whether a character does not count at the ends of an address. -/
def isOuterSpace (c : Char) : Bool := c.toNat ≤ 0x20

/-- **The address that a text writes**, if it has the scheme of plain HTTP and a host. Spaces around
it and line breaks in it do not count, nor does a fragment. An empty query is left out. -/
def parse? (text : String) : Option Endpoint :=
  let trimmed := ((text.toList.dropWhile isOuterSpace).reverse.dropWhile isOuterSpace).reverse
  (afterScheme? (trimmed.filter fun c => c ≠ '\t' ∧ c ≠ '\n' ∧ c ≠ '\r')).bind fun rest =>
    let authority := rest.takeWhile fun c => !endsAuthority c
    let location := (rest.dropWhile fun c => !endsAuthority c).takeWhile (· ≠ '#')
    let path := pathOf (location.takeWhile (· ≠ '?'))
    let query := (location.dropWhile (· ≠ '?')).drop 1
    if authority = [] then none
    else some ⟨authority, if query = [] then path else path ++ '?' :: escapeQuery query⟩

end Endpoint

end PagedTopK
