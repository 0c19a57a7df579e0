import PagedTopK.Encoding.Sha256
import PagedTopK.Encoding.Utf8
import PagedTopK.Json.Writer

set_option autoImplicit false

/-!
# Fingerprints of result rows

Two rows are compared by the digest of their JSON text. The members of a row are sorted first, so
that the order in which they were written does not count; objects inside a row are left as they are.

## Main definitions

* `Row` — the members of a result row.
* `Row.sorted` — a row with its members in the order of their names.
* `Row.fingerprint` — the digest of a row.
-/

namespace PagedTopK

/-- **A row of a result file**: the members of an object, no two of one name. -/
abbrev Row := List (String × Json)

namespace Row

/-- **The row in the order of its names.** -/
def sorted (row : Row) : Row := row.mergeSort fun a b => (compare a.1 b.1).isLE

/-- The row as a value, in the order of its names. -/
def canonical (row : Row) : Json := .object row.sorted

/-- **The digest of a row**, in hexadecimal digits. -/
def fingerprint (row : Row) : String := Sha256.hexDigest (Utf8.encode row.canonical.compactChars)

end Row

end PagedTopK
