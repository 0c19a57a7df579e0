import PagedTopK.Directory
import PagedTopK.Json.Reader
import PagedTopK.Text.Digits
import PagedTopK.Verdict.Fingerprint

set_option autoImplicit false

/-!
# Result files

A result file holds a JSON array of objects, one for every solution.

## Main definitions

* `ResultFileError` — why a result file is refused.
* `ResultFile.load` — the rows of a result file.
-/

namespace PagedTopK

/-- **Why a result file is refused.** -/
inductive ResultFileError where
  /-- It cannot be read. -/
  | unreadable (path : String) (cause : FileError)
  /-- It is not JSON. -/
  | notJson (path : String) (cause : Json.ReadError)
  /-- It is not an array. -/
  | notArray (path : String)
  /-- One of its solutions is not an object. -/
  | rowNotObject (index : Nat) (path : String)
deriving DecidableEq

/-- The wording of a cause. -/
def ResultFileError.message : ResultFileError → String
  | unreadable path cause => "failed to read result file " ++ path ++ ": " ++ cause.message
  | notJson path cause => "result file is not valid JSON: " ++ path ++ ": " ++ cause.message
  | notArray path => "result file " ++ path ++ " must hold a JSON array of solutions"
  | rowNotObject index path =>
    "solution " ++ Digits.text index ++ " in " ++ path ++ " is not an object"

namespace ResultFile

/-- The rows of an array; the first one has the given number. -/
def rows (path : String) (index : Nat) : List Json → Except ResultFileError (List Row)
  | [] => .ok []
  | .object members :: rest => (rows path (index + 1) rest).map (members :: ·)
  | _ :: _ => .error (.rowNotObject index path)

/-- The rows that a text writes. -/
def parse (path contents : String) : Except ResultFileError (List Row) :=
  match Json.readWith .value contents.toList with
  | .error cause => .error (.notJson path cause)
  | .ok (.array items) => rows path 0 items
  | .ok _ => .error (.notArray path)

/-- **The rows of a result file.** -/
def load (read : String → Except FileError String) (path : String) :
    Except ResultFileError (List Row) :=
  match read path with
  | .error cause => .error (.unreadable path cause)
  | .ok contents => parse path contents

end ResultFile

end PagedTopK
