import PagedTopK.Verdict.Fingerprint

set_option autoImplicit false

/-!
# Comparing results with a reference

The rows of a result are checked off one by one against those of a reference, by fingerprint. What
is left over at the end is missing; a row that cannot be checked off is unexpected if the reference
does not have it at all, and a duplicate if it has it less often.

## Main definitions

* `Tally` — how often each fingerprint is still expected.
* `Verdict` — the outcome of a comparison.
* `Verdict.compare` — the verdict on a result.
* `Verdict.json` — its JSON form.
-/

namespace PagedTopK

/-! ## Tallies -/

/-- **How often each of some names is still expected**; a negative count says how often it came too
often. -/
abbrev Tally := List (String × Int)

namespace Tally

/-- Add to the count of a name; a new name goes to the end. -/
def add (name : String) (amount : Int) : Tally → Tally
  | [] => [(name, amount)]
  | e :: rest => if e.1 = name then (name, e.2 + amount) :: rest else e :: add name amount rest

/-- The tally of names, each expected as often as it occurs. -/
def ofNames (names : List String) : Tally := names.foldl (fun t name => t.add name 1) []

/-- How many names are still expected, each as often as it is. -/
def missing (t : Tally) : Nat := t.foldr (fun e n => e.2.toNat + n) 0

/-- Whether every name has come as often as expected. -/
def isSettled (t : Tally) : Bool := t.all fun e => e.2 == 0

end Tally

/-! ## Verdicts -/

/-- **The outcome of a comparison.** -/
structure Verdict where
  /-- Whether both sides have the same rows, each the same number of times. -/
  correct : Bool
  /-- How many rows the reference has. -/
  referenceSolutions : Nat
  /-- How many rows the result has. -/
  actualSolutions : Nat
  /-- How many rows of the reference the result lacks. -/
  missingSolutions : Nat
  /-- The first row that the reference does not have. -/
  firstUnexpected : Option Json
  /-- The first row that comes more often than in the reference. -/
  firstDuplicated : Option Json

namespace Verdict

/-- **A comparison under way.** -/
structure Progress where
  /-- What is still expected. -/
  expected : Tally
  /-- The first row that the reference does not have. -/
  unexpected : Option Row
  /-- The first row that has come too often. -/
  duplicated : Option Row

namespace Progress

/-- Check off one row. -/
def check (p : Progress) (row : Row) : Progress :=
  let name := row.fingerprint
  match p.expected.lookup name with
  | none => { p with unexpected := p.unexpected.or (some row) }
  | some count =>
    { p with
      expected := p.expected.add name (-1)
      duplicated := if count < 1 then p.duplicated.or (some row) else p.duplicated }

end Progress

/-- **The verdict on a result.** -/
def compare (reference actual : List Row) : Verdict :=
  let p := actual.foldl Progress.check ⟨.ofNames (reference.map Row.fingerprint), none, none⟩
  { correct := p.unexpected.isNone && p.expected.isSettled
    referenceSolutions := reference.length
    actualSolutions := actual.length
    missingSolutions := p.expected.missing
    firstUnexpected := p.unexpected.map Row.canonical
    firstDuplicated := p.duplicated.map Row.canonical }

/-- The members of the JSON form. -/
def members (v : Verdict) : List (String × Json) :=
  [("correct", .bool v.correct),
    ("reference_solutions", .natural v.referenceSolutions),
    ("actual_solutions", .natural v.actualSolutions),
    ("missing_solutions", .natural v.missingSolutions),
    ("first_unexpected", Json.optional id v.firstUnexpected),
    ("first_duplicated", Json.optional id v.firstDuplicated)]

/-- **The JSON form.** -/
def json (v : Verdict) : Json := .object v.members

end Verdict

end PagedTopK
