set_option autoImplicit false

/-!
# Decimal digits

Natural numbers as runs of ASCII digits, on lists of characters.

## Main definitions

* `Digits.value` — the number that a run of digits writes.
* `Digits.ofNat` — the digits of a number, without leading zeros.
* `Digits.natBelow?` — a number with an optional plus sign, below a bound.
-/

namespace PagedTopK.Digits

/-- The value of one digit character. -/
def digitValue (c : Char) : Nat := c.toNat - '0'.toNat

/-- **The number a run of digits writes**; the empty run writes zero. -/
def value (cs : List Char) : Nat :=
  cs.foldl (fun n c => 10 * n + digitValue c) 0

/-- The digits of a number, without leading zeros; zero is one digit. -/
def ofNat (n : Nat) : List Char := Nat.toDigits 10 n

/-- How many digits a number has. -/
def length (n : Nat) : Nat := (ofNat n).length

/-- The digits of a number as text. -/
def text (n : Nat) : String := String.ofList (ofNat n)

/-- The digits of an integer as text, with a minus sign if it is negative. -/
def intText (i : Int) : String :=
  if i < 0 then "-" ++ text i.natAbs else text i.natAbs

/-- **Read a natural number below a bound**: one or more digits after an optional plus sign. -/
def natBelow? (bound : Nat) (cs : List Char) : Option Nat :=
  let digits := match cs with
    | '+' :: rest => rest
    | _ => cs
  if digits ≠ [] ∧ digits.all Char.isDigit ∧ value digits < bound then some (value digits)
  else none

/-- Numbers that fit in 64 bits without a sign lie below this one. -/
def word64 : Nat := Nat.pow 2 64

end PagedTopK.Digits
