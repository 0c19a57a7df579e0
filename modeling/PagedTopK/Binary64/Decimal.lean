import PagedTopK.Binary64.Basic
import PagedTopK.Text.Digits

set_option autoImplicit false

/-!
# Doubles and decimal numerals

Reading a decimal numeral gives the double nearest to its exact value. Writing looks for the
fewest digits that read back to the same double: for one digit, two digits, and so on, it tries the
two neighbours of the value on the grid of decimals with that many digits, and the first grid with
a hit wins.

## Main definitions

* `Decimal` — a coefficient times a power of ten.
* `Binary64.ofDecimal` — the double nearest to a decimal.
* `Binary64.ofText?` — the double a numeral in text writes, names of infinity and NaN included.
* `Binary64.shortest` — the decimal with the fewest digits that reads back.
-/

namespace PagedTopK

/-- **A decimal**: `coefficient * 10 ^ exponent`. -/
structure Decimal where
  /-- The digits as one number. -/
  coefficient : Nat
  /-- The power of ten that scales the coefficient. -/
  exponent : Int
deriving DecidableEq

namespace Decimal

/-- The digits of the coefficient without trailing zeros. -/
def digits (d : Decimal) : List Char :=
  ((Digits.ofNat d.coefficient).reverse.dropWhile (· == '0')).reverse

/-- The power of ten of the first digit. -/
def leadingExponent (d : Decimal) : Int :=
  d.exponent + Digits.length d.coefficient - 1

end Decimal

namespace Binary64

/-! ## Reading -/

/-- **The double nearest to a decimal**, a tie going to the even significand. A decimal whose first
digit stands at or above `10 ^ 400`, or below `10 ^ (-400)`, is past every finite double or closer
to zero than to any other, so its exact value need not be formed. -/
def ofDecimal (negative : Bool) (d : Decimal) : Binary64 :=
  if d.coefficient = 0 then signedZero negative
  else if 400 < d.leadingExponent then infinity negative
  else if d.leadingExponent < -400 then signedZero negative
  else if 0 ≤ d.exponent then
    roundUnits negative (d.coefficient * Nat.pow 10 d.exponent.toNat * unitsPerOne) 1
  else
    roundUnits negative (d.coefficient * unitsPerOne) (Nat.pow 10 d.exponent.natAbs)

/-- Lower case for the ASCII letters. -/
def lowerAscii (cs : List Char) : List Char := cs.map Char.toLower

/-- The exponent part of a numeral: nothing, or `e` with an optional sign and digits to the end. -/
def exponentPart? : List Char → Option Int
  | [] => some 0
  | e :: rest =>
    if e == 'e' || e == 'E' then
      let (negative, digits) := match rest with
        | '-' :: ds => (true, ds)
        | '+' :: ds => (false, ds)
        | ds => (false, ds)
      if digits ≠ [] ∧ digits.all Char.isDigit then
        some (if negative then -(Digits.value digits : Int) else Digits.value digits)
      else none
    else none

/-- A numeral without its sign: digits with an optional point, at least one digit, and an optional
exponent. -/
def unsignedNumeral? (cs : List Char) : Option Decimal :=
  let whole := cs.takeWhile Char.isDigit
  let rest := cs.dropWhile Char.isDigit
  let (fraction, tail) := match rest with
    | '.' :: more => (more.takeWhile Char.isDigit, more.dropWhile Char.isDigit)
    | _ => ([], rest)
  if whole = [] ∧ fraction = [] then none
  else (exponentPart? tail).map fun e =>
    ⟨Digits.value (whole ++ fraction), e - fraction.length⟩

/-- **The double that a text writes**: an optional sign, then a numeral or, in letters of either
case, `inf`, `infinity` or `nan`. -/
def ofText? (cs : List Char) : Option Binary64 :=
  let (negative, body) := match cs with
    | '-' :: rest => (true, rest)
    | '+' :: rest => (false, rest)
    | _ => (false, cs)
  let name := lowerAscii body
  if name = "inf".toList ∨ name = "infinity".toList then some (infinity negative)
  else if name = "nan".toList then some { nan with negative := negative }
  else (unsignedNumeral? body).map (ofDecimal negative)

/-! ## Writing -/

/-- Which of two equally near decimals is written. -/
inductive Tie where
  /-- The one with the even last digit. -/
  | toEven
  /-- The greater one. -/
  | up
deriving DecidableEq

/-- The absolute value over `10 ^ e`, as a fraction. -/
def gridFraction (x : Binary64) (e : Int) : Nat × Nat :=
  if 0 ≤ e then (x.units, unitsPerOne * Nat.pow 10 e.toNat)
  else (x.units * Nat.pow 10 e.natAbs, unitsPerOne)

/-- Whether a decimal reads back to the number `x`. -/
def readsBack (x : Binary64) (d : Decimal) : Bool :=
  ofDecimal x.negative d == x

/-- **The hit on one grid**: of the two multiples of `10 ^ e` around the number, the one that reads
back; of two such, the nearer. -/
def shortestOnGrid (tie : Tie) (x : Binary64) (e : Int) : Option Decimal :=
  let (n, d) := gridFraction x e
  let low := n / d
  let r := n % d
  match readsBack x ⟨low, e⟩, readsBack x ⟨low + 1, e⟩ with
  | true, true =>
    if 2 * r < d then some ⟨low, e⟩
    else if d < 2 * r then some ⟨low + 1, e⟩
    else match tie with
      | .up => some ⟨low + 1, e⟩
      | .toEven => some ⟨low + low % 2, e⟩
  | true, false => some ⟨low, e⟩
  | false, true => some ⟨low + 1, e⟩
  | false, false => none

/-- The power of ten of the first digit of a nonzero number. Every positive double is at least
`10 ^ (-324)`, so the number is scaled by `10 ^ 324` and its digits are counted. -/
def leadingExponent (x : Binary64) : Int :=
  (Digits.length (x.units * Nat.pow 10 324 / unitsPerOne) : Int) - 325

/-- All digits of a number: one unit is `5 ^ 1074` over `10 ^ 1074`. -/
def exactDecimal (x : Binary64) : Decimal :=
  ⟨x.units * Nat.pow 5 1074, -1074⟩

/-- **The decimal with the fewest digits that reads back** to a finite number. Seventeen digits
tell any two doubles apart; the exact decimal stands last so that the search is total. -/
def shortest (tie : Tie) (x : Binary64) : Decimal :=
  ((List.range 17).findSome? fun (n : Nat) => shortestOnGrid tie x (x.leadingExponent - n)).getD
    x.exactDecimal

end Binary64

end PagedTopK
