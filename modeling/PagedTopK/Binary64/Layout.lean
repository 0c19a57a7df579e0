import PagedTopK.Binary64.Decimal

set_option autoImplicit false

/-!
# Layouts of doubles in text

The digits of a double are always the fewest that read back. Where the point stands, when an
exponent is written and how, and what infinities and NaNs are called differs from text to text and
is fixed by a `Layout`.

## Main definitions

* `Layout` — the choices of one text format.
* `Layout.write` — a double in that format.
* `Layout.selector`, `Layout.message` — the two formats of plain texts.
-/

namespace PagedTopK

/-- **The choices of a text format for doubles.** -/
structure Layout where
  /-- Whether a number with a given power of ten at its first digit is written without exponent. -/
  positional : Int → Bool
  /-- Whether a positive exponent carries a plus sign. -/
  plusSign : Bool
  /-- Whether a whole number in positional form ends in `.0`. -/
  wholeFraction : Bool
  /-- Which of two equally near decimals is written. -/
  tie : Binary64.Tie

namespace Layout

/-- **Digits with a point**: `point` digits stand before it, and zeros fill the gap when the digits
do not reach the point or start after it. -/
def positionalText (wholeFraction : Bool) (digits : List Char) (point : Int) : List Char :=
  if point ≤ 0 then
    "0.".toList ++ List.replicate point.natAbs '0' ++ digits
  else if digits.length ≤ point.toNat then
    digits ++ List.replicate (point.toNat - digits.length) '0' ++
      (if wholeFraction then ".0".toList else [])
  else
    digits.take point.toNat ++ '.' :: digits.drop point.toNat

/-- Digits with an exponent: one digit before the point, the others after it. -/
def scientificText (plusSign : Bool) (digits : List Char) (exponent : Int) : List Char :=
  let mantissa := match digits with
    | [] => ['0']
    | [d] => [d]
    | d :: more => d :: '.' :: more
  let sign := if exponent < 0 then ['-'] else if plusSign then ['+'] else []
  mantissa ++ 'e' :: sign ++ Digits.ofNat exponent.natAbs

/-- The absolute value of a finite number in a layout. -/
def absoluteText (layout : Layout) (x : Binary64) : List Char :=
  if x.isZero then
    if layout.wholeFraction then "0.0".toList else ['0']
  else
    let d := Binary64.shortest layout.tie x
    let digits := d.digits
    let e := d.leadingExponent
    if layout.positional e then positionalText layout.wholeFraction digits (e + 1)
    else scientificText layout.plusSign digits e

/-- **A double in a layout.** The sign of zero is kept; a NaN has no sign. -/
def write (layout : Layout) (x : Binary64) : List Char :=
  if x.isNaN then "NaN".toList
  else
    (if x.negative then ['-'] else []) ++
      (if x.isFinite then layout.absoluteText x else "inf".toList)

/-- **The layout of refresh rates in selectors**: exponents below `1e-4` and from `1e16` on, without
a plus sign. -/
def selector : Layout where
  positional e := -4 ≤ e && e < 16
  plusSign := false
  wholeFraction := true
  tie := .up

/-- **The layout of numbers in messages**: never an exponent, no fraction on whole numbers. -/
def message : Layout where
  positional _ := true
  plusSign := false
  wholeFraction := false
  tie := .up

end Layout

end PagedTopK
