set_option autoImplicit false

/-!
# Binary64: double-precision numbers as exact values

A double-precision number is kept as its sign and the 63 bits below the sign, read as one natural
number, the *magnitude*. The magnitude grows with the absolute value, so orders on doubles are
orders on integers here. Every finite double is a whole multiple of the least positive one,
`2 ^ (-1074)`; `Binary64.units` is that multiple, and all arithmetic is exact arithmetic on units
followed by one rounding.

## Main definitions

* `Binary64` — a double, NaNs with their payloads included.
* `Binary64.units` — the absolute value of a finite double in units of `2 ^ (-1074)`.
* `Binary64.roundUnits` — the double nearest to a fraction of units, ties to even.
* `Binary64.add`, `Binary64.mul`, `Binary64.div` — correctly rounded arithmetic.
* `Binary64.order` — the total order on bit patterns, with `-0` below `0`.
* `Binary64.sameNumber` — numeric equality: `-0` equals `0` and a NaN equals nothing.
-/

namespace PagedTopK

/-- **A double-precision number**: its sign and the 63 bits below the sign as one number. -/
structure Binary64 where
  /-- The sign bit. -/
  negative : Bool
  /-- Exponent and fraction field, read as one natural number. -/
  magnitude : Nat
  /-- The field has 63 bits. -/
  magnitude_lt : magnitude < Nat.pow 2 63
deriving DecidableEq

namespace Binary64

/-- The magnitude of an infinity: the exponent field is full and the fraction is zero. -/
def infiniteMagnitude : Nat := 2047 * Nat.pow 2 52

/-- **Build a double** from a sign and a magnitude; a magnitude past the infinite one gives the
infinity of that sign. -/
def ofMagnitude (negative : Bool) (magnitude : Nat) : Binary64 :=
  if h : magnitude < infiniteMagnitude then
    ⟨negative, magnitude, Nat.lt_trans h (by decide)⟩
  else
    ⟨negative, infiniteMagnitude, by decide⟩

/-- Positive zero. -/
def zero : Binary64 := ⟨false, 0, by decide⟩

/-- Zero of a given sign. -/
def signedZero (negative : Bool) : Binary64 := ⟨negative, 0, by decide⟩

/-- The infinity of a given sign. -/
def infinity (negative : Bool) : Binary64 := ⟨negative, infiniteMagnitude, by decide⟩

/-- The quiet NaN without sign or payload. -/
def nan : Binary64 := ⟨false, infiniteMagnitude + Nat.pow 2 51, by decide⟩

instance : Inhabited Binary64 := ⟨zero⟩

/-- The 64 bits as a natural number. -/
def bits (x : Binary64) : Nat :=
  (if x.negative then Nat.pow 2 63 else 0) + x.magnitude

/-- The double with the given 64 bits. -/
def ofBits (n : Nat) : Binary64 :=
  ⟨n / Nat.pow 2 63 % 2 == 1, n % Nat.pow 2 63, Nat.mod_lt _ (by decide)⟩

/-- Whether the number is neither an infinity nor a NaN. -/
def isFinite (x : Binary64) : Bool :=
  x.magnitude < infiniteMagnitude

/-- Whether the pattern is a NaN. -/
def isNaN (x : Binary64) : Bool :=
  infiniteMagnitude < x.magnitude

/-- Whether the number is `0` or `-0`. -/
def isZero (x : Binary64) : Bool :=
  x.magnitude == 0

/-- The number with the other sign. -/
def neg (x : Binary64) : Binary64 :=
  { x with negative := !x.negative }

/-! ## Exact values -/

/-- The exponent field of a magnitude, less one for normal numbers: the power of two by which the
significand exceeds units. -/
def shift (magnitude : Nat) : Nat :=
  magnitude / Nat.pow 2 52 - 1

/-- The significand of a magnitude, with its leading bit for normal numbers. -/
def significand (magnitude : Nat) : Nat :=
  if magnitude < Nat.pow 2 52 then magnitude
  else Nat.pow 2 52 + magnitude % Nat.pow 2 52

/-- **The absolute value in units** of the least positive double. -/
def units (x : Binary64) : Nat :=
  significand x.magnitude * Nat.pow 2 (shift x.magnitude)

/-- How many units make one. -/
def unitsPerOne : Nat := Nat.pow 2 1074

/-! ## Rounding -/

/-- The whole number nearest to `n / d`, a tie going to the even one. -/
def divideToEven (n d : Nat) : Nat :=
  let q := n / d
  let r := n % d
  if 2 * r < d then q
  else if d < 2 * r then q + 1
  else if q % 2 == 0 then q else q + 1

/-- **The double nearest to `n / d` units**, a tie going to the even significand. The significand
keeps 53 bits, or fewer next to zero; a carry out of the significand moves into the exponent field,
because the two fields are one number. -/
def roundUnits (negative : Bool) (n d : Nat) : Binary64 :=
  let s := Nat.log2 (n / d) - 52
  ofMagnitude negative (s * Nat.pow 2 52 + divideToEven n (d * Nat.pow 2 s))

/-- The double nearest to a natural number. -/
def ofNat (n : Nat) : Binary64 :=
  roundUnits false (n * unitsPerOne) 1

/-- The double nearest to an integer; zero is positive. -/
def ofInt (i : Int) : Binary64 :=
  roundUnits (i < 0) (i.natAbs * unitsPerOne) 1

/-! ## Arithmetic -/

/-- A finite double as a signed number of units. -/
def signedUnits (x : Binary64) : Int :=
  if x.negative then -(x.units : Int) else x.units

/-- **The correctly rounded sum.** -/
def add (x y : Binary64) : Binary64 :=
  if x.isNaN || y.isNaN then nan
  else if !x.isFinite then
    if !y.isFinite && x.negative != y.negative then nan else x
  else if !y.isFinite then y
  else
    let total := x.signedUnits + y.signedUnits
    if total = 0 then signedZero (x.negative && y.negative)
    else roundUnits (total < 0) total.natAbs 1

/-- **The correctly rounded product.** -/
def mul (x y : Binary64) : Binary64 :=
  let negative := x.negative != y.negative
  if x.isNaN || y.isNaN then nan
  else if !x.isFinite || !y.isFinite then
    if x.isZero || y.isZero then nan else infinity negative
  else roundUnits negative (x.units * y.units) unitsPerOne

/-- **The correctly rounded quotient.** -/
def div (x y : Binary64) : Binary64 :=
  let negative := x.negative != y.negative
  if x.isNaN || y.isNaN then nan
  else if !x.isFinite then
    if !y.isFinite then nan else infinity negative
  else if !y.isFinite then signedZero negative
  else if y.isZero then
    if x.isZero then nan else infinity negative
  else roundUnits negative (x.units * unitsPerOne) y.units

instance : Add Binary64 := ⟨add⟩

instance : Mul Binary64 := ⟨mul⟩

instance : Div Binary64 := ⟨div⟩

/-! ## Orders -/

/-- The place of a pattern on the integer line: negative patterns lie below zero, and `-0` lies
just below `0`. -/
def place (x : Binary64) : Int :=
  if x.negative then -(x.magnitude : Int) - 1 else x.magnitude

/-- **The total order on doubles**: negative NaNs, negative infinity, the negative numbers, `-0`,
`0`, the positive numbers, infinity, NaNs. -/
def order (x y : Binary64) : Ordering :=
  compare x.place y.place

/-- **Numeric equality**: the two zeros are equal and a NaN is equal to nothing. -/
def sameNumber (x y : Binary64) : Bool :=
  !x.isNaN && !y.isNaN && (x == y || (x.isZero && y.isZero))

/-- Whether the number is below zero; neither `-0` nor a NaN is. -/
def isBelowZero (x : Binary64) : Bool :=
  x.negative && !x.isZero && !x.isNaN

/-- Distinct patterns have distinct places. -/
theorem place_injective {x y : Binary64} (h : x.place = y.place) : x = y := by
  obtain ⟨sx, mx, hx⟩ := x
  obtain ⟨sy, my, hy⟩ := y
  cases sx <;> cases sy <;> simp [place] at h ⊢ <;> omega

end Binary64

end PagedTopK
