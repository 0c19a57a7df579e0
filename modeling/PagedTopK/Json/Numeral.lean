import PagedTopK.Binary64.Decimal

set_option autoImplicit false

/-!
# JSON numerals

A numeral is an optional minus sign, whole digits, an optional fraction and an optional exponent.
Without fraction and exponent it writes an integer if that fits in 64 bits. Otherwise it writes a
double, which is computed in two steps: as many leading digits as fit in 64 bits give a significand,
which is rounded to a double, and the double is then multiplied or divided by a power of ten. Each
step rounds, so the double need not be the one nearest to the numeral.

## Main definitions

* `Json.Numeral` — the parts of a numeral.
* `Json.Number` — what a numeral writes.
* `Json.scale?` — a significand times a power of ten, in double precision.
* `Json.Numeral.number?` — the number that a numeral writes, none if it exceeds every double.
-/

namespace PagedTopK.Json

/-- **The parts of a numeral.** -/
structure Numeral where
  /-- Whether there is a minus sign. -/
  negative : Bool
  /-- The digits before the point. -/
  whole : List Char
  /-- The digits after the point, none without a point. -/
  fraction : List Char
  /-- Whether an exponent is written. -/
  scaled : Bool
  /-- Whether the exponent has a minus sign. -/
  exponentNegative : Bool
  /-- The digits of the exponent. -/
  exponent : List Char
deriving DecidableEq

/-- **What a numeral writes.** -/
inductive Number where
  /-- An integer that fits in 64 bits, signed or unsigned. -/
  | integer (value : Int)
  /-- A double. -/
  | double (value : Binary64)
deriving DecidableEq

/-- Append digits to a number while it fits in 64 bits; gives the number and the digits left. -/
def absorb (n : Nat) : List Char → Nat × List Char
  | [] => (n, [])
  | c :: cs =>
    if 10 * n + Digits.digitValue c < Digits.word64 then absorb (10 * n + Digits.digitValue c) cs
    else (n, c :: cs)

/-- A power of ten as a double. -/
def powerOfTen (k : Nat) : Binary64 := Binary64.ofDecimal false ⟨1, k⟩

/-- A double divided by a power of ten. The greatest power among doubles is the 308th, so one
division does up to that, two divisions beyond; from the 617th on nothing is left of a number below
`2 ^ 64`. -/
def scaleDown (x : Binary64) (k : Nat) : Binary64 :=
  if k ≤ 308 then x / powerOfTen k
  else if k ≤ 616 then x / powerOfTen 308 / powerOfTen (k - 308)
  else .zero

/-- **A significand times a power of ten**, in double precision; none if it is too great. -/
def scale? (significand : Nat) (exponent : Int) : Option Binary64 :=
  let x := Binary64.ofNat significand
  if exponent < 0 then some (scaleDown x exponent.natAbs)
  else if exponent ≤ 308 then
    let y := x * powerOfTen exponent.toNat
    if y.isFinite then some y else none
  else if x.isZero then some x
  else none

namespace Numeral

/-- The significand and the power of ten that scales it, before the exponent is counted. -/
def parts (n : Numeral) : Nat × Int :=
  let (s, left) := absorb 0 n.whole
  let (t, unused) := absorb s n.fraction
  (t, left.length - (n.fraction.length - unused.length : Nat))

/-- The absolute value of the exponent, none if it takes more than 31 bits. -/
def exponentSize? (n : Numeral) : Option Nat :=
  match absorb 0 n.exponent with
  | (e, []) => if e < Nat.pow 2 31 then some e else none
  | _ => none

/-- **The double that a numeral writes**, none if it exceeds every double. An exponent of more than
31 bits is not added up: it makes zero, or too great a number. -/
def double? (n : Numeral) : Option Binary64 :=
  let (s, shift) := n.parts
  let absolute := match n.exponentSize? with
    | some e => scale? s (if n.exponentNegative then shift - e else shift + e)
    | none => if s = 0 ∨ n.exponentNegative then some .zero else none
  absolute.map fun x => if n.negative then x.neg else x

/-- The integer that a numeral writes, if it has neither fraction nor exponent and fits in 64 bits.
Minus zero is no integer. -/
def integer? (n : Numeral) : Option Int :=
  if n.fraction = [] ∧ n.scaled = false then
    match absorb 0 n.whole with
    | (s, []) =>
      if n.negative = false then some s
      else if s ≠ 0 ∧ s ≤ Nat.pow 2 63 then some (-s)
      else none
    | _ => none
  else none

/-- **The number that a numeral writes**, none if it exceeds every double. -/
def number? (n : Numeral) : Option Number :=
  match n.integer? with
  | some i => some (.integer i)
  | none => n.double?.map .double

end Numeral

end PagedTopK.Json
