import Mathlib.Algebra.Order.Field.Basic
import Mathlib.Data.Rat.Cast.Order
import Mathlib.Tactic.Lemma
import Mathlib.Tactic.Linarith
import Mathlib.Tactic.Positivity
import Mathlib.Tactic.Ring
import PagedTopK.Binary64.Decimal
import PagedTopK.Proofs.Binary64.Rounding
import PagedTopK.Proofs.Text.Digits

set_option autoImplicit false

/-!
# Decimals that are read back

## Main definitions

* `Decimal.value` — the number that a decimal stands for.

## Main results

* `Binary64.readsBack_shortest` — the decimal that is written for a double is read as that double.
* `Binary64.value_le_of_readsBack` — how far above a double such a decimal may be.
* `Binary64.shortest_neg` — the decimal does not depend on the sign.
-/

namespace PagedTopK

/-- **The number that a decimal stands for.** -/
def Decimal.value (d : Decimal) : ℚ := d.coefficient * 10 ^ d.exponent

namespace Binary64

/-- The distance between the greatest doubles. -/
@[irreducible]
def greatestStep : Nat := Nat.pow 2 971

lemma greatestStep_pos : 0 < greatestStep := by
  unfold greatestStep
  decide +kernel

/-- Doubles stay below `10 ^ 309`. -/
lemma greatestStep_lt : 2 ^ 53 * greatestStep < 10 ^ 309 := by
  unfold greatestStep
  decide +kernel

/-- The power `10 ^ 308` is among doubles. -/
lemma le_greatestStep : 2 * 10 ^ 308 < (2 ^ 54 - 1) * greatestStep := by
  unfold greatestStep
  decide +kernel

lemma unitsPerOne_pos : 0 < unitsPerOne := by
  unfold unitsPerOne
  decide +kernel

lemma topStep_eq : topStep = greatestStep * unitsPerOne := by
  rw [topStep, topShift_eq]
  unfold greatestStep unitsPerOne
  decide +kernel

/-! ## Reading -/

/-- A decimal between the bounds is rounded. -/
lemma ofDecimal_of_bounds (negative : Bool) {d : Decimal} (hc : d.coefficient ≠ 0)
    (hlow : -400 ≤ d.leadingExponent) (hhigh : d.leadingExponent ≤ 400) :
    ofDecimal negative d =
      if 0 ≤ d.exponent then
        roundUnits negative (d.coefficient * 10 ^ d.exponent.toNat * unitsPerOne) 1
      else roundUnits negative (d.coefficient * unitsPerOne) (10 ^ d.exponent.natAbs) := by
  rw [ofDecimal, if_neg hc, if_neg (by omega), if_neg (by omega)]
  rfl

/-- Decimals out of the bounds are read as zero or infinity. -/
lemma bounds_of_ofDecimal {negative : Bool} {d : Decimal}
    (hfinite : (ofDecimal negative d).isFinite = true)
    (hzero : (ofDecimal negative d).isZero = false) :
    d.coefficient ≠ 0 ∧ -400 ≤ d.leadingExponent ∧ d.leadingExponent ≤ 400 := by
  have hnone : (signedZero negative).isZero = true := rfl
  have hinfinite : (infinity negative).isFinite = false := by
    unfold isFinite infinity
    simp
  unfold ofDecimal at hfinite hzero
  split at hfinite
  · next h =>
    rw [if_pos h, hnone] at hzero
    cases hzero
  · next hc =>
    rw [if_neg hc] at hzero
    split at hfinite
    · rw [hinfinite] at hfinite
      cases hfinite
    · next hhigh =>
      rw [if_neg hhigh] at hzero
      split at hfinite
      · next h =>
        rw [if_pos h, hnone] at hzero
        cases hzero
      · next hlow => exact ⟨hc, by omega, by omega⟩

/-- A decimal between the bounds is rounded as the fraction of units that it stands for. -/
lemma exists_ofDecimal_eq_roundUnits (negative : Bool) {d : Decimal} (hc : d.coefficient ≠ 0)
    (hlow : -400 ≤ d.leadingExponent) (hhigh : d.leadingExponent ≤ 400) :
    ∃ n m : Nat, 0 < m ∧ ofDecimal negative d = roundUnits negative n m ∧
      (n : ℚ) = d.value * unitsPerOne * m := by
  rw [ofDecimal_of_bounds negative hc hlow hhigh, Decimal.value]
  split
  · next hexponent =>
    have hpower : (10 : ℚ) ^ d.exponent = 10 ^ d.exponent.toNat := by
      rw [← zpow_natCast, Int.toNat_of_nonneg hexponent]
    refine ⟨_, 1, Nat.one_pos, rfl, ?_⟩
    rw [hpower, Nat.cast_one, mul_one]
    push_cast
    rfl
  · next hexponent =>
    have hpower : (10 : ℚ) ^ d.exponent = ((10 : ℚ) ^ d.exponent.natAbs)⁻¹ := by
      rw [← zpow_natCast, ← zpow_neg]
      congr 1
      omega
    have hscale : (10 : ℚ) ^ d.exponent.natAbs ≠ 0 := by positivity
    refine ⟨_, 10 ^ d.exponent.natAbs, Nat.pow_pos (by decide), rfl, ?_⟩
    rw [hpower, Nat.cast_mul, Nat.cast_pow, Nat.cast_ofNat,
      mul_right_comm (d.coefficient : ℚ) _ (unitsPerOne : ℚ), mul_assoc (_ * _ : ℚ),
      inv_mul_cancel₀ hscale, mul_one]

/-- **How far above a double a decimal may be that is read as it**: by half of the distance between
the greatest doubles. -/
theorem value_le_of_readsBack {x : Binary64} (hfinite : x.isFinite = true)
    (hzero : x.isZero = false) {d : Decimal} (h : readsBack x d = true) :
    2 * d.value * unitsPerOne ≤ 2 * x.units + topStep := by
  have hx : ofDecimal x.negative d = x := eq_of_beq h
  obtain ⟨hc, hlow, hhigh⟩ := bounds_of_ofDecimal (hx.symm ▸ hfinite) (hx.symm ▸ hzero)
  obtain ⟨n, m, hm, hround, hvalue⟩ :=
    exists_ofDecimal_eq_roundUnits x.negative hc hlow hhigh
  rw [hround] at hx
  have hle := le_units_roundUnits hm (hx.symm ▸ hfinite)
  rw [hx] at hle
  have hcast : (2 * n : ℚ) ≤ (2 * x.units + topStep) * m := by exact_mod_cast hle
  have hpos : (0 : ℚ) < m := by exact_mod_cast hm
  refine le_of_mul_le_mul_right ?_ hpos
  linarith

/-! ## Writing -/

/-- Finite doubles have at most the units of the greatest one. -/
lemma units_le {x : Binary64} (h : x.isFinite = true) : x.units ≤ (2 ^ 53 - 1) * topStep := by
  have hm : x.magnitude < 2047 * 2 ^ 52 := by
    have hlt : x.magnitude < infiniteMagnitude := by simpa [isFinite] using h
    rwa [infiniteMagnitude_eq] at hlt
  have hfield : Nat.pow 2 52 = 2 ^ 52 := rfl
  have htop := topShift_eq
  unfold units
  refine Nat.mul_le_mul ?_ (two_pow_le_topStep ?_)
  · unfold significand
    rw [hfield]
    split <;> omega
  · unfold shift
    rw [hfield]
    omega

lemma units_pos {x : Binary64} (h : x.isZero = false) : 0 < x.units := by
  have hm : x.magnitude ≠ 0 := by simpa [isZero] using h
  refine Nat.mul_pos ?_ (Nat.two_pow_pos _)
  unfold significand
  split
  · omega
  · exact Nat.lt_of_lt_of_le (by decide) (Nat.le_add_right _ _)

/-- **All digits of a number are read as that number.** -/
lemma readsBack_exactDecimal {x : Binary64} (hfinite : x.isFinite = true)
    (hzero : x.isZero = false) : readsBack x x.exactDecimal = true := by
  have hunits := units_pos hzero
  have hcoefficient : x.exactDecimal.coefficient = x.units * Nat.pow 5 1074 := rfl
  have hexponent : x.exactDecimal.exponent = -1074 := rfl
  have hpowers : Nat.pow 5 1074 * unitsPerOne = 10 ^ 1074 := by
    unfold unitsPerOne
    decide +kernel
  have hfive : 674 < Digits.length (Nat.pow 5 1074) := by decide +kernel
  have hfivePos : 0 < Nat.pow 5 1074 := by decide +kernel
  have hscalePos : 0 < 10 ^ 1074 := by decide +kernel
  have hle : x.units < 2 ^ 53 * (greatestStep * unitsPerOne) := by
    have htop := units_le hfinite
    have hpos := topStep_pos
    rw [topStep_eq] at htop hpos
    omega
  -- The powers are only compared with each other, never computed.
  generalize Nat.pow 5 1074 = five at hcoefficient hpowers hfive hfivePos
  have hlow : 674 < Digits.length x.exactDecimal.coefficient := by
    rw [hcoefficient]
    exact Nat.lt_of_lt_of_le hfive (Digits.length_mono (Nat.le_mul_of_pos_left five hunits))
  have hhigh : Digits.length x.exactDecimal.coefficient ≤ 1074 + 309 := by
    rw [Digits.length_le_iff (by decide), hcoefficient, Nat.pow_add 10 1074 309, ← hpowers]
    have hstep := greatestStep_lt
    generalize 10 ^ 309 = bound at hstep
    calc x.units * five < 2 ^ 53 * (greatestStep * unitsPerOne) * five :=
          Nat.mul_lt_mul_of_pos_right hle hfivePos
      _ = five * unitsPerOne * (2 ^ 53 * greatestStep) := by ring
      _ ≤ five * unitsPerOne * bound := Nat.mul_le_mul_left _ (Nat.le_of_lt hstep)
  have hleading : x.exactDecimal.leadingExponent =
      -1074 + Digits.length x.exactDecimal.coefficient - 1 := rfl
  have hnonzero : x.exactDecimal.coefficient ≠ 0 := by
    rw [hcoefficient]
    exact Nat.ne_of_gt (Nat.mul_pos hunits hfivePos)
  have habs : (-1074 : Int).natAbs = 1074 := rfl
  rw [readsBack, beq_iff_eq, ofDecimal_of_bounds x.negative hnonzero (by omega) (by omega),
    hexponent, if_neg (by decide), habs, hcoefficient, Nat.mul_assoc, hpowers]
  exact roundUnits_units hfinite hscalePos

/-- A hit on a grid is read back. -/
lemma readsBack_of_shortestOnGrid {tie : Tie} {x : Binary64} {e : Int} {d : Decimal}
    (h : shortestOnGrid tie x e = some d) : readsBack x d = true := by
  unfold shortestOnGrid at h
  simp only at h
  split at h
  · next hlow hnext =>
    split at h
    · cases h
      exact hlow
    split at h
    · cases h
      exact hnext
    · cases tie with
      | up =>
        cases h
        exact hnext
      | toEven =>
        cases h
        rcases Nat.mod_two_eq_zero_or_one ((gridFraction x e).1 / (gridFraction x e).2) with h | h
        · rw [h]
          exact hlow
        · rw [h]
          exact hnext
  · next hlow _ =>
    cases h
    exact hlow
  · next _ hnext =>
    cases h
    exact hnext
  · cases h

/-- **The decimal that is written for a number is read as that number.** -/
theorem readsBack_shortest (tie : Tie) {x : Binary64} (hfinite : x.isFinite = true)
    (hzero : x.isZero = false) : readsBack x (shortest tie x) = true := by
  unfold shortest
  generalize hfind : List.findSome? _ _ = found
  cases found with
  | none => exact readsBack_exactDecimal hfinite hzero
  | some d =>
    obtain ⟨n, -, hn⟩ := List.exists_of_findSome?_eq_some hfind
    exact readsBack_of_shortestOnGrid hn

/-! ## Signs -/

lemma roundUnits_not (negative : Bool) (n d : Nat) :
    roundUnits (!negative) n d = (roundUnits negative n d).neg := by
  unfold roundUnits ofMagnitude
  dsimp only
  split <;> rfl

lemma ofDecimal_not (negative : Bool) (d : Decimal) :
    ofDecimal (!negative) d = (ofDecimal negative d).neg := by
  unfold ofDecimal
  split
  · rfl
  split
  · rfl
  split
  · rfl
  split <;> exact roundUnits_not _ _ _

lemma neg_injective : Function.Injective neg := by
  rintro ⟨a, m, _⟩ ⟨b, n, _⟩ h
  simpa [neg] using h

lemma readsBack_neg (x : Binary64) (d : Decimal) : readsBack x.neg d = readsBack x d := by
  have hsign : x.neg.negative = !x.negative := rfl
  rw [readsBack, readsBack, hsign, ofDecimal_not, Bool.eq_iff_iff, beq_iff_eq, beq_iff_eq,
    neg_injective.eq_iff]

/-- **The digits of a number do not depend on its sign.** -/
lemma shortest_neg (tie : Tie) (x : Binary64) : shortest tie x.neg = shortest tie x := by
  have hgrid : ∀ e, shortestOnGrid tie x.neg e = shortestOnGrid tie x e := by
    intro e
    have hfraction : gridFraction x.neg e = gridFraction x e := rfl
    unfold shortestOnGrid
    simp only [hfraction, readsBack_neg]
  have hleading : x.neg.leadingExponent = x.leadingExponent := rfl
  have hexact : x.neg.exactDecimal = x.exactDecimal := rfl
  unfold shortest
  simp only [hgrid, hleading, hexact]

/-- The decimal that is written for a number has a moderate exponent. -/
lemma bounds_shortest (tie : Tie) {x : Binary64} (hfinite : x.isFinite = true)
    (hzero : x.isZero = false) :
    (shortest tie x).coefficient ≠ 0 ∧ -400 ≤ (shortest tie x).leadingExponent ∧
      (shortest tie x).leadingExponent ≤ 400 := by
  have hx : ofDecimal x.negative (shortest tie x) = x :=
    eq_of_beq (readsBack_shortest tie hfinite hzero)
  exact bounds_of_ofDecimal (hx.symm ▸ hfinite) (hx.symm ▸ hzero)

end Binary64

end PagedTopK
