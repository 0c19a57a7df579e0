import PagedTopK.Proofs.Binary64.Arithmetic
import PagedTopK.Proofs.Binary64.Order

set_option autoImplicit false

/-!
# Errors of rounding

A rounded number is off by at most one part in `2 ^ 53`, or by half a unit next to zero. Such errors
add up when rounded numbers are multiplied, divided and rounded again.

## Main definitions

* `Binary64.IsNear` — whether a number is off by at most some parts in `2 ^ 53` and some halves of
  the least positive double.

## Main results

* `Binary64.Nearest.error_le` — how far the nearest double is from a number.
* `Binary64.IsNear.mul`, `Binary64.IsNear.div`, `Binary64.Nearest.isNear_of_isNear` — how errors
  add up.
* `Binary64.isNear_mul`, `Binary64.isNear_div` — the errors of products and quotients.
-/

namespace PagedTopK.Binary64

/-- Half of the least positive double. -/
def halfUnit : ℚ := 1 / (2 * unitsPerOne)

lemma halfUnit_pos : 0 < halfUnit := by
  have hunits := unitsPerOne_cast_pos
  unfold halfUnit
  positivity

lemma halfUnit_mul_unitsPerOne : halfUnit * unitsPerOne = 1 / 2 := by
  have hunits := unitsPerOne_cast_pos
  unfold halfUnit
  field_simp

lemma halfUnit_le : halfUnit ≤ 1 / 2 ^ 53 := by
  have hunits := unitsPerOne_cast_pos
  have hle : 2 ^ 52 ≤ unitsPerOne := by
    rw [unitsPerOne_eq]
    exact Nat.pow_le_pow_right (by decide) (by decide)
  have hcast : (2 ^ 52 : ℚ) ≤ unitsPerOne := by exact_mod_cast hle
  refine one_div_le_one_div_of_le (by norm_num) ?_
  linarith

variable {x : Binary64} {k c a p q t v w : ℚ}

/-! ## One rounding -/

/-- The units of a rounded fraction are off by at most one part in `2 ^ 53`, or by one half. -/
lemma Rounded.abs_sub_le {n d s m : Nat} (h : Rounded n d s m) (hd : 0 < d) :
    |(n : ℚ) / d - m * 2 ^ s| ≤ max ((n : ℚ) / d / 2 ^ 53) (1 / 2) := by
  have hhalf := h.two_mul_abs_sub_le hd
  rcases Nat.eq_zero_or_pos s with rfl | hs
  · refine le_max_of_le_right ?_
    rw [pow_zero] at hhalf ⊢
    linarith
  · refine le_max_of_le_left ?_
    have hnormal := h.le_quotient hd hs
    linarith

/-- Every number below the overflow is a fraction of units that is rounded to a finite double. -/
lemma exists_roundUnits (hv : |v| < overflow) :
    ∃ (negative : Bool) (n d : Nat), 0 < d ∧ (roundUnits negative n d).isFinite = true ∧
      |v| * unitsPerOne = n / d ∧ (roundUnits negative n d).HasSign v := by
  have habs : |v| * unitsPerOne = (v.num.natAbs * unitsPerOne : Nat) / v.den := by
    nth_rewrite 1 [← Rat.num_div_den v]
    rw [abs_div, ← Int.cast_abs, Int.abs_eq_natAbs, Int.cast_natCast, Nat.abs_cast, Nat.cast_mul,
      div_mul_eq_mul_div]
  refine ⟨decide (v < 0), _, v.den, v.den_pos, (isFinite_roundUnits_iff_lt v.den_pos habs).2 hv,
    habs, ?_⟩
  rw [HasSign, negative_roundUnits]
  split
  · next h => exact (of_decide_eq_true h).le
  · next h => exact not_lt.1 fun hlt => h (decide_eq_true hlt)

/-- **The nearest double** is off by at most one part in `2 ^ 53`, or by half a unit. -/
theorem Nearest.error_le (h : Nearest x v) (hv : |v| < overflow) :
    |v - x.toRat| ≤ max (|v| / 2 ^ 53) halfUnit := by
  have hunits := unitsPerOne_cast_pos
  obtain ⟨negative, n, d, hd, hfinite, habs, hsign⟩ := exists_roundUnits hv
  rw [h.toRat_eq (nearest_roundUnits hd hfinite habs hsign), abs_sub_toRat hsign,
    abs_sub_eq_div habs, div_le_iff₀ hunits]
  obtain ⟨s, m, hr, -, hm⟩ := exists_units_roundUnits hd hfinite
  have hle := hr.abs_sub_le hd
  rwa [hm, Nat.cast_mul, Nat.cast_pow, Nat.cast_ofNat, max_mul_of_nonneg _ _ hunits.le,
    div_mul_eq_mul_div, habs, halfUnit_mul_unitsPerOne]

/-! ## Errors that add up -/

/-- **Whether a number is near another one**: off by at most `k` parts in `2 ^ 53` and `c` halves of
the least positive double. -/
def IsNear (k c a t : ℚ) : Prop := |a - t| ≤ k / 2 ^ 53 * t + c * halfUnit

lemma IsNear.refl (t : ℚ) : IsNear 0 0 t t := by
  rw [IsNear, sub_self, abs_zero, zero_div, zero_mul, zero_mul, add_zero]

lemma IsNear.mono {k' c' : ℚ} (h : IsNear k c a t) (hk : k ≤ k') (hc : c ≤ c') (ht : 0 ≤ t) :
    IsNear k' c' a t := by
  refine h.trans (add_le_add (mul_le_mul_of_nonneg_right ?_ ht)
    (mul_le_mul_of_nonneg_right hc halfUnit_pos.le))
  exact div_le_div_of_nonneg_right hk (by norm_num)

lemma Nearest.error_le_add (h : Nearest x v) (hv : |v| < overflow) :
    |x.toRat - v| ≤ 1 / 2 ^ 53 * |v| + 1 * halfUnit := by
  have hhalf := halfUnit_pos
  have hpart : 0 ≤ 1 / 2 ^ 53 * |v| := by positivity
  rw [abs_sub_comm]
  exact (h.error_le hv).trans (max_le (by linarith) (by linarith))

/-- **The nearest double is near**, with signs or without. -/
lemma Nearest.isNear_abs (h : Nearest x v) (hv : |v| < overflow) : IsNear 1 1 |x.toRat| |v| :=
  (abs_abs_sub_abs_le x.toRat v).trans (h.error_le_add hv)

lemma Nearest.isNear (h : Nearest x v) (hv : v < overflow) (hnonneg : 0 ≤ v) :
    IsNear 1 1 x.toRat v := by
  have hle := h.error_le_add (by rwa [abs_of_nonneg hnonneg])
  rwa [abs_of_nonneg hnonneg] at hle

/-- Numbers from one on are off by their parts alone. -/
lemma Nearest.isNear_of_one_le (h : Nearest x v) (hv : v < overflow) (hone : 1 ≤ v) :
    IsNear 1 0 x.toRat v := by
  have hhalf := halfUnit_le
  have hnonneg : 0 ≤ v := zero_le_one.trans hone
  have hle := h.error_le (by rwa [abs_of_nonneg hnonneg])
  rw [abs_of_nonneg hnonneg, abs_sub_comm] at hle
  refine hle.trans (max_le ?_ ?_) <;> linarith

/-- Off by one part in `2 ^ 53`, a factor neither vanishes nor grows by half. -/
lemma IsNear.bounds (hp : IsNear 1 0 p q) :
    q * (1 - 1 / 2 ^ 53) ≤ p ∧ p ≤ q * (1 + 1 / 2 ^ 53) := by
  obtain ⟨hlow, hhigh⟩ := abs_le.1 hp
  constructor <;> linarith

/-- **A product of numbers that are off** is off by the sum of their parts, and one to spare. -/
lemma IsNear.mul (ha : IsNear k 0 a t) (hp : IsNear 1 0 p q) (hk : 0 ≤ k) (hk' : k ≤ 100)
    (ht : 0 ≤ t) (hq : 0 ≤ q) : IsNear (k + 2) 0 (a * p) (t * q) := by
  obtain ⟨hlow, hhigh⟩ := hp.bounds
  have hpos : 0 ≤ p := le_trans (mul_nonneg hq (by norm_num)) hlow
  unfold IsNear at *
  rw [zero_mul, add_zero] at *
  calc |a * p - t * q| = |(a - t) * p + t * (p - q)| := by ring_nf
    _ ≤ |(a - t) * p| + |t * (p - q)| := abs_add_le _ _
    _ = |a - t| * p + t * |p - q| := by rw [abs_mul, abs_mul, abs_of_nonneg hpos, abs_of_nonneg ht]
    _ ≤ k / 2 ^ 53 * t * (q * (1 + 1 / 2 ^ 53)) + t * (1 / 2 ^ 53 * q) :=
        add_le_add (mul_le_mul ha hhigh hpos (by positivity)) (mul_le_mul_of_nonneg_left hp ht)
    _ = (k * (1 + 1 / 2 ^ 53) + 1) / 2 ^ 53 * (t * q) := by ring
    _ ≤ (k + 2) / 2 ^ 53 * (t * q) := by
        refine mul_le_mul_of_nonneg_right ?_ (mul_nonneg ht hq)
        refine div_le_div_of_nonneg_right ?_ (by norm_num)
        linarith

/-- **So is a quotient**, and its constant does not grow if the divisor is two or more. -/
lemma IsNear.div (ha : IsNear k c a t) (hp : IsNear 1 0 p q) (hk : 0 ≤ k) (hk' : k ≤ 100)
    (hc : 0 ≤ c) (ht : 0 ≤ t) (hq : 2 ≤ q) : IsNear (k + 2) c (a / p) (t / q) := by
  obtain ⟨hlow, -⟩ := hp.bounds
  have hqpos : 0 < q := by linarith
  have hone : 1 ≤ p := by linarith
  have hpos : 0 < p := by linarith
  have hconstant : 0 ≤ c * halfUnit := mul_nonneg hc halfUnit_pos.le
  unfold IsNear at *
  rw [zero_mul, add_zero] at hp
  have hnumerator : |(a - t) * q - t * (p - q)| ≤ ((k + 1) / 2 ^ 53 * t + c * halfUnit) * q := by
    calc |(a - t) * q - t * (p - q)| ≤ |(a - t) * q| + |t * (p - q)| := abs_sub _ _
      _ = |a - t| * q + t * |p - q| := by rw [abs_mul, abs_mul, abs_of_pos hqpos, abs_of_nonneg ht]
      _ ≤ (k / 2 ^ 53 * t + c * halfUnit) * q + t * (1 / 2 ^ 53 * q) :=
          add_le_add (mul_le_mul_of_nonneg_right ha hqpos.le) (mul_le_mul_of_nonneg_left hp ht)
      _ = ((k + 1) / 2 ^ 53 * t + c * halfUnit) * q := by ring
  have hdifference : a / p - t / q = ((a - t) * q - t * (p - q)) / (p * q) := by
    field_simp
    ring
  have hshare : 0 ≤ t / q := div_nonneg ht hqpos.le
  have hquotient : t / p ≤ (1 + 1 / 2 ^ 52) * (t / q) := by
    rw [div_le_iff₀ hpos]
    calc t = t / q * q := (div_mul_cancel₀ t hqpos.ne').symm
      _ ≤ t / q * ((1 + 1 / 2 ^ 52) * p) := mul_le_mul_of_nonneg_left (by linarith) hshare
      _ = (1 + 1 / 2 ^ 52) * (t / q) * p := by ring
  calc |a / p - t / q| = |(a - t) * q - t * (p - q)| / (p * q) := by
        rw [hdifference, abs_div, abs_of_pos (mul_pos hpos hqpos)]
    _ ≤ ((k + 1) / 2 ^ 53 * t + c * halfUnit) * q / (p * q) :=
        div_le_div_of_nonneg_right hnumerator (mul_pos hpos hqpos).le
    _ = (k + 1) / 2 ^ 53 * (t / p) + c * halfUnit / p := by
        rw [mul_div_mul_right _ _ hqpos.ne', add_div, mul_div_assoc]
    _ ≤ (k + 1) / 2 ^ 53 * ((1 + 1 / 2 ^ 52) * (t / q)) + c * halfUnit :=
        add_le_add (mul_le_mul_of_nonneg_left hquotient (by positivity))
          (div_le_self hconstant hone)
    _ = (k + 1) * (1 + 1 / 2 ^ 52) / 2 ^ 53 * (t / q) + c * halfUnit := by ring
    _ ≤ (k + 2) / 2 ^ 53 * (t / q) + c * halfUnit := by
        refine add_le_add_left (mul_le_mul_of_nonneg_right ?_ hshare) _
        refine div_le_div_of_nonneg_right ?_ (by norm_num)
        linarith

/-- **What is rounded once more** is off by one more part and one more half, and some to spare. -/
lemma Nearest.isNear_of_isNear (h : Nearest x w) (hw : w < overflow) (hnonneg : 0 ≤ w)
    (hnear : IsNear k c w t) (hk : 0 ≤ k) (hk' : k ≤ 100) (hc : 0 ≤ c) (ht : 0 ≤ t) :
    IsNear (k + 2) (2 * c + 1) x.toRat t := by
  have hconstant : 0 ≤ c * halfUnit := mul_nonneg hc halfUnit_pos.le
  have hround := h.isNear hw hnonneg
  have hpart : 0 ≤ k / 2 ^ 53 * t := by positivity
  have hsmall : k / 2 ^ 53 * t ≤ t := by
    refine mul_le_of_le_one_left ht ?_
    rw [div_le_one (by norm_num)]
    linarith
  unfold IsNear at *
  obtain ⟨-, hhigh⟩ := abs_le.1 hnear
  calc |x.toRat - t| ≤ |x.toRat - w| + |w - t| := abs_sub_le _ _ _
    _ ≤ (1 / 2 ^ 53 * w + 1 * halfUnit) + (k / 2 ^ 53 * t + c * halfUnit) :=
        add_le_add hround hnear
    _ ≤ (k + 2) / 2 ^ 53 * t + (2 * c + 1) * halfUnit := by
        have hw : w ≤ 2 * t + c * halfUnit := by linarith
        linarith

/-! ## Steps that are rounded -/

lemma toRat_nonneg (h : x.negative = false) : 0 ≤ x.toRat := by
  rw [toRat_of_not_negative h]
  exact units_div_nonneg x

lemma isNear_ofNat {n : Nat} (h : (n : ℚ) < overflow) :
    (ofNat n).isFinite = true ∧ IsNear 1 0 (ofNat n).toRat n := by
  have hunits : (n : ℚ) * unitsPerOne = (n * unitsPerOne : Nat) / (1 : Nat) := by
    rw [Nat.cast_mul, Nat.cast_one, div_one]
  have hfinite : (ofNat n).isFinite = true := (isFinite_roundUnits_iff_lt Nat.one_pos hunits).2 h
  refine ⟨hfinite, ?_⟩
  rcases Nat.eq_zero_or_pos n with rfl | hpos
  · have hzero := toRat_ofNat (n := 0) (j := 0) (k := 0) (by decide) (by decide) (by decide)
    rw [Nat.zero_mul] at hzero
    rw [hzero]
    exact (IsNear.refl _).mono zero_le_one le_rfl le_rfl
  · have hnearest := nearest_roundUnits_signed Nat.one_pos hfinite (Nat.cast_nonneg n) hunits
    rw [signValue, if_neg (by decide), one_mul] at hnearest
    exact hnearest.isNear_of_one_le h (by exact_mod_cast hpos)

variable {y : Binary64}

/-- **The error of a product** of doubles without sign. -/
lemma isNear_mul (hx : x.isFinite = true) (hy : y.isFinite = true) (hxsign : x.negative = false)
    (hysign : y.negative = false) (h : (x * y).isFinite = true) (ha : IsNear k 0 x.toRat t)
    (hp : IsNear 1 0 y.toRat q) (hk : 0 ≤ k) (hk' : k ≤ 90) (ht : 0 ≤ t) (hq : 0 ≤ q) :
    IsNear (k + 4) 1 (x * y).toRat (t * q) := by
  have hnonneg := mul_nonneg (toRat_nonneg hxsign) (toRat_nonneg hysign)
  have hlt := (isFinite_mul_iff hx hy).1 h
  rw [abs_of_nonneg hnonneg] at hlt
  have hround := (nearest_mul hx hy h).isNear_of_isNear hlt hnonneg
    (ha.mul hp hk (by linarith) ht hq) (by linarith) (by linarith) le_rfl (mul_nonneg ht hq)
  exact hround.mono (by linarith) (by linarith) (mul_nonneg ht hq)

/-- **The error of a quotient** of doubles without sign, by two or more. -/
lemma isNear_div (hx : x.isFinite = true) (hy : y.isFinite = true) (hxsign : x.negative = false)
    (hysign : y.negative = false) (hpos : 0 < y.units) (h : (x / y).isFinite = true)
    (ha : IsNear k c x.toRat t) (hp : IsNear 1 0 y.toRat q) (hk : 0 ≤ k) (hk' : k ≤ 90)
    (hc : 0 ≤ c) (ht : 0 ≤ t) (hq : 2 ≤ q) :
    IsNear (k + 4) (2 * c + 1) (x / y).toRat (t / q) := by
  have hnonneg := div_nonneg (toRat_nonneg hxsign) (toRat_nonneg hysign)
  have hshare : 0 ≤ t / q := div_nonneg ht (by linarith)
  have hlt := (isFinite_div_iff hx hy hpos).1 h
  rw [abs_of_nonneg hnonneg] at hlt
  have hround := (nearest_div hx hy hpos h).isNear_of_isNear hlt hnonneg
    (ha.div hp hk (by linarith) hc ht hq) (by linarith) (by linarith) hc hshare
  exact hround.mono (by linarith) le_rfl hshare

end PagedTopK.Binary64
