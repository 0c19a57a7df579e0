import Mathlib.Order.Monotone.Basic
import PagedTopK.Proofs.Binary64.Shortest

set_option autoImplicit false

/-!
# The nearest double

Reading a decimal gives the double nearest to it, as long as the decimal is nearer to a finite
double than to the power of two beyond them. Distances are compared in units of the least positive
double, without signs: a double of the other sign is never nearer than zero.

## Main definitions

* `Binary64.toRat` — the number that a finite double stands for.
* `Binary64.Nearest` — whether a finite double is the one nearest to a number.
* `Binary64.overflow` — from where on numbers are rounded to an infinity.

## Main results

* `Binary64.isFinite_roundUnits_iff_lt` — which numbers are rounded to finite doubles.
* `Binary64.nearest_ofDecimal` — decimals below the overflow are read as the nearest double.
* `Binary64.isFinite_ofDecimal_iff` — all others are read as an infinity.
-/

namespace PagedTopK.Binary64

/-- **The number that a finite double stands for.** -/
def toRat (x : Binary64) : ℚ := x.signedUnits / unitsPerOne

/-- **Whether a finite double is the one nearest to a number.** Of two equally near ones it is the
one with the even significand. -/
structure Nearest (x : Binary64) (v : ℚ) : Prop where
  /-- It is finite. -/
  isFinite : x.isFinite = true
  /-- No other finite double is nearer. -/
  le : ∀ y : Binary64, y.isFinite = true → |v - x.toRat| ≤ |v - y.toRat|
  /-- If another one is as near, the last bit of the significand is zero. -/
  even : ∀ y : Binary64, y.isFinite = true → |v - y.toRat| = |v - x.toRat| →
    y.toRat ≠ x.toRat → x.magnitude % 2 = 0

/-- **The least number that is rounded to an infinity**: as near to the greatest finite double as to
the power of two beyond it. -/
def overflow : ℚ := 2 ^ 1024 - 2 ^ 970

/-! ## The units of finite doubles -/

lemma exists_magnitude_eq (m : Nat) :
    ∃ s q, m = s * 2 ^ 52 + q ∧ q < 2 ^ 53 ∧ (0 < s → 2 ^ 52 ≤ q) := by
  rcases Nat.lt_or_ge m (2 ^ 52) with h | h
  · exact ⟨0, m, by omega, by omega, fun h => absurd h (Nat.lt_irrefl 0)⟩
  · exact ⟨m / 2 ^ 52 - 1, 2 ^ 52 + m % 2 ^ 52, by omega, by omega, fun _ => by omega⟩

/-- The units of a double are a significand of 53 bits times a power of two. -/
lemma exists_units_eq (x : Binary64) :
    ∃ s q, x.units = q * 2 ^ s ∧ q < 2 ^ 53 ∧ (0 < s → 2 ^ 52 ≤ q) := by
  obtain ⟨s, q, hm, hlt, hfull⟩ := exists_magnitude_eq x.magnitude
  refine ⟨s, q, ?_, hlt, hfull⟩
  rw [units, hm]
  exact significand_mul_shift (Nat.le_of_lt hlt) hfull

/-- Units grow with the magnitude. -/
lemma strictMono_units : StrictMono fun m => significand m * Nat.pow 2 (shift m) := by
  refine strictMono_nat_of_lt_succ fun m => ?_
  obtain ⟨s, q, hm, hlt, hfull⟩ := exists_magnitude_eq m
  have hnow : significand m * Nat.pow 2 (shift m) = q * 2 ^ s := by
    rw [hm]
    exact significand_mul_shift (Nat.le_of_lt hlt) hfull
  have hnext : significand (m + 1) * Nat.pow 2 (shift (m + 1)) = (q + 1) * 2 ^ s := by
    rw [hm, Nat.add_assoc]
    exact significand_mul_shift hlt fun hs => Nat.le_succ_of_le (hfull hs)
  simp only [hnow, hnext]
  exact Nat.mul_lt_mul_of_pos_right (Nat.lt_succ_self q) (Nat.two_pow_pos s)

lemma units_lt_units_iff {x y : Binary64} : x.units < y.units ↔ x.magnitude < y.magnitude :=
  strictMono_units.lt_iff_lt

lemma units_eq_units_iff {x y : Binary64} : x.units = y.units ↔ x.magnitude = y.magnitude :=
  strictMono_units.injective.eq_iff

lemma isFinite_signedZero (negative : Bool) : (signedZero negative).isFinite = true := by
  have hlt : 0 < infiniteMagnitude := by decide
  exact decide_eq_true hlt

lemma units_signedZero (negative : Bool) : (signedZero negative).units = 0 := by
  have hsmall : (0 : Nat) < Nat.pow 2 52 := Nat.two_pow_pos 52
  unfold units significand signedZero
  rw [if_pos hsmall, Nat.zero_mul]

/-! ## Distances on a grid -/

section Grid

variable {w D : ℚ} {q : Nat}

/-- Other points of a grid are at least one step away. -/
lemma le_abs_sub_of_ne (hD : 0 ≤ D) {k : Nat} (hne : k ≠ q) : D ≤ |(k : ℚ) * D - q * D| := by
  have hone : (1 : ℚ) ≤ |(k : ℚ) - q| := by
    have hint : (1 : ℤ) ≤ |(k : ℤ) - q| := Int.one_le_abs (by omega)
    exact_mod_cast hint
  rw [← sub_mul, abs_mul, abs_of_nonneg hD]
  exact le_mul_of_one_le_left hD hone

/-- A point of a grid that is at most half a step away is as near as any other. -/
lemma abs_sub_le_of_half (h : 2 * |w - q * D| ≤ D) (k : Nat) : |w - q * D| ≤ |w - k * D| := by
  have hD : 0 ≤ D := le_trans (by positivity) h
  rcases eq_or_ne k q with rfl | hne
  · exact le_rfl
  · have hstep := le_abs_sub_of_ne hD hne
    have htriangle := abs_sub_le (k * D) w (q * D)
    rw [abs_sub_comm (k * D) w] at htriangle
    linarith

/-- If another point is as near, both are half a step away. -/
lemma half_of_abs_sub_eq (h : 2 * |w - q * D| ≤ D) {k : Nat} (hne : k ≠ q)
    (heq : |w - k * D| = |w - q * D|) : 2 * |w - q * D| = D := by
  have hD : 0 ≤ D := le_trans (by positivity) h
  have hstep := le_abs_sub_of_ne hD hne
  have htriangle := abs_sub_le (k * D) w (q * D)
  rw [abs_sub_comm (k * D) w, heq] at htriangle
  linarith

end Grid

/-! ## Rounding is nearest -/

section Rounded

variable {n d s q : Nat}

lemma Rounded.two_mul_abs_sub_le (h : Rounded n d s q) (hd : 0 < d) :
    2 * |(n : ℚ) / d - q * 2 ^ s| ≤ 2 ^ s := by
  have hpos : (0 : ℚ) < d := by exact_mod_cast hd
  have habove : (2 * (q * (d * 2 ^ s)) : ℚ) ≤ 2 * n + d * 2 ^ s := by exact_mod_cast h.above
  have hbelow : (2 * n : ℚ) ≤ 2 * (q * (d * 2 ^ s)) + d * 2 ^ s := by exact_mod_cast h.below
  have hn : (n : ℚ) = n / d * d := (div_mul_cancel₀ _ hpos.ne').symm
  generalize (n : ℚ) / d = w at hn
  rw [hn] at habove hbelow
  have hup : 2 * (q * 2 ^ s) ≤ 2 * w + 2 ^ s := le_of_mul_le_mul_right (by linarith) hpos
  have hdown : 2 * w ≤ 2 * (q * 2 ^ s) + 2 ^ s := le_of_mul_le_mul_right (by linarith) hpos
  rw [← abs_two, ← abs_mul, abs_two, abs_le]
  constructor <;> linarith

lemma Rounded.le_quotient (h : Rounded n d s q) (hd : 0 < d) (hs : 0 < s) :
    2 ^ 52 * 2 ^ s ≤ (n : ℚ) / d := by
  have hpos : (0 : ℚ) < d := by exact_mod_cast hd
  rw [le_div_iff₀ hpos]
  have hnormal : (2 ^ 52 * (d * 2 ^ s) : ℚ) ≤ n := by exact_mod_cast h.normal hs
  linarith

/-- **The units of a rounded fraction are as near to it as those of any double**, and half a step
away if those of another one are as near.

**Proof sketch.** A double whose last bit counts as much or more lies on the same grid. One whose
last bit counts less lies below the least significand of 53 bits, which is on the grid and not above
the fraction. -/
lemma Rounded.nearest (h : Rounded n d s q) (hd : 0 < d) (y : Binary64) :
    |(n : ℚ) / d - q * 2 ^ s| ≤ |(n : ℚ) / d - y.units| ∧
      (|(n : ℚ) / d - y.units| = |(n : ℚ) / d - q * 2 ^ s| → (y.units : ℚ) ≠ q * 2 ^ s →
        2 * |(n : ℚ) / d - q * 2 ^ s| = 2 ^ s) := by
  have hhalf := h.two_mul_abs_sub_le hd
  obtain ⟨s', q', hunits, hlt, -⟩ := exists_units_eq y
  rcases Nat.lt_or_ge s' s with hfine | hcoarse
  · have hleast := h.le_quotient hd (Nat.zero_lt_of_lt hfine)
    have hbelow : (y.units : ℚ) < 2 ^ 52 * 2 ^ s := by
      have hnat : y.units < 2 ^ 52 * 2 ^ s := by
        calc y.units < 2 ^ 53 * 2 ^ s' := by
              rw [hunits]
              exact Nat.mul_lt_mul_of_pos_right hlt (Nat.two_pow_pos _)
          _ = 2 ^ 52 * 2 ^ (s' + 1) := by rw [Nat.pow_succ 2 s']; ring
          _ ≤ 2 ^ 52 * 2 ^ s := Nat.mul_le_mul_left _ (Nat.pow_le_pow_right (by decide) hfine)
      exact_mod_cast hnat
    have hgrid := abs_sub_le_of_half hhalf (2 ^ 52)
    rw [Nat.cast_pow, Nat.cast_ofNat, abs_of_nonneg (sub_nonneg.2 hleast)] at hgrid
    have hstrict : |(n : ℚ) / d - q * 2 ^ s| < |(n : ℚ) / d - y.units| := by
      rw [abs_of_nonneg (sub_nonneg.2 (hbelow.le.trans hleast))]
      linarith
    exact ⟨hstrict.le, fun heq => absurd heq hstrict.ne'⟩
  · have hgrid : (y.units : ℚ) = (q' * 2 ^ (s' - s) : Nat) * 2 ^ s := by
      have hnat : y.units = q' * 2 ^ (s' - s) * 2 ^ s := by
        rw [hunits, Nat.mul_assoc, ← Nat.pow_add, Nat.sub_add_cancel hcoarse]
      exact_mod_cast hnat
    rw [hgrid]
    refine ⟨abs_sub_le_of_half hhalf _, fun heq hne => half_of_abs_sub_eq hhalf ?_ heq⟩
    rintro hsame
    exact hne (by rw [hsame])

/-- A fraction half a step away is rounded to an even significand. -/
lemma divideToEven_mod_two_of_half (hd : 0 < d)
    (h : 2 * |(n : ℚ) / d - divideToEven n (d * 2 ^ s) * 2 ^ s| = 2 ^ s) :
    divideToEven n (d * 2 ^ s) % 2 = 0 := by
  have hpos : (0 : ℚ) < d := by exact_mod_cast hd
  have hscaled : 2 * |(n : ℚ) - divideToEven n (d * 2 ^ s) * (d * 2 ^ s : Nat)| =
      (d * 2 ^ s : Nat) := by
    have hn : (n : ℚ) = n / d * d := (div_mul_cancel₀ _ hpos.ne').symm
    have hfactor : (n : ℚ) - divideToEven n (d * 2 ^ s) * (d * 2 ^ s : Nat) =
        (n / d - divideToEven n (d * 2 ^ s) * 2 ^ s) * d := by
      rw [sub_mul, ← hn]
      push_cast
      ring
    rw [hfactor, abs_mul, abs_of_pos hpos, ← mul_assoc, h]
    push_cast
    ring
  have hD : 0 < d * 2 ^ s := Nat.mul_pos hd (Nat.two_pow_pos s)
  generalize d * 2 ^ s = D at hscaled hD ⊢
  have hint : 2 * |(n : ℤ) - divideToEven n D * D| = D := by exact_mod_cast hscaled
  refine divideToEven_mod_two ?_
  have hsplit : n / D * D + n % D = n := Nat.div_add_mod' n D
  have hsplitInt : ((n / D : Nat) : ℤ) * D + (n % D : Nat) = n := by exact_mod_cast hsplit
  rcases divideToEven_cases n D with ⟨hq, hr⟩ | ⟨hq, hr⟩
  · rw [hq, ← hsplitInt, add_sub_cancel_left, abs_of_nonneg (by positivity)] at hint
    omega
  · have hlt : n % D < D := Nat.mod_lt n hD
    rw [hq, ← hsplitInt, Nat.cast_add, Nat.cast_one, add_mul, one_mul, add_sub_add_left_eq_sub,
      abs_of_nonpos (by omega)] at hint
    omega

/-- **Rounding to a finite double** finds a significand and a power of two; where another double is
as near, the significand is even. -/
lemma exists_rounded_of_isFinite {negative : Bool} (hd : 0 < d)
    (hfinite : (roundUnits negative n d).isFinite = true) :
    ∃ s q, Rounded n d s q ∧ s ≤ topShift ∧ (s = topShift → q < 2 ^ 53) ∧
      (roundUnits negative n d).units = q * 2 ^ s ∧
      (2 * |(n : ℚ) / d - q * 2 ^ s| = 2 ^ s →
        q % 2 = 0 ∧ (roundUnits negative n d).magnitude % 2 = 0) := by
  obtain ⟨s, h, hround⟩ := exists_rounded_divideToEven negative n hd
  have hlt := hfinite
  rw [hround, isFinite_ofMagnitude, infiniteMagnitude_eq] at hlt
  have hmagnitude : (roundUnits negative n d).magnitude =
      s * 2 ^ 52 + divideToEven n (d * 2 ^ s) := by
    rw [hround]
    exact magnitude_ofMagnitude negative hlt
  have htop := topShift_eq
  refine ⟨s, _, h, ?_, fun hs => by omega, ?_, fun hhalf => ?_⟩
  · by_contra hgreat
    have := h.full (by omega)
    omega
  · rw [units, hmagnitude]
    exact significand_mul_shift h.le h.full
  · have heven := divideToEven_mod_two_of_half hd hhalf
    exact ⟨heven, by omega⟩

/-- **Which fractions give a finite double.** -/
theorem isFinite_roundUnits_iff {negative : Bool} (hd : 0 < d) :
    (roundUnits negative n d).isFinite = true ↔ 2 * n < (2 ^ 54 - 1) * topStep * d := by
  refine ⟨fun hfinite => ?_, isFinite_roundUnits negative hd⟩
  by_contra hgreat
  obtain ⟨s, q, h, hs, hq, hunits, heven⟩ := exists_rounded_of_isFinite hd hfinite
  have hhalf := h.two_mul_abs_sub_le hd
  have hpos : (0 : ℚ) < d := by exact_mod_cast hd
  have hbound : (q * 2 ^ s + topStep : ℚ) ≤ 2 ^ 53 * topStep := by
    have hnat : q * 2 ^ s + topStep ≤ 2 ^ 53 * topStep := by
      have hle := units_le hfinite
      rw [hunits] at hle
      omega
    exact_mod_cast hnat
  have hquotient : 2 ^ 54 * (topStep : ℚ) ≤ 2 * (n / d) + topStep := by
    have hnat : 2 ^ 54 * (topStep * d) ≤ 2 * n + topStep * d := by
      rw [Nat.mul_assoc] at hgreat
      omega
    have hcast : (2 ^ 54 * (topStep * d) : ℚ) ≤ 2 * n + topStep * d := by exact_mod_cast hnat
    rw [← div_mul_cancel₀ (n : ℚ) hpos.ne'] at hcast
    exact le_of_mul_le_mul_right (by linarith) hpos
  have hstep : (2 ^ s : ℚ) ≤ topStep := by exact_mod_cast two_pow_le_topStep hs
  have hnonneg : (0 : ℚ) ≤ n / d - q * 2 ^ s := by
    have := hstep.trans' (by positivity : (0 : ℚ) ≤ 2 ^ s)
    linarith
  rw [abs_of_nonneg hnonneg] at hhalf heven
  -- The fraction is exactly half a step above the greatest double, whose significand is odd.
  have htop : (2 ^ s : ℚ) = topStep := by linarith
  have hexact : ((q + 1 : Nat) : ℚ) * 2 ^ s = (2 ^ 53 : Nat) * 2 ^ s := by
    push_cast
    linarith
  have hodd : q + 1 = 2 ^ 53 := by
    have hcast := mul_right_cancel₀ (by positivity : (2 : ℚ) ^ s ≠ 0) hexact
    exact_mod_cast hcast
  have hzero := (heven (by linarith)).1
  omega

end Rounded

/-! ## Signs -/

lemma negative_ofMagnitude (negative : Bool) (m : Nat) :
    (ofMagnitude negative m).negative = negative := by
  unfold ofMagnitude
  split <;> rfl

lemma units_div_nonneg (x : Binary64) : (0 : ℚ) ≤ x.units / unitsPerOne :=
  div_nonneg (Nat.cast_nonneg _) (Nat.cast_nonneg _)

lemma toRat_of_negative {x : Binary64} (h : x.negative = true) :
    x.toRat = -(x.units / unitsPerOne) := by
  rw [toRat, signedUnits, if_pos h, Int.cast_neg, neg_div, Int.cast_natCast]

lemma toRat_of_not_negative {x : Binary64} (h : x.negative = false) :
    x.toRat = x.units / unitsPerOne := by
  rw [toRat, signedUnits, h, if_neg (by decide), Int.cast_natCast]

lemma abs_toRat (x : Binary64) : |x.toRat| = x.units / unitsPerOne := by
  have hnonneg := units_div_nonneg x
  cases h : x.negative with
  | true => rw [toRat_of_negative h, abs_neg, abs_of_nonneg hnonneg]
  | false => rw [toRat_of_not_negative h, abs_of_nonneg hnonneg]

/-- The zeros are the doubles that stand for zero. -/
lemma toRat_eq_zero_iff {x : Binary64} : x.toRat = 0 ↔ x.magnitude = 0 := by
  have hzero : x.units = 0 ↔ x.magnitude = 0 := by
    rw [← units_signedZero false]
    exact units_eq_units_iff
  rw [← abs_eq_zero, abs_toRat, div_eq_zero_iff, Nat.cast_eq_zero, hzero, or_iff_left]
  exact_mod_cast unitsPerOne_pos.ne'

/-- **Whether a double has the sign of a number**; both zeros have the sign of zero. -/
def HasSign (x : Binary64) (v : ℚ) : Prop :=
  if x.negative = true then v ≤ 0 else 0 ≤ v

lemma abs_sub_toRat {x : Binary64} {v : ℚ} (h : x.HasSign v) :
    |v - x.toRat| = |(|v| - |x.toRat|)| := by
  have hnonneg := units_div_nonneg x
  rw [abs_toRat]
  cases hsign : x.negative with
  | true =>
    rw [HasSign, if_pos hsign] at h
    rw [toRat_of_negative hsign, abs_of_nonpos h, ← abs_neg]
    congr 1
    ring
  | false =>
    rw [HasSign, hsign, if_neg (by decide)] at h
    rw [toRat_of_not_negative hsign, abs_of_nonneg h]

/-- **Nearest without signs.** It is enough to compare absolute values, because zero is nearer than
any double of the other sign. -/
lemma nearest_of_abs {x : Binary64} {v : ℚ} (hfinite : x.isFinite = true) (hsign : x.HasSign v)
    (hle : ∀ y : Binary64, |(|v| - |x.toRat|)| ≤ |(|v| - |y.toRat|)|)
    (heven : ∀ y : Binary64, |(|v| - |y.toRat|)| = |(|v| - |x.toRat|)| →
      |y.toRat| ≠ |x.toRat| → x.magnitude % 2 = 0) : Nearest x v := by
  have hreverse : ∀ y : Binary64, |(|v| - |y.toRat|)| ≤ |v - y.toRat| := fun y =>
    abs_abs_sub_abs_le v y.toRat
  refine ⟨hfinite, fun y _ => ?_, fun y _ heq hne => ?_⟩
  · rw [abs_sub_toRat hsign]
    exact (hle y).trans (hreverse y)
  · have hsame : |(|v| - |y.toRat|)| = |(|v| - |x.toRat|)| := by
      refine le_antisymm ?_ (hle y)
      rw [← abs_sub_toRat hsign, ← heq]
      exact hreverse y
    by_cases habs : |y.toRat| = |x.toRat|
    · -- The other double is the negative of this one, so that the number is zero.
      have hneg : y.toRat = -x.toRat := (abs_eq_abs.1 habs).resolve_left hne
      rw [hneg, sub_neg_eq_add] at heq
      have hzero : x.toRat = 0 := by
        rcases abs_eq_abs.1 heq with h | h
        · linarith
        · have hv : v = 0 := by linarith
          have hnone := hle zero
          rw [hv, abs_zero, abs_toRat zero, show zero = signedZero false from rfl,
            units_signedZero, Nat.cast_zero, zero_div, sub_zero, abs_zero, zero_sub, abs_neg,
            abs_abs] at hnone
          exact abs_eq_zero.1 (le_antisymm hnone (abs_nonneg _))
      rw [hneg, hzero, neg_zero] at hne
      exact absurd rfl hne
    · exact heven y hsame habs

/-! ## Decimals -/

lemma unitsPerOne_cast_pos : (0 : ℚ) < unitsPerOne := by exact_mod_cast unitsPerOne_pos

/-- Distances in units. -/
lemma abs_sub_eq_div {v w : ℚ} (h : |v| * unitsPerOne = w) (x : Binary64) :
    |(|v| - |x.toRat|)| = |w - x.units| / unitsPerOne := by
  have hpos := unitsPerOne_cast_pos
  rw [abs_toRat, ← h, ← abs_of_pos hpos, ← abs_div, abs_of_pos hpos, sub_div,
    mul_div_cancel_right₀ _ hpos.ne']

/-- **A rounded fraction is nearest** to the number of that many units with the same sign. -/
theorem nearest_roundUnits {negative : Bool} {n d : Nat} (hd : 0 < d)
    (hfinite : (roundUnits negative n d).isFinite = true) {v : ℚ}
    (hv : |v| * unitsPerOne = n / d) (hsign : (roundUnits negative n d).HasSign v) :
    Nearest (roundUnits negative n d) v := by
  obtain ⟨s, q, h, -, -, hunits, heven⟩ := exists_rounded_of_isFinite hd hfinite
  have hpos := unitsPerOne_cast_pos
  have hcast : ((roundUnits negative n d).units : ℚ) = q * 2 ^ s := by exact_mod_cast hunits
  refine nearest_of_abs hfinite hsign (fun y => ?_) fun y heq hne => ?_
  · rw [abs_sub_eq_div hv, abs_sub_eq_div hv, hcast]
    exact div_le_div_of_nonneg_right (h.nearest hd y).1 hpos.le
  · rw [abs_sub_eq_div hv, abs_sub_eq_div hv, hcast, div_left_inj' hpos.ne'] at heq
    rw [abs_toRat, abs_toRat, hcast, Ne, div_left_inj' hpos.ne'] at hne
    exact (heven ((h.nearest hd y).2 heq hne)).2

/-- Below one half zero is nearer than any positive whole number. -/
lemma abs_sub_zero_lt {w : ℚ} (hnonneg : 0 ≤ w) (hsmall : 2 * w < 1) {k : Nat} (hk : k ≠ 0) :
    |w - (0 : Nat)| < |w - k| := by
  have hone : (1 : ℚ) ≤ k := by exact_mod_cast Nat.one_le_iff_ne_zero.2 hk
  rw [Nat.cast_zero, sub_zero, abs_of_nonneg hnonneg, abs_sub_comm,
    abs_of_nonneg (by linarith : 0 ≤ (k : ℚ) - w)]
  linarith

/-- **Numbers below half of the least positive double** are nearest to zero. -/
lemma nearest_signedZero {negative : Bool} {v : ℚ} (hsmall : 2 * (|v| * unitsPerOne) < 1)
    (hsign : (signedZero negative).HasSign v) : Nearest (signedZero negative) v := by
  have hpos := unitsPerOne_cast_pos
  have hnonneg : 0 ≤ |v| * unitsPerOne := mul_nonneg (abs_nonneg v) hpos.le
  refine nearest_of_abs (isFinite_signedZero negative) hsign (fun y => ?_) fun y heq hne => ?_
  · rw [abs_sub_eq_div rfl, abs_sub_eq_div rfl, units_signedZero]
    refine div_le_div_of_nonneg_right ?_ hpos.le
    by_cases hy : y.units = 0
    · rw [hy]
    · exact (abs_sub_zero_lt hnonneg hsmall hy).le
  · rw [abs_sub_eq_div rfl, abs_sub_eq_div rfl, units_signedZero, div_left_inj' hpos.ne'] at heq
    have hy : y.units ≠ 0 := by
      intro hy
      rw [abs_toRat, abs_toRat, hy, units_signedZero] at hne
      exact hne rfl
    exact absurd heq (abs_sub_zero_lt hnonneg hsmall hy).ne'

/-- The power of ten of the first digit bounds a decimal. -/
lemma value_bounds {d : Decimal} (hc : d.coefficient ≠ 0) :
    (10 : ℚ) ^ d.leadingExponent ≤ d.value ∧ d.value < 10 ^ (d.leadingExponent + 1) := by
  have hten : (10 : ℚ) ≠ 0 := by norm_num
  have hpos : (0 : ℚ) < 10 ^ d.exponent := zpow_pos (by norm_num) _
  have hlength : 0 < Digits.length d.coefficient := Nat.length_toDigits_pos
  have hupper : d.coefficient < 10 ^ Digits.length d.coefficient :=
    (Digits.length_le_iff hlength).1 (Nat.le_refl _)
  have hlower : 10 ^ (Digits.length d.coefficient - 1) ≤ d.coefficient := by
    rcases Nat.eq_zero_or_pos (Digits.length d.coefficient - 1) with hone | hmore
    · rw [hone]
      exact Nat.pos_of_ne_zero hc
    · by_contra hless
      have := (Digits.length_le_iff hmore).2 (Nat.lt_of_not_le hless)
      omega
  rw [Decimal.value]
  constructor
  · have hsplit : d.leadingExponent =
        ((Digits.length d.coefficient - 1 : Nat) : Int) + d.exponent := by
      rw [Decimal.leadingExponent]
      omega
    rw [hsplit, zpow_add₀ hten, zpow_natCast]
    exact mul_le_mul_of_nonneg_right (by exact_mod_cast hlower) hpos.le
  · have hsplit : d.leadingExponent + 1 = (Digits.length d.coefficient : Int) + d.exponent := by
      rw [Decimal.leadingExponent]
      omega
    rw [hsplit, zpow_add₀ hten, zpow_natCast]
    exact mul_lt_mul_of_pos_right (by exact_mod_cast hupper) hpos

lemma two_mul_overflow : 2 * overflow = (2 ^ 54 - 1) * greatestStep := by
  have hstep : (greatestStep : ℚ) = 2 ^ 971 := by
    unfold greatestStep
    rw [Nat.pow_eq, Nat.cast_pow, Nat.cast_ofNat]
  have hhigh : (2 : ℚ) * 2 ^ 1024 = 2 ^ 54 * 2 ^ 971 := by rw [← pow_succ', ← pow_add]
  have hlow : (2 : ℚ) * 2 ^ 970 = 2 ^ 971 := by rw [← pow_succ']
  rw [overflow, hstep, mul_sub, hhigh, hlow]
  ring

/-- Decimals from `10 ^ 400` on are beyond the overflow. -/
lemma overflow_le : overflow ≤ 10 ^ 400 := by
  have hbase : (2 : ℚ) ^ 128 ≤ 10 ^ 50 := by norm_num
  calc overflow ≤ 2 ^ 1024 := sub_le_self _ (pow_nonneg (by norm_num) _)
    _ = (2 ^ 128) ^ 8 := by rw [← pow_mul]
    _ ≤ (10 ^ 50) ^ 8 := pow_le_pow_left₀ (by positivity) hbase 8
    _ = 10 ^ 400 := by rw [← pow_mul]

/-- Decimals below `10 ^ (-400)` are below half of the least positive double. -/
lemma two_mul_unitsPerOne_le : 2 * (unitsPerOne : ℚ) ≤ 10 ^ 400 := by
  have hbase : (2 : ℚ) ^ 43 ≤ 10 ^ 16 := by norm_num
  have hunits : (unitsPerOne : ℚ) = 2 ^ 1074 := by
    unfold unitsPerOne
    rw [Nat.pow_eq, Nat.cast_pow, Nat.cast_ofNat]
  calc 2 * (unitsPerOne : ℚ) = (2 ^ 43) ^ 25 := by rw [hunits, ← pow_succ', ← pow_mul]
    _ ≤ (10 ^ 16) ^ 25 := pow_le_pow_left₀ (by positivity) hbase 25
    _ = 10 ^ 400 := by rw [← pow_mul]

lemma one_lt_overflow : 1 < overflow := by
  have hstep : (1 : ℚ) ≤ greatestStep := by exact_mod_cast greatestStep_pos
  have htwo := two_mul_overflow
  linarith

lemma value_nonneg (d : Decimal) : 0 ≤ d.value :=
  mul_nonneg (Nat.cast_nonneg _) (zpow_nonneg (by norm_num) _)

/-- **Which numbers are rounded to finite doubles**: those below the overflow. -/
theorem isFinite_roundUnits_iff_lt {negative : Bool} {n d : Nat} (hd : 0 < d) {w : ℚ}
    (hw : w * unitsPerOne = n / d) :
    (roundUnits negative n d).isFinite = true ↔ w < overflow := by
  have hpos : (0 : ℚ) < d * unitsPerOne := mul_pos (by exact_mod_cast hd) unitsPerOne_cast_pos
  have hn : (n : ℚ) = w * (d * unitsPerOne) := by
    have hcancel : (n : ℚ) / d * d = n := div_mul_cancel₀ _ (by exact_mod_cast hd.ne')
    rw [← hcancel, ← hw]
    ring
  have hstep : (topStep : ℚ) = greatestStep * unitsPerOne := by rw [topStep_eq, Nat.cast_mul]
  have hlimit : 2 * (overflow * (d * unitsPerOne)) =
      (2 ^ 54 - 1) * (greatestStep * (d * unitsPerOne)) := by
    rw [← mul_assoc, two_mul_overflow, mul_assoc]
  rw [isFinite_roundUnits_iff hd, Nat.mul_assoc]
  constructor <;> intro hlt
  · have hnat : 2 * n + topStep * d < 2 ^ 54 * (topStep * d) := by omega
    have hcast : (2 * n + topStep * d : ℚ) < 2 ^ 54 * (topStep * d) := by exact_mod_cast hnat
    rw [hn, hstep] at hcast
    exact lt_of_mul_lt_mul_right (by linarith) hpos.le
  · have hscaled := mul_lt_mul_of_pos_right hlt hpos
    have hcast : (2 * n + topStep * d : ℚ) < 2 ^ 54 * (topStep * d) := by
      rw [hn, hstep]
      linarith
    have hnat : 2 * n + topStep * d < 2 ^ 54 * (topStep * d) := by exact_mod_cast hcast
    omega

/-- **The four ways in which a decimal is read**: as zero because it is zero or too small, as an
infinity because it is too great, or rounded as a fraction of units. -/
lemma ofDecimal_cases (negative : Bool) (d : Decimal) :
    (ofDecimal negative d = signedZero negative ∧ 2 * (d.value * unitsPerOne) < 1) ∨
      (ofDecimal negative d = infinity negative ∧ overflow ≤ d.value) ∨
      ∃ n m : Nat, 0 < m ∧ ofDecimal negative d = roundUnits negative n m ∧
        (n : ℚ) = d.value * unitsPerOne * m := by
  by_cases hc : d.coefficient = 0
  · refine .inl ⟨by rw [ofDecimal, if_pos hc], ?_⟩
    rw [Decimal.value, hc, Nat.cast_zero, zero_mul, zero_mul, mul_zero]
    exact one_pos
  obtain ⟨hlower, hupper⟩ := value_bounds hc
  by_cases hhigh : 400 < d.leadingExponent
  · refine .inr (.inl ⟨by rw [ofDecimal, if_neg hc, if_pos hhigh], ?_⟩)
    calc overflow ≤ 10 ^ 400 := overflow_le
      _ = (10 : ℚ) ^ (400 : ℤ) := (zpow_natCast _ _).symm
      _ ≤ 10 ^ d.leadingExponent := zpow_le_zpow_right₀ (by norm_num) hhigh.le
      _ ≤ d.value := hlower
  by_cases hlow : d.leadingExponent < -400
  · refine .inl ⟨by rw [ofDecimal, if_neg hc, if_neg hhigh, if_pos hlow], ?_⟩
    have hpos := unitsPerOne_cast_pos
    have hvalue : d.value < (10 ^ 400)⁻¹ := by
      calc d.value < 10 ^ (d.leadingExponent + 1) := hupper
        _ ≤ (10 : ℚ) ^ (-400 : ℤ) := zpow_le_zpow_right₀ (by norm_num) (by omega)
        _ = (10 ^ 400)⁻¹ := by rw [zpow_neg]; rfl
    calc 2 * (d.value * unitsPerOne) = d.value * (2 * unitsPerOne) := by ring
      _ < (10 ^ 400)⁻¹ * (2 * unitsPerOne) := mul_lt_mul_of_pos_right hvalue (mul_pos two_pos hpos)
      _ ≤ (10 ^ 400)⁻¹ * 10 ^ 400 :=
        mul_le_mul_of_nonneg_left two_mul_unitsPerOne_le (by positivity)
      _ = 1 := inv_mul_cancel₀ (by positivity)
  · exact .inr (.inr (exists_ofDecimal_eq_roundUnits negative hc (by omega) (by omega)))

lemma negative_ofDecimal (negative : Bool) (d : Decimal) :
    (ofDecimal negative d).negative = negative := by
  rcases ofDecimal_cases negative d with ⟨h, -⟩ | ⟨h, -⟩ | ⟨n, m, -, h, -⟩
  · rw [h]
    rfl
  · rw [h]
    rfl
  · rw [h]
    exact negative_ofMagnitude _ _

/-- **Which decimals are read as finite doubles**: those below the overflow. -/
theorem isFinite_ofDecimal_iff (negative : Bool) (d : Decimal) :
    (ofDecimal negative d).isFinite = true ↔ d.value < overflow := by
  rcases ofDecimal_cases negative d with ⟨h, hsmall⟩ | ⟨h, hgreat⟩ | ⟨n, m, hm, h, hvalue⟩
  · rw [h]
    refine iff_of_true (isFinite_signedZero negative) ?_
    have hle : d.value ≤ d.value * unitsPerOne :=
      le_mul_of_one_le_right (value_nonneg d) (by exact_mod_cast unitsPerOne_pos)
    have hone := one_lt_overflow
    linarith
  · rw [h]
    refine iff_of_false ?_ (not_lt.2 hgreat)
    unfold isFinite infinity
    simp
  · have hpos : (0 : ℚ) < m := by exact_mod_cast hm
    rw [h]
    exact isFinite_roundUnits_iff_lt hm (by rw [hvalue, mul_div_cancel_right₀ _ hpos.ne'])

/-- **Decimals below the overflow are read as the nearest double.** -/
theorem nearest_ofDecimal {negative : Bool} {d : Decimal} (hd : d.value < overflow) {v : ℚ}
    (hv : |v| = d.value) (hsign : (ofDecimal negative d).HasSign v) :
    Nearest (ofDecimal negative d) v := by
  have hunits := unitsPerOne_cast_pos
  have hfinite := (isFinite_ofDecimal_iff negative d).2 hd
  rcases ofDecimal_cases negative d with ⟨h, hsmall⟩ | ⟨h, hgreat⟩ | ⟨n, m, hm, h, hvalue⟩
  · rw [h] at hsign ⊢
    exact nearest_signedZero (by rwa [hv]) hsign
  · exact absurd hd (not_lt.2 hgreat)
  · have hpos : (0 : ℚ) < m := by exact_mod_cast hm
    rw [h] at hsign hfinite ⊢
    refine nearest_roundUnits hm hfinite ?_ hsign
    rw [hv, eq_div_iff hpos.ne', hvalue]

/-- Finite doubles are below the overflow. -/
lemma abs_toRat_lt_overflow {x : Binary64} (h : x.isFinite = true) : |x.toRat| < overflow := by
  have hunits : (x.units : ℚ) / unitsPerOne * unitsPerOne = (x.units * 1 : Nat) / (1 : Nat) := by
    rw [div_mul_cancel₀ _ unitsPerOne_cast_pos.ne', Nat.mul_one, Nat.cast_one, div_one]
  have hround := roundUnits_units h Nat.one_pos
  rw [abs_toRat]
  exact (isFinite_roundUnits_iff_lt Nat.one_pos hunits).1 (hround.symm ▸ h)

end PagedTopK.Binary64
