import Mathlib.Tactic.Lemma
import Mathlib.Tactic.Ring
import PagedTopK.Binary64.Basic

set_option autoImplicit false

/-!
# Rounding to doubles

A fraction of units is rounded to a significand times a power of two. Everything is said in whole
numbers: `n / d` units are compared with the units of the double after multiplying by `d`.

## Main definitions

* `Binary64.Rounded` — a significand and a power of two for a fraction.

## Main results

* `Binary64.isFinite_roundUnits` — which fractions give a finite double.
* `Binary64.le_units_roundUnits` — how far the double is below the fraction.
* `Binary64.two_pow_le_units_roundUnits`, `Binary64.units_roundUnits_le_two_pow` — rounding does not
  take a fraction across a power of two.
* `Binary64.roundUnits_units` — doubles are rounded to themselves.
-/

namespace PagedTopK.Binary64

/-! ## The nearest whole number -/

lemma divideToEven_cases (n d : Nat) :
    (divideToEven n d = n / d ∧ 2 * (n % d) ≤ d) ∨
      (divideToEven n d = n / d + 1 ∧ d ≤ 2 * (n % d)) := by
  unfold divideToEven
  simp only
  split
  · exact .inl ⟨rfl, by omega⟩
  split
  · exact .inr ⟨rfl, by omega⟩
  split
  · exact .inl ⟨rfl, by omega⟩
  · exact .inr ⟨rfl, by omega⟩

/-- The nearest whole number is at most one half above the quotient. -/
lemma divideToEven_mul_le (n d : Nat) : 2 * (divideToEven n d * d) ≤ 2 * n + d := by
  have hn : n / d * d + n % d = n := Nat.div_add_mod' n d
  rcases divideToEven_cases n d with ⟨h, hr⟩ | ⟨h, hr⟩
  · rw [h]
    omega
  · rw [h, Nat.add_mul, Nat.one_mul]
    omega

/-- The nearest whole number is at most one half below the quotient. -/
lemma le_divideToEven_mul (n : Nat) {d : Nat} (hd : 0 < d) :
    2 * n ≤ 2 * (divideToEven n d * d) + d := by
  have hn : n / d * d + n % d = n := Nat.div_add_mod' n d
  have hlt : n % d < d := Nat.mod_lt n hd
  rcases divideToEven_cases n d with ⟨h, hr⟩ | ⟨h, hr⟩
  · rw [h]
    omega
  · rw [h, Nat.add_mul, Nat.one_mul]
    omega

/-- A whole number is nearest to itself. -/
lemma divideToEven_mul_self (q : Nat) {d : Nat} (hd : 0 < d) : divideToEven (q * d) d = q := by
  have hmod : q * d % d = 0 := Nat.mul_mod_left q d
  have hdiv : q * d / d = q := Nat.mul_div_cancel q hd
  simp only [divideToEven, hmod, hdiv]
  rw [if_pos (by omega)]

/-- Of two equally near whole numbers the even one is taken. -/
lemma divideToEven_mod_two {n d : Nat} (h : 2 * (n % d) = d) : divideToEven n d % 2 = 0 := by
  unfold divideToEven
  simp only [h, Nat.lt_irrefl, if_false, beq_iff_eq]
  split <;> omega

/-! ## Significands -/

/-- **A significand `q` and a power of two `s` for the fraction `n / d`.** The significand fills 53
bits unless the power is zero, and is at most one half away from the fraction. -/
structure Rounded (n d s q : Nat) : Prop where
  /-- The significand has at most 53 bits, or carries. -/
  le : q ≤ 2 ^ 53
  /-- The significand has 53 bits if it is scaled. -/
  full : 0 < s → 2 ^ 52 ≤ q
  /-- The fraction has 53 bits before the point if it is scaled. -/
  normal : 0 < s → 2 ^ 52 * (d * 2 ^ s) ≤ n
  /-- At most one half is added. -/
  above : 2 * (q * (d * 2 ^ s)) ≤ 2 * n + d * 2 ^ s
  /-- At most one half is taken away. -/
  below : 2 * n ≤ 2 * (q * (d * 2 ^ s)) + d * 2 ^ s

/-- The number of bits gives the power of two, and the nearest whole number is the significand. -/
lemma exists_rounded_divideToEven (negative : Bool) (n : Nat) {d : Nat} (hd : 0 < d) :
    ∃ s, Rounded n d s (divideToEven n (d * 2 ^ s)) ∧
      roundUnits negative n d =
        ofMagnitude negative (s * 2 ^ 52 + divideToEven n (d * 2 ^ s)) := by
  refine ⟨Nat.log2 (n / d) - 52, ?_, rfl⟩
  generalize hs : Nat.log2 (n / d) - 52 = s
  have hscaled : 0 < d * 2 ^ s := Nat.mul_pos hd (Nat.two_pow_pos s)
  have habove := divideToEven_mul_le n (d * 2 ^ s)
  have hbelow := le_divideToEven_mul n hscaled
  have hquotient : n / (d * 2 ^ s) = n / d / 2 ^ s := (Nat.div_div_eq_div_mul n d (2 ^ s)).symm
  have hlt : n / (d * 2 ^ s) < 2 ^ 53 := by
    have hpow : n / d < 2 ^ (53 + s) :=
      Nat.lt_of_lt_of_le Nat.lt_log2_self (Nat.pow_le_pow_right (by decide) (by omega))
    rw [hquotient, Nat.div_lt_iff_lt_mul (Nat.two_pow_pos s), ← Nat.pow_add]
    exact hpow
  have hnormal : 0 < s → 2 ^ 52 ≤ n / (d * 2 ^ s) := by
    intro hpos
    have hne : n / d ≠ 0 := by
      intro hzero
      rw [hzero] at hs
      have hlog : Nat.log2 0 = 0 := by decide
      omega
    have hpow : 2 ^ (52 + s) ≤ n / d := by
      have hself := Nat.log2_self_le hne
      rwa [show Nat.log2 (n / d) = 52 + s by omega] at hself
    rw [hquotient, Nat.le_div_iff_mul_le (Nat.two_pow_pos s), ← Nat.pow_add]
    exact hpow
  refine ⟨?_, fun hpos => ?_, fun hpos => ?_, habove, hbelow⟩
  · rcases divideToEven_cases n (d * 2 ^ s) with ⟨h, -⟩ | ⟨h, -⟩ <;> omega
  · have := hnormal hpos
    rcases divideToEven_cases n (d * 2 ^ s) with ⟨h, -⟩ | ⟨h, -⟩ <;> omega
  · exact (Nat.le_div_iff_mul_le hscaled).1 (hnormal hpos)

/-- Rounding finds a significand and a power of two. -/
lemma exists_rounded (negative : Bool) (n : Nat) {d : Nat} (hd : 0 < d) :
    ∃ s q, Rounded n d s q ∧
      roundUnits negative n d = ofMagnitude negative (s * 2 ^ 52 + q) := by
  obtain ⟨s, h, hround⟩ := exists_rounded_divideToEven negative n hd
  exact ⟨s, _, h, hround⟩

lemma infiniteMagnitude_eq : infiniteMagnitude = 2047 * 2 ^ 52 := rfl

lemma isNaN_of_isFinite {x : Binary64} (h : x.isFinite = true) : x.isNaN = false := by
  simp only [isFinite, isNaN, decide_eq_true_eq, decide_eq_false_iff_not] at *
  omega

lemma isFinite_ofMagnitude {negative : Bool} {m : Nat} :
    (ofMagnitude negative m).isFinite = true ↔ m < infiniteMagnitude := by
  unfold ofMagnitude
  split
  · next h => simp [isFinite, h]
  · next h => simp [isFinite, h]

lemma magnitude_ofMagnitude (negative : Bool) {m : Nat} (h : m < infiniteMagnitude) :
    (ofMagnitude negative m).magnitude = m := by
  rw [ofMagnitude, dif_pos h]

/-- The units of a significand and a power of two; a carry changes nothing. -/
lemma significand_mul_shift {s q : Nat} (hle : q ≤ 2 ^ 53) (hfull : 0 < s → 2 ^ 52 ≤ q) :
    significand (s * 2 ^ 52 + q) * 2 ^ shift (s * 2 ^ 52 + q) = q * 2 ^ s := by
  have hfield : Nat.pow 2 52 = 2 ^ 52 := rfl
  unfold significand shift
  rw [hfield]
  by_cases hsmall : q < 2 ^ 52
  · obtain rfl : s = 0 := by
      by_contra hne
      have := hfull (Nat.pos_of_ne_zero hne)
      omega
    rw [if_pos (by omega), show (0 * 2 ^ 52 + q) / 2 ^ 52 - 1 = 0 by omega, Nat.zero_mul,
      Nat.zero_add]
  · rw [if_neg (by omega)]
    by_cases hcarry : q = 2 ^ 53
    · subst hcarry
      rw [show (s * 2 ^ 52 + 2 ^ 53) / 2 ^ 52 - 1 = s + 1 by omega,
        show (s * 2 ^ 52 + 2 ^ 53) % 2 ^ 52 = 0 by omega, Nat.pow_succ]
      ring
    · rw [show (s * 2 ^ 52 + q) / 2 ^ 52 - 1 = s by omega,
        show 2 ^ 52 + (s * 2 ^ 52 + q) % 2 ^ 52 = q by omega]

/-- The greatest power of two by which a significand is scaled. -/
@[irreducible]
def topShift : Nat := 2045

/-- The distance between the greatest doubles, in units. -/
def topStep : Nat := 2 ^ topShift

lemma topShift_eq : topShift = 2045 := by
  unfold topShift
  rfl

lemma topStep_pos : 0 < topStep := Nat.two_pow_pos _

lemma two_pow_le_topStep {s : Nat} (h : s ≤ topShift) : 2 ^ s ≤ topStep :=
  Nat.pow_le_pow_right (by decide) h

lemma topStep_le_two_pow {s : Nat} (h : topShift < s) : 2 * topStep ≤ 2 ^ s := by
  rw [topStep, ← Nat.pow_succ']
  exact Nat.pow_le_pow_right (by decide) h

/-- **The units of a rounded fraction**, and the power of two by which it was scaled. -/
lemma exists_units_roundUnits {negative : Bool} {n d : Nat} (hd : 0 < d)
    (hfinite : (roundUnits negative n d).isFinite = true) :
    ∃ s q, Rounded n d s q ∧ s ≤ topShift ∧ (roundUnits negative n d).units = q * 2 ^ s := by
  obtain ⟨s, q, h, hround⟩ := exists_rounded negative n hd
  rw [hround, isFinite_ofMagnitude] at hfinite
  refine ⟨s, q, h, ?_, ?_⟩
  · by_contra hgreat
    have := h.full (by omega)
    have htop := topShift_eq
    rw [infiniteMagnitude_eq] at hfinite
    omega
  · rw [hround, units, magnitude_ofMagnitude negative hfinite]
    exact significand_mul_shift h.le h.full

/-! ## Bounds -/

/-- **A fraction nearer to the greatest double than to the next power of two** gives a finite
double. -/
theorem isFinite_roundUnits (negative : Bool) {n d : Nat} (hd : 0 < d)
    (h : 2 * n < (2 ^ 54 - 1) * topStep * d) : (roundUnits negative n d).isFinite = true := by
  obtain ⟨s, q, hr, hround⟩ := exists_rounded negative n hd
  rw [hround, isFinite_ofMagnitude, infiniteMagnitude_eq]
  have htop := topShift_eq
  have hle := hr.le
  have hpos : 0 < d * topStep := Nat.mul_pos hd topStep_pos
  rw [show (2 ^ 54 - 1) * topStep * d = (2 ^ 54 - 1) * (d * topStep) by ring] at h
  rcases Nat.lt_trichotomy s topShift with hs | rfl | hs
  · omega
  · have hcarry : q ≠ 2 ^ 53 := by
      rintro rfl
      have habove : 2 * (2 ^ 53 * (d * topStep)) ≤ 2 * n + d * topStep := hr.above
      omega
    omega
  · have hnormal := hr.normal (by omega)
    have hpow : 2 * (d * topStep) ≤ d * 2 ^ s := by
      have := Nat.mul_le_mul_left d (topStep_le_two_pow hs)
      rwa [show d * (2 * topStep) = 2 * (d * topStep) by ring] at this
    omega

/-- **A rounded fraction falls short of the fraction by at most half of the greatest step** between
doubles. -/
theorem le_units_roundUnits {negative : Bool} {n d : Nat} (hd : 0 < d)
    (hfinite : (roundUnits negative n d).isFinite = true) :
    2 * n ≤ (2 * (roundUnits negative n d).units + topStep) * d := by
  obtain ⟨s, q, h, hs, hunits⟩ := exists_units_roundUnits hd hfinite
  have hbelow := h.below
  have hpow : d * 2 ^ s ≤ d * topStep := Nat.mul_le_mul_left d (two_pow_le_topStep hs)
  rw [hunits, show (2 * (q * 2 ^ s) + topStep) * d = 2 * (q * (d * 2 ^ s)) + d * topStep by ring]
  omega

/-- **A fraction that is at least a power of two is rounded to at least that power.** -/
theorem two_pow_le_units_roundUnits {negative : Bool} {n d k : Nat} (hd : 0 < d)
    (hfinite : (roundUnits negative n d).isFinite = true) (h : 2 ^ k * d ≤ n) :
    2 ^ k ≤ (roundUnits negative n d).units := by
  obtain ⟨s, q, hr, -, hunits⟩ := exists_units_roundUnits hd hfinite
  rw [hunits]
  rcases Nat.lt_or_ge k s with hlt | hle
  · have hfull := hr.full (by omega)
    calc 2 ^ k ≤ 2 ^ s := Nat.pow_le_pow_right (by decide) hlt.le
      _ ≤ q * 2 ^ s := Nat.le_mul_of_pos_left _ (by omega)
  · obtain ⟨j, rfl⟩ := Nat.exists_eq_add_of_le hle
    have hbelow := hr.below
    have hscaled : 0 < d * 2 ^ s := Nat.mul_pos hd (Nat.two_pow_pos s)
    rw [show 2 ^ (s + j) * d = 2 ^ j * (d * 2 ^ s) by ring] at h
    have hle : 2 * 2 ^ j * (d * 2 ^ s) ≤ (2 * q + 1) * (d * 2 ^ s) := by
      rw [show (2 * q + 1) * (d * 2 ^ s) = 2 * (q * (d * 2 ^ s)) + d * 2 ^ s by ring,
        show 2 * 2 ^ j * (d * 2 ^ s) = 2 * (2 ^ j * (d * 2 ^ s)) by ring]
      omega
    have hpower : 2 ^ j ≤ q := by
      have := Nat.le_of_mul_le_mul_right hle hscaled
      omega
    rw [Nat.pow_add, Nat.mul_comm]
    exact Nat.mul_le_mul_right _ hpower

/-- **Rounding does not take a fraction above a power of two.** -/
theorem units_roundUnits_le_two_pow {negative : Bool} {n d k : Nat} (hd : 0 < d)
    (hfinite : (roundUnits negative n d).isFinite = true) (h : n ≤ 2 ^ k * d) :
    (roundUnits negative n d).units ≤ 2 ^ k := by
  obtain ⟨s, q, hr, -, hunits⟩ := exists_units_roundUnits hd hfinite
  rw [hunits]
  have hscaled : 0 < d * 2 ^ s := Nat.mul_pos hd (Nat.two_pow_pos s)
  rcases Nat.lt_or_ge k s with hlt | hle
  · -- A scaled significand would have too many bits.
    have hnormal := hr.normal (by omega)
    have hpower : 2 ^ k * d ≤ d * 2 ^ s := by
      rw [Nat.mul_comm]
      exact Nat.mul_le_mul_left d (Nat.pow_le_pow_right (by decide) hlt.le)
    omega
  · obtain ⟨j, rfl⟩ := Nat.exists_eq_add_of_le hle
    have habove := hr.above
    rw [show 2 ^ (s + j) * d = 2 ^ j * (d * 2 ^ s) by ring] at h
    have hle : 2 * q * (d * 2 ^ s) ≤ (2 * 2 ^ j + 1) * (d * 2 ^ s) := by
      rw [show (2 * 2 ^ j + 1) * (d * 2 ^ s) = 2 * (2 ^ j * (d * 2 ^ s)) + d * 2 ^ s by ring,
        Nat.mul_assoc]
      omega
    have hpower : q ≤ 2 ^ j := by
      have := Nat.le_of_mul_le_mul_right hle hscaled
      omega
    rw [Nat.pow_add, Nat.mul_comm (2 ^ s)]
    exact Nat.mul_le_mul_right _ hpower

/-! ## Exactness -/

/-- **Doubles are rounded to themselves.** -/
theorem roundUnits_units {x : Binary64} (hx : x.isFinite = true) {d : Nat} (hd : 0 < d) :
    roundUnits x.negative (x.units * d) d = x := by
  obtain ⟨negative, m, hm⟩ := x
  have hlt : m < infiniteMagnitude := by simpa [isFinite] using hx
  have hfield : Nat.pow 2 52 = 2 ^ 52 := rfl
  have hunits : units ⟨negative, m, hm⟩ = significand m * 2 ^ shift m := rfl
  -- The power of two is found again from the number of bits.
  have hlog : Nat.log2 (significand m * 2 ^ shift m) - 52 = shift m := by
    unfold significand shift
    rw [hfield]
    by_cases hsmall : m < 2 ^ 52
    · rw [if_pos hsmall, Nat.div_eq_of_lt hsmall, Nat.zero_sub, Nat.pow_zero, Nat.mul_one]
      rcases Nat.eq_zero_or_pos m with rfl | hpos
      · decide
      · have := (Nat.log2_lt (Nat.ne_of_gt hpos)).2 hsmall
        omega
    · rw [if_neg hsmall]
      have hpos : 0 < 2 ^ (m / 2 ^ 52 - 1) := Nat.two_pow_pos _
      have hlow : 2 ^ (52 + (m / 2 ^ 52 - 1)) ≤
          (2 ^ 52 + m % 2 ^ 52) * 2 ^ (m / 2 ^ 52 - 1) := by
        rw [Nat.pow_add]
        exact Nat.mul_le_mul_right _ (by omega)
      have hhigh : (2 ^ 52 + m % 2 ^ 52) * 2 ^ (m / 2 ^ 52 - 1) <
          2 ^ (52 + (m / 2 ^ 52 - 1) + 1) := by
        rw [show 52 + (m / 2 ^ 52 - 1) + 1 = 53 + (m / 2 ^ 52 - 1) by omega, Nat.pow_add]
        exact Nat.mul_lt_mul_of_pos_right (by omega) hpos
      have hne : (2 ^ 52 + m % 2 ^ 52) * 2 ^ (m / 2 ^ 52 - 1) ≠ 0 :=
        Nat.ne_of_gt (Nat.lt_of_lt_of_le (Nat.two_pow_pos _) hlow)
      rw [(Nat.log2_eq_iff hne).2 ⟨hlow, hhigh⟩]
      omega
  have hmagnitude : shift m * 2 ^ 52 + significand m = m := by
    unfold significand shift
    rw [hfield]
    split
    · omega
    · omega
  have hquotient : divideToEven (significand m * 2 ^ shift m * d) (d * 2 ^ shift m) =
      significand m := by
    rw [show significand m * 2 ^ shift m * d = significand m * (d * 2 ^ shift m) by ring]
    exact divideToEven_mul_self _ (Nat.mul_pos hd (Nat.two_pow_pos _))
  have hround : roundUnits negative (significand m * 2 ^ shift m * d) d =
      ofMagnitude negative m := by
    show ofMagnitude negative ((Nat.log2 (significand m * 2 ^ shift m * d / d) - 52) * 2 ^ 52 +
      divideToEven (significand m * 2 ^ shift m * d)
        (d * 2 ^ (Nat.log2 (significand m * 2 ^ shift m * d / d) - 52))) = _
    rw [Nat.mul_div_cancel _ hd, hlog, hquotient, hmagnitude]
  rw [hunits]
  exact hround.trans (dif_pos hlt)

end PagedTopK.Binary64
