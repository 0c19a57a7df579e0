import Mathlib.Tactic.FieldSimp
import PagedTopK.Proofs.Binary64.Nearest

set_option autoImplicit false

/-!
# Arithmetic of doubles

Sums, products and quotients of finite doubles are exact numbers that are rounded. A sum is infinite
only if the exact one overflows, and once a sum of several numbers has left the finite doubles it
never returns.

## Main definitions

* `Binary64.StaysInRange` — whether no step of a sum overflows.
* `Binary64.IsAtMost` — whether a double is finite and at most a power of two.

## Main results

* `Binary64.isFinite_add_iff`, `Binary64.isFinite_mul_iff`, `Binary64.isFinite_div_iff` — which
  results are finite.
* `Binary64.isFinite_foldl_add_iff` — which sums of several doubles are finite.
* `Binary64.isFinite_div` — a quotient by one or more is finite.
* `Binary64.nearest_mul`, `Binary64.nearest_div` — products and quotients are nearest.
* `Binary64.isAtMost_add`, `Binary64.isAtMost_mul`, `Binary64.isAtMost_div` — powers of two that
  bound what is computed.
-/

namespace PagedTopK.Binary64

variable {x y : Binary64}

/-! ## Finite operands -/

lemma negative_roundUnits (negative : Bool) (n d : Nat) :
    (roundUnits negative n d).negative = negative :=
  negative_ofMagnitude _ _

lemma add_of_isFinite (hx : x.isFinite = true) (hy : y.isFinite = true) :
    x + y = if x.signedUnits + y.signedUnits = 0 then signedZero (x.negative && y.negative)
      else roundUnits (x.signedUnits + y.signedUnits < 0) (x.signedUnits + y.signedUnits).natAbs
        1 := by
  show add x y = _
  simp [add, isNaN_of_isFinite hx, isNaN_of_isFinite hy, hx, hy]

lemma mul_of_isFinite (hx : x.isFinite = true) (hy : y.isFinite = true) :
    x * y = roundUnits (x.negative != y.negative) (x.units * y.units) unitsPerOne := by
  show mul x y = _
  simp [mul, isNaN_of_isFinite hx, isNaN_of_isFinite hy, hx, hy]

lemma negative_mul (hx : x.isFinite = true) (hy : y.isFinite = true) :
    (x * y).negative = (x.negative != y.negative) := by
  rw [mul_of_isFinite hx hy, negative_roundUnits]

lemma isZero_of_units_pos (h : 0 < x.units) : x.isZero = false := by
  by_contra hne
  rw [Bool.not_eq_false, isZero, beq_iff_eq] at hne
  have hunits : x.units = (signedZero false).units := units_eq_units_iff.2 hne
  rw [units_signedZero] at hunits
  omega

lemma div_of_isFinite (hx : x.isFinite = true) (hy : y.isFinite = true) (hpos : 0 < y.units) :
    x / y = roundUnits (x.negative != y.negative) (x.units * unitsPerOne) y.units := by
  show div x y = _
  simp [div, isNaN_of_isFinite hx, isNaN_of_isFinite hy, hx, hy, isZero_of_units_pos hpos]

lemma negative_div (hx : x.isFinite = true) (hy : y.isFinite = true) (hpos : 0 < y.units) :
    (x / y).negative = (x.negative != y.negative) := by
  rw [div_of_isFinite hx hy hpos, negative_roundUnits]

/-! ## Sums -/

lemma toRat_add_toRat (x y : Binary64) :
    x.toRat + y.toRat = (x.signedUnits + y.signedUnits : Int) / unitsPerOne := by
  rw [toRat, toRat, ← add_div, Int.cast_add]

/-- **A sum of two finite doubles is finite** exactly if the exact sum is below the overflow. -/
theorem isFinite_add_iff (hx : x.isFinite = true) (hy : y.isFinite = true) :
    (x + y).isFinite = true ↔ |x.toRat + y.toRat| < overflow := by
  have hunits := unitsPerOne_cast_pos
  rw [add_of_isFinite hx hy, toRat_add_toRat]
  generalize x.signedUnits + y.signedUnits = total
  split
  · next hzero =>
    refine iff_of_true (isFinite_signedZero _) ?_
    rw [hzero, Int.cast_zero, zero_div, abs_zero]
    exact lt_trans zero_lt_one one_lt_overflow
  · refine isFinite_roundUnits_iff_lt Nat.one_pos ?_
    rw [abs_div, abs_of_pos hunits, div_mul_cancel₀ _ hunits.ne', Nat.cast_natAbs, Int.cast_abs,
      Nat.cast_one, div_one]

/-- What is added to an infinity or a NaN does not bring it back. -/
lemma isFinite_of_isFinite_add (h : (x + y).isFinite = true) : x.isFinite = true := by
  by_contra hx
  have hadd : x + y = nan ∨ x + y = x := by
    show add x y = nan ∨ add x y = x
    unfold add
    split
    · exact .inl rfl
    · rw [if_pos (by simpa using hx)]
      split
      · exact .inl rfl
      · exact .inr rfl
  rcases hadd with hnan | hself
  · rw [hnan] at h
    exact absurd h (by decide)
  · rw [hself] at h
    exact hx h

lemma isFinite_of_isFinite_foldl {ys : List Binary64}
    (h : (ys.foldl (· + ·) x).isFinite = true) : x.isFinite = true := by
  induction ys generalizing x with
  | nil => exact h
  | cons y rest ih => exact isFinite_of_isFinite_add (ih h)

/-- **Whether no step of a sum overflows** that starts from a number. -/
def StaysInRange (x : Binary64) : List Binary64 → Prop
  | [] => True
  | y :: rest => |x.toRat + y.toRat| < overflow ∧ StaysInRange (x + y) rest

/-- **A sum of several finite doubles is finite** exactly if no step of it overflows. -/
theorem isFinite_foldl_add_iff {ys : List Binary64} (hx : x.isFinite = true)
    (hys : ∀ y ∈ ys, y.isFinite = true) :
    (ys.foldl (· + ·) x).isFinite = true ↔ StaysInRange x ys := by
  induction ys generalizing x with
  | nil => exact iff_of_true hx trivial
  | cons y rest ih =>
    obtain ⟨hy, hrest⟩ := List.forall_mem_cons.1 hys
    have hstep := isFinite_add_iff hx hy
    constructor
    · intro h
      have hsum := isFinite_of_isFinite_foldl (x := x + y) h
      exact ⟨hstep.1 hsum, (ih hsum hrest).1 h⟩
    · rintro ⟨hlt, hlater⟩
      exact (ih (hstep.2 hlt) hrest).2 hlater

/-! ## Quotients -/

/-- **A finite double divided by one that is at least one** is finite. -/
lemma isFinite_div (hx : x.isFinite = true) (hy : y.isFinite = true)
    (hone : unitsPerOne ≤ y.units) : (x / y).isFinite = true := by
  have hpos := unitsPerOne_pos
  rw [div_of_isFinite hx hy (by omega)]
  refine isFinite_roundUnits _ (by omega) ?_
  calc 2 * (x.units * unitsPerOne)
      ≤ 2 * ((2 ^ 53 - 1) * topStep * unitsPerOne) :=
        Nat.mul_le_mul_left 2 (Nat.mul_le_mul_right _ (units_le hx))
    _ = (2 ^ 54 - 2) * (topStep * unitsPerOne) := by ring
    _ < (2 ^ 54 - 1) * (topStep * unitsPerOne) :=
        Nat.mul_lt_mul_of_pos_right (by decide) (Nat.mul_pos topStep_pos hpos)
    _ = (2 ^ 54 - 1) * topStep * unitsPerOne := by ring
    _ ≤ (2 ^ 54 - 1) * topStep * y.units := Nat.mul_le_mul_left _ hone

/-! ## Bounds -/

lemma unitsPerOne_eq : unitsPerOne = 2 ^ 1074 := by
  rw [unitsPerOne, Nat.pow_eq]

/-- **Whether a double is finite and at most a power of two.** -/
structure IsAtMost (x : Binary64) (k : Nat) : Prop where
  /-- It is finite. -/
  isFinite : x.isFinite = true
  /-- It has at most the units of that power. -/
  units_le : x.units ≤ 2 ^ k * unitsPerOne

variable {j k : Nat}

/-- A fraction of units that is at most a power of two is rounded to such a double. -/
lemma isAtMost_roundUnits {negative : Bool} {n d : Nat} (hd : 0 < d) (hk : k ≤ 900)
    (h : n ≤ 2 ^ k * unitsPerOne * d) : (roundUnits negative n d).IsAtMost k := by
  rw [unitsPerOne_eq, ← Nat.pow_add] at h
  have hfinite : (roundUnits negative n d).isFinite = true := by
    refine isFinite_roundUnits negative hd ?_
    have htop : 2 ^ (k + 1074) ≤ topStep := two_pow_le_topStep (by rw [topShift_eq]; omega)
    have hscaled := Nat.mul_le_mul_right d htop
    have hpos : 0 < topStep * d := Nat.mul_pos topStep_pos hd
    rw [Nat.mul_assoc]
    omega
  refine ⟨hfinite, ?_⟩
  rw [unitsPerOne_eq, ← Nat.pow_add]
  exact units_roundUnits_le_two_pow hd hfinite h

lemma negative_ofNat (n : Nat) : (ofNat n).negative = false := negative_roundUnits _ _ _

lemma isAtMost_ofNat {n : Nat} (hk : k ≤ 900) (h : n ≤ 2 ^ k) : (ofNat n).IsAtMost k := by
  refine isAtMost_roundUnits Nat.one_pos hk ?_
  rw [Nat.mul_one]
  exact Nat.mul_le_mul_right _ h

lemma isAtMost_ofInt {i : Int} (hk : k ≤ 900) (h : i.natAbs ≤ 2 ^ k) : (ofInt i).IsAtMost k := by
  refine isAtMost_roundUnits Nat.one_pos hk ?_
  rw [Nat.mul_one]
  exact Nat.mul_le_mul_right _ h

/-- A number that is one or more is rounded to such a double. -/
lemma unitsPerOne_le_units_ofNat {n : Nat} (hfinite : (ofNat n).isFinite = true) (h : 0 < n) :
    unitsPerOne ≤ (ofNat n).units := by
  rw [unitsPerOne_eq]
  refine two_pow_le_units_roundUnits Nat.one_pos hfinite ?_
  rw [Nat.mul_one, ← unitsPerOne_eq]
  exact Nat.le_mul_of_pos_left _ h

lemma isAtMost_add (hk : k < 900) (hx : x.IsAtMost k) (hy : y.IsAtMost k) :
    (x + y).IsAtMost (k + 1) := by
  have hsigned : ∀ z : Binary64, z.signedUnits.natAbs = z.units := by
    intro z
    unfold signedUnits
    split <;> omega
  rw [add_of_isFinite hx.isFinite hy.isFinite]
  split
  · refine ⟨isFinite_signedZero _, ?_⟩
    rw [units_signedZero]
    exact Nat.zero_le _
  · refine isAtMost_roundUnits Nat.one_pos hk ?_
    have hsum := Int.natAbs_add_le x.signedUnits y.signedUnits
    have hxle := hx.units_le
    have hyle := hy.units_le
    rw [hsigned, hsigned] at hsum
    rw [Nat.mul_one, Nat.pow_succ, Nat.mul_right_comm]
    omega

lemma isAtMost_mul (hk : j + k ≤ 900) (hx : x.IsAtMost j) (hy : y.IsAtMost k) :
    (x * y).IsAtMost (j + k) := by
  rw [mul_of_isFinite hx.isFinite hy.isFinite]
  refine isAtMost_roundUnits unitsPerOne_pos hk ?_
  calc x.units * y.units ≤ 2 ^ j * unitsPerOne * (2 ^ k * unitsPerOne) :=
        Nat.mul_le_mul hx.units_le hy.units_le
    _ = 2 ^ (j + k) * unitsPerOne * unitsPerOne := by ring

lemma isAtMost_div (hk : k ≤ 900) (hx : x.IsAtMost k) (hy : y.isFinite = true)
    (hone : unitsPerOne ≤ y.units) : (x / y).IsAtMost k := by
  have hpos := unitsPerOne_pos
  rw [div_of_isFinite hx.isFinite hy (by omega)]
  refine isAtMost_roundUnits (by omega) hk ?_
  exact Nat.mul_le_mul hx.units_le hone

/-! ## Nearest results -/

/-- The sign of a double as a number. -/
def signValue (negative : Bool) : ℚ := if negative then -1 else 1

lemma abs_signValue (negative : Bool) : |signValue negative| = 1 := by
  cases negative <;> norm_num [signValue]

lemma signValue_bne (a b : Bool) : signValue (a != b) = signValue a * signValue b := by
  cases a <;> cases b <;> norm_num [signValue]

lemma toRat_eq_signValue_mul (x : Binary64) : x.toRat = signValue x.negative * |x.toRat| := by
  have hnonneg := units_div_nonneg x
  rw [abs_toRat]
  cases h : x.negative with
  | true => rw [toRat_of_negative h, signValue, if_pos rfl, neg_one_mul]
  | false => rw [toRat_of_not_negative h, signValue, if_neg (by decide), one_mul]

/-- What is rounded with a sign is nearest to the number with that sign. -/
lemma nearest_roundUnits_signed {negative : Bool} {n d : Nat} (hd : 0 < d)
    (hfinite : (roundUnits negative n d).isFinite = true) {w : ℚ} (hw : 0 ≤ w)
    (hvalue : w * unitsPerOne = n / d) :
    Nearest (roundUnits negative n d) (signValue negative * w) := by
  have hsign := negative_roundUnits negative n d
  refine nearest_roundUnits hd hfinite ?_ ?_
  · rw [abs_mul, abs_signValue, one_mul, abs_of_nonneg hw, hvalue]
  · generalize roundUnits negative n d = z at hsign ⊢
    rw [HasSign, signValue, hsign]
    cases negative <;> simp [hw]

/-- The units of a product, before they are rounded. -/
lemma abs_toRat_mul_units (x y : Binary64) :
    |x.toRat| * |y.toRat| * unitsPerOne = (x.units * y.units : Nat) / unitsPerOne := by
  have hunits := unitsPerOne_cast_pos
  rw [abs_toRat, abs_toRat, Nat.cast_mul]
  generalize (unitsPerOne : ℚ) = one at hunits
  field_simp

/-- The units of a quotient, before they are rounded. -/
lemma abs_toRat_div_units (x : Binary64) (hpos : 0 < y.units) :
    |x.toRat| / |y.toRat| * unitsPerOne = (x.units * unitsPerOne : Nat) / y.units := by
  have hunits := unitsPerOne_cast_pos
  have hdivisor : (0 : ℚ) < y.units := by exact_mod_cast hpos
  rw [abs_toRat, abs_toRat, Nat.cast_mul]
  generalize (unitsPerOne : ℚ) = one at hunits
  field_simp

/-- **A product of two finite doubles is finite** exactly if the exact product is below the
overflow. -/
theorem isFinite_mul_iff (hx : x.isFinite = true) (hy : y.isFinite = true) :
    (x * y).isFinite = true ↔ |x.toRat * y.toRat| < overflow := by
  rw [mul_of_isFinite hx hy, abs_mul]
  exact isFinite_roundUnits_iff_lt unitsPerOne_pos (abs_toRat_mul_units x y)

/-- **A quotient of two finite doubles is finite** exactly if the exact quotient is below the
overflow. -/
theorem isFinite_div_iff (hx : x.isFinite = true) (hy : y.isFinite = true) (hpos : 0 < y.units) :
    (x / y).isFinite = true ↔ |x.toRat / y.toRat| < overflow := by
  rw [div_of_isFinite hx hy hpos, abs_div]
  exact isFinite_roundUnits_iff_lt hpos (abs_toRat_div_units x hpos)

/-- **A product is nearest to the exact one.** -/
theorem nearest_mul (hx : x.isFinite = true) (hy : y.isFinite = true)
    (h : (x * y).isFinite = true) : Nearest (x * y) (x.toRat * y.toRat) := by
  have hproduct : x.toRat * y.toRat =
      signValue (x.negative != y.negative) * (|x.toRat| * |y.toRat|) := by
    rw [signValue_bne, mul_mul_mul_comm, ← toRat_eq_signValue_mul, ← toRat_eq_signValue_mul]
  rw [mul_of_isFinite hx hy] at h ⊢
  rw [hproduct]
  exact nearest_roundUnits_signed unitsPerOne_pos h (mul_nonneg (abs_nonneg _) (abs_nonneg _))
    (abs_toRat_mul_units x y)

/-- **A quotient is nearest to the exact one.** -/
theorem nearest_div (hx : x.isFinite = true) (hy : y.isFinite = true) (hpos : 0 < y.units)
    (h : (x / y).isFinite = true) : Nearest (x / y) (x.toRat / y.toRat) := by
  have hquotient : x.toRat / y.toRat =
      signValue (x.negative != y.negative) * (|x.toRat| / |y.toRat|) := by
    nth_rewrite 1 [toRat_eq_signValue_mul x, toRat_eq_signValue_mul y]
    rw [signValue_bne]
    cases x.negative <;> cases y.negative <;> simp [signValue, neg_div, div_neg]
  rw [div_of_isFinite hx hy hpos] at h ⊢
  rw [hquotient]
  exact nearest_roundUnits_signed hpos h (div_nonneg (abs_nonneg _) (abs_nonneg _))
    (abs_toRat_div_units x hpos)

/-! ## Exact numbers -/

/-- A number of at most 53 bits that is scaled by a power of two is not rounded. -/
lemma units_roundUnits_of_lt {negative : Bool} {n j : Nat} (hn : n < 2 ^ 53)
    (hfinite : (roundUnits negative (n * 2 ^ j) 1).isFinite = true) :
    (roundUnits negative (n * 2 ^ j) 1).units = n * 2 ^ j := by
  obtain ⟨s, q, hr, -, hunits⟩ := exists_units_roundUnits Nat.one_pos hfinite
  have habove := hr.above
  have hbelow := hr.below
  rw [Nat.one_mul] at habove hbelow
  have hle : s ≤ j := by
    by_contra hlt
    have hnormal := hr.normal (by omega)
    have hpow : 2 ^ (j + 1) ≤ 2 ^ s := Nat.pow_le_pow_right (by decide) (by omega)
    have hscaled := Nat.mul_lt_mul_of_pos_right hn (Nat.two_pow_pos j)
    rw [Nat.pow_succ] at hpow
    omega
  obtain ⟨i, rfl⟩ := Nat.exists_eq_add_of_le hle
  rw [hunits, show n * 2 ^ (s + i) = n * 2 ^ i * 2 ^ s by ring] at *
  have hpos := Nat.two_pow_pos s
  have hup : 2 * q * 2 ^ s ≤ (2 * (n * 2 ^ i) + 1) * 2 ^ s := by
    rw [Nat.add_mul, Nat.mul_assoc 2, Nat.mul_assoc 2]
    omega
  have hdown : 2 * (n * 2 ^ i) * 2 ^ s ≤ (2 * q + 1) * 2 ^ s := by
    rw [Nat.add_mul, Nat.mul_assoc 2, Nat.mul_assoc 2]
    omega
  have hupper := Nat.le_of_mul_le_mul_right hup hpos
  have hlower := Nat.le_of_mul_le_mul_right hdown hpos
  rw [show q = n * 2 ^ i by omega]

/-- **Whole numbers of at most 53 bits are doubles**, and so are those scaled by a power of two. -/
lemma toRat_ofNat {n j k : Nat} (hn : n < 2 ^ 53) (hk : k ≤ 900) (h : n * 2 ^ j ≤ 2 ^ k) :
    (ofNat (n * 2 ^ j)).toRat = (n * 2 ^ j : Nat) := by
  have hunits := unitsPerOne_cast_pos
  have hfinite := (isAtMost_ofNat hk h).isFinite
  have hscaled : n * 2 ^ j * unitsPerOne = n * 2 ^ (j + 1074) := by
    rw [unitsPerOne_eq, Nat.mul_assoc, ← Nat.pow_add]
  have hexact : (ofNat (n * 2 ^ j)).units = n * 2 ^ j * unitsPerOne := by
    rw [ofNat, hscaled] at hfinite ⊢
    exact units_roundUnits_of_lt hn hfinite
  rw [toRat_of_not_negative (negative_ofNat _), hexact, Nat.cast_mul _ unitsPerOne,
    mul_div_cancel_right₀ _ hunits.ne']

end PagedTopK.Binary64
