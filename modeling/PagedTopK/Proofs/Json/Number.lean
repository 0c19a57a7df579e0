import PagedTopK.Proofs.Binary64.Error
import PagedTopK.Proofs.Json.Numeral

set_option autoImplicit false

/-!
# What numerals write

An integer of 64 bits is read back from its digits. A numeral with fraction or exponent is read in
two steps that both round up at most by one part in `2 ^ 53`, so it is a double unless it lies next
to the greatest one.

## Main definitions

* `Json.Numeral.ofInt` — the numeral of an integer.
* `Json.Numeral.value` — the number that a numeral stands for, without its sign.

## Main results

* `Json.number?_ofInt` — the numeral of an integer is read as that integer.
* `Json.exists_double?` — a numeral that is not too great is read as some double.
-/

namespace PagedTopK.Json

open Binary64 (greatestStep overflow unitsPerOne)

/-! ## Digits that fit in 64 bits -/

/-- What is absorbed is the number that the digits write, as far as they are taken. -/
lemma exists_absorb (n : Nat) (cs : List Char) :
    ∃ taken, cs = taken ++ (absorb n cs).2 ∧ (absorb n cs).1 = Nat.ofDigitChars 10 taken n := by
  induction cs generalizing n with
  | nil => exact ⟨[], rfl, by simp [absorb]⟩
  | cons c rest ih =>
    unfold absorb
    split
    · obtain ⟨taken, hrest, hvalue⟩ := ih (10 * n + Digits.digitValue c)
      refine ⟨c :: taken, by rw [List.cons_append, ← hrest], ?_⟩
      rw [hvalue, Nat.ofDigitChars_cons]
      rfl
    · exact ⟨[], rfl, by simp⟩

/-- What has been absorbed fits. -/
lemma absorb_lt {n : Nat} (h : n < Digits.word64) (cs : List Char) :
    (absorb n cs).1 < Digits.word64 := by
  induction cs generalizing n with
  | nil => exact h
  | cons c rest ih =>
    unfold absorb
    split
    · next hc => exact ih hc
    · exact h

/-- What stops the absorbing is a digit that would not fit. -/
lemma word64_le_of_absorb {n : Nat} {cs rest : List Char} {c : Char}
    (h : (absorb n cs).2 = c :: rest) :
    Digits.word64 ≤ 10 * (absorb n cs).1 + Digits.digitValue c := by
  induction cs generalizing n with
  | nil => cases h
  | cons d ds ih =>
    unfold absorb at h ⊢
    split at h
    · next hfits =>
      rw [if_pos hfits]
      exact ih h
    · next hfull =>
      rw [if_neg hfull]
      cases h
      exact Nat.not_lt.1 hfull

/-- Digits that fit are all taken. -/
lemma absorb_of_lt {n : Nat} {cs : List Char} (h : Nat.ofDigitChars 10 cs n < Digits.word64) :
    absorb n cs = (Nat.ofDigitChars 10 cs n, []) := by
  induction cs generalizing n with
  | nil => simp [absorb]
  | cons c rest ih =>
    rw [Nat.ofDigitChars_cons] at h ⊢
    have hle : 10 * n + Digits.digitValue c < Digits.word64 := by
      have hgrow : Nat.ofDigitChars 10 rest (10 * n + Digits.digitValue c) =
          10 ^ rest.length * (10 * n + Digits.digitValue c) + Nat.ofDigitChars 10 rest 0 :=
        Nat.ofDigitChars_eq_ofDigitChars_zero
      have hpow : 0 < 10 ^ rest.length := Nat.pow_pos (by decide)
      have := Nat.le_mul_of_pos_left (10 * n + Digits.digitValue c) hpow
      have h : Nat.ofDigitChars 10 rest (10 * n + Digits.digitValue c) < Digits.word64 := h
      omega
    rw [absorb, if_pos hle]
    exact ih h

/-! ## Integers -/

/-- **The numeral of an integer.** -/
def Numeral.ofInt (i : Int) : Numeral :=
  ⟨decide (i < 0), Digits.ofNat i.natAbs, [], false, false, []⟩

lemma wellFormed_ofInt (i : Int) : (Numeral.ofInt i).WellFormed where
  whole := by
    rcases Nat.eq_zero_or_pos i.natAbs with hzero | hpos
    · left
      show Digits.ofNat i.natAbs = ['0']
      rw [hzero]
      rfl
    · exact .inr (Digits.exists_cons_ofNat hpos)
  fraction := List.forall_mem_nil _
  exponent := List.forall_mem_nil _
  scaled := fun h => by cases h
  unscaled := fun _ => ⟨rfl, rfl⟩

lemma text_ofInt (i : Int) (plus : Bool) :
    (Numeral.ofInt i).text plus = (Digits.intText i).toList := by
  unfold Numeral.ofInt Numeral.text Digits.intText Digits.text
  by_cases h : i < 0 <;> simp [h]

/-- **The numeral of an integer of 64 bits is read as that integer.** -/
theorem number?_ofInt {i : Int} (hlow : -2 ^ 63 ≤ i) (hhigh : i < 2 ^ 64) :
    (Numeral.ofInt i).number? = some (.integer i) := by
  have hword : Digits.word64 = 2 ^ 64 := rfl
  have hvalue : Nat.ofDigitChars 10 (Digits.ofNat i.natAbs) 0 = i.natAbs := Digits.value_ofNat _
  have habsorb : absorb 0 (Digits.ofNat i.natAbs) = (i.natAbs, []) := by
    rw [absorb_of_lt (by omega), hvalue]
  have hinteger : (Numeral.ofInt i).integer? = some i := by
    have hpow : Nat.pow 2 63 = 2 ^ 63 := rfl
    unfold Numeral.integer? Numeral.ofInt
    simp only [and_self, if_true, habsorb]
    by_cases hneg : i < 0
    · rw [if_neg (by simp [hneg]), if_pos (by omega)]
      congr 1
      omega
    · rw [if_pos (by simp [hneg])]
      congr 1
      omega
  rw [Numeral.number?, hinteger]

/-! ## Doubles -/

/-- The power of ten that a numeral writes as its exponent. -/
def Numeral.power (n : Numeral) : Int :=
  if n.exponentNegative then -(Digits.value n.exponent : Int) else Digits.value n.exponent

/-- **The number that a numeral stands for**, without its sign. -/
def Numeral.value (n : Numeral) : ℚ :=
  Digits.value (n.whole ++ n.fraction) * 10 ^ (n.power - n.fraction.length)

/-- The bound below which all numerals are read as doubles: some steps below the greatest one. -/
def greatestSafe : ℚ := (2 ^ 53 - 7 / 2) * greatestStep

/-- This bound is below the overflow by more than what two roundings and a product add. -/
lemma lt_overflow_of_le_greatestSafe {t : ℚ} (h : t ≤ greatestSafe) :
    t * (1 + 3 / 2 ^ 53) < overflow := by
  have hstep : (1 : ℚ) ≤ greatestStep := by exact_mod_cast Binary64.greatestStep_pos
  have htwo := Binary64.two_mul_overflow
  unfold greatestSafe at h
  linarith

/-- The powers of ten in the table are rounded. -/
lemma powerOfTen_eq_ofNat {k : Nat} (h : k ≤ 308) : powerOfTen k = Binary64.ofNat (10 ^ k) := by
  have hleading : (⟨1, k⟩ : Decimal).leadingExponent = k := by
    have hlength : Digits.length 1 = 1 := rfl
    show (k : Int) + Digits.length 1 - 1 = k
    omega
  rw [powerOfTen, Binary64.ofDecimal_of_bounds false Nat.one_ne_zero (by omega) (by omega),
    if_pos (Int.natCast_nonneg k), Int.toNat_natCast, Nat.one_mul, Binary64.ofNat]

/-- Numbers up to the greatest of these powers are below the overflow. -/
lemma cast_lt_overflow {n k : Nat} (h : n ≤ 10 ^ k) (hk : k ≤ 308) : (n : ℚ) < overflow := by
  have hpow : 10 ^ k ≤ 10 ^ 308 := Nat.pow_le_pow_right (by decide) hk
  have hgreat := Binary64.le_greatestStep
  have hbound : 2 * n < (2 ^ 54 - 1) * greatestStep := by
    generalize 10 ^ 308 = bound at hpow hgreat
    omega
  have hcast : ((2 * n : Nat) : ℚ) < ((2 ^ 54 - 1) * greatestStep : Nat) := by exact_mod_cast hbound
  have htwo := Binary64.two_mul_overflow
  push_cast at hcast
  linarith

/-- The next power of ten is beyond it. -/
lemma overflow_lt_ten_pow : overflow < 10 ^ 309 := by
  have hbound : ((2 ^ 53 * greatestStep : Nat) : ℚ) < (10 ^ 309 : Nat) :=
    Nat.cast_lt.2 Binary64.greatestStep_lt
  have hstep : (0 : ℚ) ≤ greatestStep := Nat.cast_nonneg _
  have htwo := Binary64.two_mul_overflow
  rw [Nat.cast_mul, Nat.cast_pow 10, Nat.cast_ofNat] at hbound
  generalize (10 : ℚ) ^ 309 = bound at hbound ⊢
  push_cast at hbound
  linarith

/-- The powers of ten in the table are finite and at least one. -/
lemma powerOfTen_bounds {k : Nat} (h : k ≤ 308) :
    (powerOfTen k).isFinite = true ∧ unitsPerOne ≤ (powerOfTen k).units := by
  rw [powerOfTen_eq_ofNat h]
  have hfinite := (Binary64.isNear_ofNat (cast_lt_overflow (Nat.le_refl _) h)).1
  exact ⟨hfinite, Binary64.unitsPerOne_le_units_ofNat hfinite (Nat.pow_pos (by decide))⟩

/-- **The product of two rounded numbers is finite** if the product of the numbers is some steps
below the greatest double. -/
lemma isFinite_ofNat_mul_ofNat {s t : Nat} (hs : (s : ℚ) < overflow) (ht : (t : ℚ) < overflow)
    (h : (s : ℚ) * t ≤ greatestSafe) :
    (Binary64.ofNat s * Binary64.ofNat t).isFinite = true := by
  obtain ⟨hxfinite, hx⟩ := Binary64.isNear_ofNat hs
  obtain ⟨hyfinite, hy⟩ := Binary64.isNear_ofNat ht
  have hproduct := hx.mul hy zero_le_one (by norm_num) (Nat.cast_nonneg s) (Nat.cast_nonneg t)
  have hnonneg := mul_nonneg (Binary64.toRat_nonneg (Binary64.negative_ofNat s))
    (Binary64.toRat_nonneg (Binary64.negative_ofNat t))
  have hsafe := lt_overflow_of_le_greatestSafe h
  rw [Binary64.isFinite_mul_iff hxfinite hyfinite, abs_of_nonneg hnonneg]
  have hhigh := (abs_le.1 hproduct).2
  linarith

/-- **A significand times a power of ten is a double if it is not too great**, although both are
rounded before they are multiplied. -/
theorem exists_scale? {s : Nat} {e : Int} (h : s * 10 ^ e ≤ greatestSafe) :
    ∃ x, scale? s e = some x := by
  unfold scale?
  simp only
  split
  · exact ⟨_, rfl⟩
  next hnonneg =>
  obtain ⟨k, rfl⟩ := Int.eq_ofNat_of_zero_le (Int.not_lt.1 hnonneg)
  rw [zpow_natCast] at h
  split
  · next hle =>
    have hk : k ≤ 308 := by omega
    have hpower : (1 : ℚ) ≤ 10 ^ k := one_le_pow₀ (by norm_num)
    have hs : (s : ℚ) < overflow := by
      have hnonneg : (0 : ℚ) ≤ s := Nat.cast_nonneg s
      have hsafe := lt_overflow_of_le_greatestSafe h
      have hle : (s : ℚ) ≤ s * 10 ^ k := le_mul_of_one_le_right hnonneg hpower
      linarith
    have hsafe : (s : ℚ) * (10 ^ k : Nat) ≤ greatestSafe := by
      rwa [Nat.cast_pow, Nat.cast_ofNat]
    rw [Int.toNat_natCast, powerOfTen_eq_ofNat hk,
      if_pos (isFinite_ofNat_mul_ofNat hs (cast_lt_overflow (Nat.le_refl _) hk) hsafe)]
    exact ⟨_, rfl⟩
  · next hgreat =>
    have hs : s = 0 := by
      by_contra hne
      have hone : (1 : ℚ) ≤ s := by exact_mod_cast Nat.pos_of_ne_zero hne
      have hpower : (10 : ℚ) ^ 309 ≤ 10 ^ k := pow_le_pow_right₀ (by norm_num) (by omega)
      have hle : (10 : ℚ) ^ k ≤ s * 10 ^ k := le_mul_of_one_le_left (by positivity) hone
      have hsafe := lt_overflow_of_le_greatestSafe h
      have hgreat := overflow_lt_ten_pow
      generalize (10 : ℚ) ^ 309 = bound at hpower hgreat
      have hnonneg : (0 : ℚ) ≤ s * 10 ^ k := by positivity
      linarith
    have hzero : (Binary64.ofNat 0).isZero = true := by
      rw [Binary64.ofNat, Nat.zero_mul]
      decide
    rw [hs, hzero]
    exact ⟨_, rfl⟩

/-! ## Numerals -/

/-- **The significand that is taken from a numeral**: the whole digits, if these fit, and as many
digits behind the point as fit. -/
lemma exists_parts {n : Numeral} (hwhole : Digits.value n.whole < Digits.word64) :
    ∃ taken unused, n.fraction = taken ++ unused ∧
      n.parts = (Digits.value (n.whole ++ taken), -(taken.length : Int)) ∧
      ∀ c rest, unused = c :: rest →
        Digits.word64 ≤ 10 * Digits.value (n.whole ++ taken) + Digits.digitValue c := by
  obtain ⟨taken, hfraction, hvalue⟩ := exists_absorb (Digits.value n.whole) n.fraction
  have habsorb : absorb 0 n.whole = (Digits.value n.whole, []) := absorb_of_lt hwhole
  have hsignificand : (absorb (Digits.value n.whole) n.fraction).1 =
      Digits.value (n.whole ++ taken) := by
    rw [hvalue, Digits.value_eq_ofDigitChars (n.whole ++ taken), Nat.ofDigitChars_append]
    rfl
  refine ⟨taken, _, hfraction, ?_, fun c rest h => hsignificand ▸ word64_le_of_absorb h⟩
  unfold Numeral.parts
  rw [habsorb]
  dsimp only
  rw [hsignificand]
  congr 1
  have hlength := congrArg List.length hfraction
  rw [List.length_append] at hlength
  rw [List.length_nil]
  omega

/-- The value of a numeral, with the digits behind the point in two parts. -/
lemma value_eq_of_fraction {n : Numeral} {taken unused : List Char}
    (h : n.fraction = taken ++ unused) :
    n.value = (Digits.value (n.whole ++ taken) + Digits.value unused / 10 ^ unused.length : ℚ) *
      10 ^ (-(taken.length : Int) + n.power) := by
  have hten : (10 : ℚ) ≠ 0 := by norm_num
  have hpower : (10 : ℚ) ^ (-(taken.length : Int) + n.power) =
      10 ^ unused.length * 10 ^ (n.power - n.fraction.length) := by
    rw [← zpow_natCast, ← zpow_add₀ hten, h, List.length_append]
    congr 1
    omega
  rw [Numeral.value, hpower, h, ← List.append_assoc, Digits.value_append _ unused, ← mul_assoc]
  push_cast
  field_simp

/-- The significand that is taken from a numeral, scaled as it will be, is at most the number. -/
lemma parts_le_value {n : Numeral} (hwhole : Digits.value n.whole < Digits.word64) :
    ((n.parts.1 : ℚ) * 10 ^ (n.parts.2 + n.power)) ≤ n.value := by
  obtain ⟨taken, unused, hfraction, hparts, -⟩ := exists_parts hwhole
  rw [value_eq_of_fraction hfraction, hparts]
  refine mul_le_mul_of_nonneg_right ?_ (zpow_nonneg (by norm_num) _)
  exact le_add_of_nonneg_right (by positivity)

/-- Digits that all fit in 64 bits give the significand. -/
lemma parts_of_lt {n : Numeral} (h : Digits.value (n.whole ++ n.fraction) < Digits.word64) :
    n.parts = (Digits.value (n.whole ++ n.fraction), -(n.fraction.length : Int)) := by
  have hvalue : Digits.value (n.whole ++ n.fraction) =
      Nat.ofDigitChars 10 n.fraction (Digits.value n.whole) := by
    rw [Digits.value_eq_ofDigitChars, Nat.ofDigitChars_append]
    rfl
  have hwhole : absorb 0 n.whole = (Digits.value n.whole, []) := by
    refine absorb_of_lt (Nat.lt_of_le_of_lt ?_ h)
    rw [Digits.value_append]
    exact Nat.le_trans (Nat.le_mul_of_pos_right _ (Nat.pow_pos (by decide))) (Nat.le_add_right _ _)
  rw [hvalue] at h ⊢
  unfold Numeral.parts
  rw [hwhole]
  dsimp only
  rw [absorb_of_lt h, List.length_nil, Nat.sub_zero, Int.natCast_zero, Int.zero_sub]

/-- **How a numeral is read**: the significand that is taken is scaled, and gets the sign. -/
lemma double?_eq_scale? {n : Numeral} (hexponent : Digits.value n.exponent < 2 ^ 31) :
    n.double? = (scale? n.parts.1 (n.parts.2 + n.power)).map
      fun x => if n.negative then x.neg else x := by
  have hpow : Nat.pow 2 31 = 2 ^ 31 := rfl
  have hword : Digits.word64 = 2 ^ 64 := rfl
  have hsize : n.exponentSize? = some (Digits.value n.exponent) := by
    have habsorb : absorb 0 n.exponent = (Digits.value n.exponent, []) :=
      absorb_of_lt (by
        show Digits.value n.exponent < Digits.word64
        omega)
    rw [Numeral.exponentSize?, habsorb]
    exact if_pos hexponent
  have hscale : (if n.exponentNegative then n.parts.2 - (Digits.value n.exponent : Int)
      else n.parts.2 + (Digits.value n.exponent : Int)) = n.parts.2 + n.power := by
    unfold Numeral.power
    split <;> omega
  unfold Numeral.double?
  simp only [hsize, hscale]

/-- **A numeral that is not too great is read as some double**, if its whole digits and its exponent
are few enough to be added up. -/
theorem exists_double? {n : Numeral} (hwhole : Digits.value n.whole < Digits.word64)
    (hexponent : Digits.value n.exponent < 2 ^ 31) (hvalue : n.value ≤ greatestSafe) :
    ∃ x, n.double? = some x := by
  obtain ⟨x, hx⟩ := exists_scale? ((parts_le_value hwhole).trans hvalue)
  rw [double?_eq_scale? hexponent, hx]
  exact ⟨_, rfl⟩

end PagedTopK.Json
