import PagedTopK.Proofs.Json.Double

set_option autoImplicit false

/-!
# How near numerals are read

A numeral is rounded up to five times: the significand, one or two powers of ten, and as many
results. What it is read as is off by at most ten parts in `2 ^ 53`, and by next to nothing near
zero.

## Main results

* `Json.isNear_scale?` — how near a scaled significand is.
* `Json.isNear_double?` — how near the double that a numeral writes is to the number.
-/

namespace PagedTopK.Json

open Binary64 (IsNear halfUnit overflow unitsPerOne)

variable {x y : Binary64} {t : ℚ} {s k : Nat} {e : Int}

/-! ## Powers of ten -/

lemma negative_powerOfTen (k : Nat) : (powerOfTen k).negative = false :=
  Binary64.negative_ofDecimal _ _

lemma isNear_powerOfTen (hk : k ≤ 308) : IsNear 1 0 (powerOfTen k).toRat (10 ^ k) := by
  have hnear := (Binary64.isNear_ofNat (cast_lt_overflow (Nat.le_refl (10 ^ k)) hk)).2
  rwa [← powerOfTen_eq_ofNat hk, Nat.cast_pow, Nat.cast_ofNat] at hnear

/-! ## Scaled significands -/

/-- From the 617th power of ten on, less than half of the least positive double is left. -/
lemma div_ten_pow_le (ht : t ≤ 2 ^ 64) (hk : 616 < k) : t / 10 ^ k ≤ halfUnit := by
  have hunits := Binary64.unitsPerOne_cast_pos
  have htwo := Binary64.two_mul_unitsPerOne_le
  rw [halfUnit, div_le_div_iff₀ (by positivity) (by linarith)]
  calc t * (2 * unitsPerOne) ≤ 10 ^ 217 * 10 ^ 400 :=
        mul_le_mul (ht.trans (by norm_num)) htwo (by linarith) (by norm_num)
    _ = 10 ^ 617 := by rw [← pow_add]
    _ ≤ 10 ^ k := pow_le_pow_right₀ (by norm_num) hk
    _ = 1 * 10 ^ k := (one_mul _).symm

/-- A division by one power of ten. -/
lemma isNear_div_powerOfTen {j c : ℚ} (hx : x.isFinite = true) (hsign : x.negative = false)
    (hnear : IsNear j c x.toRat t) (hj : 0 ≤ j) (hj' : j ≤ 90) (hc : 0 ≤ c) (ht : 0 ≤ t)
    (hk : 0 < k) (hk' : k ≤ 308) :
    (x / powerOfTen k).isFinite = true ∧ (x / powerOfTen k).negative = false ∧
      IsNear (j + 4) (2 * c + 1) (x / powerOfTen k).toRat (t / 10 ^ k) := by
  obtain ⟨hfinite, hone⟩ := powerOfTen_bounds hk'
  have hpos := Nat.lt_of_lt_of_le Binary64.unitsPerOne_pos hone
  have hquotient := Binary64.isFinite_div hx hfinite hone
  have htwo : (2 : ℚ) ≤ 10 ^ k :=
    le_trans (by norm_num) (pow_le_pow_right₀ (by norm_num) hk : (10 : ℚ) ^ 1 ≤ 10 ^ k)
  refine ⟨hquotient, ?_, Binary64.isNear_div hx hfinite hsign (negative_powerOfTen k) hpos hquotient
    hnear (isNear_powerOfTen hk') hj hj' hc ht htwo⟩
  rw [Binary64.negative_div hx hfinite hpos, hsign, negative_powerOfTen]
  rfl

/-- **A division by a power of ten** rounds the power and one or two quotients. -/
lemma isNear_scaleDown (hx : x.isFinite = true) (hsign : x.negative = false)
    (hnear : IsNear 1 0 x.toRat t) (ht : 0 ≤ t) (hbound : t ≤ 2 ^ 64) (hk : 0 < k) :
    (scaleDown x k).negative = false ∧ IsNear 9 3 (scaleDown x k).toRat (t / 10 ^ k) := by
  have hshare : 0 ≤ t / 10 ^ k := by positivity
  unfold scaleDown
  split
  · next hone =>
    obtain ⟨-, hnegative, hdiv⟩ := isNear_div_powerOfTen hx hsign hnear zero_le_one (by norm_num)
      le_rfl ht hk hone
    exact ⟨hnegative, hdiv.mono (by norm_num) (by norm_num) hshare⟩
  split
  · next hmore htwo =>
    obtain ⟨hfinite, hfirst, hdiv⟩ := isNear_div_powerOfTen hx hsign hnear zero_le_one
      (by norm_num) le_rfl ht (by decide) (Nat.le_refl 308)
    obtain ⟨-, hnegative, hagain⟩ := isNear_div_powerOfTen hfinite hfirst hdiv (by norm_num)
      (by norm_num) (by norm_num) (by positivity) (by omega : 0 < k - 308) (by omega)
    rw [div_div, ← pow_add, show 308 + (k - 308) = k by omega] at hagain
    exact ⟨hnegative, hagain.mono (by norm_num) (by norm_num) hshare⟩
  · next hmore hnothing =>
    have hzero : Binary64.zero.toRat = 0 := Binary64.toRat_eq_zero_iff.2 rfl
    have hhalf := Binary64.halfUnit_pos
    have hsmall := div_ten_pow_le hbound (Nat.not_le.1 hnothing)
    refine ⟨rfl, ?_⟩
    rw [hzero, IsNear, zero_sub, abs_neg, abs_of_nonneg hshare]
    have hpart : 0 ≤ 9 / 2 ^ 53 * (t / 10 ^ k) := mul_nonneg (by norm_num) hshare
    linarith

/-- **How near a scaled significand is.** -/
theorem isNear_scale? (hs : s < Digits.word64) (h : scale? s e = some y) :
    y.negative = false ∧ IsNear 9 3 y.toRat (s * 10 ^ e) := by
  have hword : Digits.word64 = 2 ^ 64 := rfl
  have hbound : (s : ℚ) ≤ 2 ^ 64 := by exact_mod_cast (hword ▸ hs.le)
  have hnonneg : (0 : ℚ) ≤ s := Nat.cast_nonneg s
  have hlt : (s : ℚ) < overflow :=
    cast_lt_overflow (Nat.le_trans hs.le (by decide : Digits.word64 ≤ 10 ^ 20)) (by decide)
  obtain ⟨hfinite, hnear⟩ := Binary64.isNear_ofNat hlt
  have hsign := Binary64.negative_ofNat s
  unfold scale? at h
  dsimp only at h
  split at h
  · next hneg =>
    cases h
    obtain ⟨k, rfl⟩ : ∃ k : Nat, e = -k := ⟨e.natAbs, by omega⟩
    rw [Int.natAbs_neg, Int.natAbs_natCast, zpow_neg, zpow_natCast, ← div_eq_mul_inv]
    exact isNear_scaleDown hfinite hsign hnear hnonneg hbound (by omega)
  next hpositive =>
  obtain ⟨k, rfl⟩ : ∃ k : Nat, e = k := ⟨e.toNat, by omega⟩
  rw [zpow_natCast]
  split at h
  · next hk =>
    rw [Int.toNat_natCast] at h
    split at h
    · next hproduct =>
      cases h
      have hpower := powerOfTen_bounds (by omega : k ≤ 308)
      refine ⟨?_, (Binary64.isNear_mul hfinite hpower.1 hsign (negative_powerOfTen k) hproduct
        hnear (isNear_powerOfTen (by omega)) zero_le_one (by norm_num) hnonneg
        (by positivity)).mono (by norm_num) (by norm_num) (by positivity)⟩
      rw [Binary64.negative_mul hfinite hpower.1, hsign, negative_powerOfTen]
      rfl
    · cases h
  split at h
  · next hzero =>
    cases h
    have hs : s = 0 := by
      by_contra hne
      have hunits := Binary64.unitsPerOne_le_units_ofNat hfinite (Nat.pos_of_ne_zero hne)
      have hpos := Nat.lt_of_lt_of_le Binary64.unitsPerOne_pos hunits
      rw [Binary64.isZero_of_units_pos hpos] at hzero
      cases hzero
    rw [hs, Nat.cast_zero] at hnear ⊢
    rw [zero_mul]
    exact ⟨Binary64.negative_ofNat 0, hnear.mono (by norm_num) (by norm_num) le_rfl⟩
  · cases h

/-! ## Numerals -/

/-- Digits that do not fit are less than one part in `2 ^ 60`. -/
lemma value_le_parts {n : Numeral} (hwhole : Digits.value n.whole < Digits.word64)
    (hfraction : ∀ c ∈ n.fraction, c.isDigit = true) :
    n.value ≤ (1 + 1 / 2 ^ 60) * (n.parts.1 * 10 ^ (n.parts.2 + n.power)) := by
  have hword : Digits.word64 = 2 ^ 64 := rfl
  obtain ⟨taken, unused, hsplit, hparts, hfull⟩ := exists_parts hwhole
  rw [value_eq_of_fraction hsplit, hparts, ← mul_assoc]
  refine mul_le_mul_of_nonneg_right ?_ (zpow_nonneg (by norm_num) _)
  rw [hsplit] at hfraction
  cases unused with
  | nil =>
    have hnil : Digits.value [] = 0 := rfl
    rw [hnil, Nat.cast_zero, zero_div, add_zero]
    exact le_mul_of_one_le_left (Nat.cast_nonneg _) (by norm_num)
  | cons c rest =>
    have hdigits := (List.forall_mem_append.1 hfraction).2
    have hrest := Digits.value_lt _ hdigits
    have hc : Digits.digitValue c ≤ 9 := by
      have hone := Digits.value_lt [c] (List.forall_mem_singleton.2 (hdigits c List.mem_cons_self))
      have hvalue : Digits.value [c] = 10 * 0 + Digits.digitValue c := rfl
      rw [hvalue, List.length_singleton] at hone
      omega
    have hgreat : 2 ^ 60 ≤ Digits.value (n.whole ++ taken) := by
      have := hfull c rest rfl
      omega
    have hcast : (2 ^ 60 : ℚ) ≤ Digits.value (n.whole ++ taken) := by exact_mod_cast hgreat
    have hshare : (Digits.value (c :: rest) / 10 ^ (c :: rest).length : ℚ) ≤ 1 := by
      rw [div_le_one (by positivity)]
      exact_mod_cast hrest.le
    linarith

/-- **How near the double that a numeral writes is to the number.** -/
theorem isNear_double? {n : Numeral} (hwhole : Digits.value n.whole < Digits.word64)
    (hfraction : ∀ c ∈ n.fraction, c.isDigit = true)
    (hexponent : Digits.value n.exponent < 2 ^ 31) (h : n.double? = some y) :
    y.negative = n.negative ∧ IsNear 10 3 |y.toRat| n.value := by
  have hparts : n.parts.1 < Digits.word64 := absorb_lt (absorb_lt (by decide) n.whole) n.fraction
  rw [double?_eq_scale? hexponent, Option.map_eq_some_iff] at h
  obtain ⟨z, hz, rfl⟩ := h
  obtain ⟨hsign, hnear⟩ := isNear_scale? hparts hz
  have hlow := parts_le_value hwhole
  have hhigh := value_le_parts hwhole hfraction
  have habs : |(if n.negative then z.neg else z).toRat| = z.toRat := by
    have hnonneg := Binary64.toRat_nonneg hsign
    split
    · rw [Binary64.toRat_neg, abs_neg, abs_of_nonneg hnonneg]
    · exact abs_of_nonneg hnonneg
  constructor
  · cases hnegative : n.negative with
    | true =>
      rw [if_pos rfl, Binary64.neg, hsign]
      rfl
    | false => rwa [if_neg (by decide)]
  · rw [habs]
    unfold IsNear at *
    generalize (n.parts.1 * 10 ^ (n.parts.2 + n.power) : ℚ) = part at *
    have hleft : |part - n.value| ≤ 1 / 2 ^ 60 * part := by
      rw [abs_sub_comm, abs_of_nonneg (sub_nonneg.2 hlow)]
      linarith
    have htriangle := abs_sub_le z.toRat part n.value
    linarith

end PagedTopK.Json
