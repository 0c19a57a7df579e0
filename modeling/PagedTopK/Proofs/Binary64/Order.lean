import PagedTopK.Proofs.Binary64.Nearest

set_option autoImplicit false

/-!
# Doubles in order

The order of doubles is that of the numbers that they stand for, with `-0` below `0`. So the nearest
doubles of two numbers are ordered as the numbers, as far as they differ.

## Main results

* `Binary64.order_eq_compare_toRat` — doubles are ordered by the numbers that they stand for.
* `Binary64.Nearest.toRat_le` — a greater number has no smaller nearest double.
* `Binary64.Nearest.toRat_eq` — a number has one nearest double, up to the sign of zero.
* `Binary64.ofDecimal_eq_of_value_eq` — what a decimal is read as depends on its value alone.
* `Binary64.eq_of_value_shortest_eq` — different doubles of one sign have different shortest
  decimals.
-/

namespace PagedTopK.Binary64

/-! ## Places -/

/-- Absolute values are ordered as magnitudes. -/
lemma units_div_lt_iff {x y : Binary64} :
    (x.units : ℚ) / unitsPerOne < y.units / unitsPerOne ↔ x.magnitude < y.magnitude := by
  rw [div_lt_div_iff_of_pos_right unitsPerOne_cast_pos, Nat.cast_lt, units_lt_units_iff]

lemma place_of_negative {x : Binary64} (h : x.negative = true) :
    x.place = -(x.magnitude : Int) - 1 := by
  rw [place, if_pos h]

lemma place_of_not_negative {x : Binary64} (h : x.negative = false) :
    x.place = x.magnitude := by
  rw [place, h, if_neg (by decide)]

/-- Different doubles have different bits. -/
lemma bits_injective {x y : Binary64} (h : x.bits = y.bits) : x = y := by
  obtain ⟨sx, mx, hx⟩ := x
  obtain ⟨sy, my, hy⟩ := y
  cases sx <;> cases sy <;> simp [bits] at h hx hy ⊢ <;> omega

/-- A smaller number is below a greater one. -/
lemma place_lt_of_toRat_lt {x y : Binary64} (h : x.toRat < y.toRat) : x.place < y.place := by
  have hxle := units_div_nonneg x
  have hyle := units_div_nonneg y
  cases hx : x.negative <;> cases hy : y.negative
  · rw [toRat_of_not_negative hx, toRat_of_not_negative hy, units_div_lt_iff] at h
    rw [place_of_not_negative hx, place_of_not_negative hy]
    exact_mod_cast h
  · rw [toRat_of_not_negative hx, toRat_of_negative hy] at h
    linarith
  · rw [place_of_negative hx, place_of_not_negative hy]
    omega
  · rw [toRat_of_negative hx, toRat_of_negative hy, neg_lt_neg_iff, units_div_lt_iff] at h
    rw [place_of_negative hx, place_of_negative hy]
    omega

lemma magnitude_eq_of_toRat_eq {x y : Binary64} (h : x.toRat = y.toRat) :
    x.magnitude = y.magnitude := by
  have hsame : |x.toRat| = |y.toRat| := by rw [h]
  rw [abs_toRat, abs_toRat, div_left_inj' unitsPerOne_cast_pos.ne', Nat.cast_inj] at hsame
  exact units_eq_units_iff.1 hsame

/-- Doubles that stand for the same number differ in the sign of zero only. -/
lemma compare_place_of_toRat_eq {x y : Binary64} (h : x.toRat = y.toRat) :
    compare x.place y.place = compare y.negative x.negative := by
  have hmagnitude := magnitude_eq_of_toRat_eq h
  cases hx : x.negative <;> cases hy : y.negative
  · rw [place_of_not_negative hx, place_of_not_negative hy, hmagnitude,
      compare_eq_iff_eq.2 rfl, compare_eq_iff_eq.2 rfl]
  · rw [place_of_not_negative hx, place_of_negative hy, compare_gt_iff_gt.2 (by omega)]
    rfl
  · rw [place_of_negative hx, place_of_not_negative hy, compare_lt_iff_lt.2 (by omega)]
    rfl
  · rw [place_of_negative hx, place_of_negative hy, hmagnitude,
      compare_eq_iff_eq.2 rfl, compare_eq_iff_eq.2 rfl]

/-- A double below another one stands for a smaller number, unless both are zeros. -/
lemma toRat_lt_of_place_lt {x y : Binary64} (h : x.place < y.place)
    (hne : x.magnitude ≠ 0 ∨ y.magnitude ≠ 0) : x.toRat < y.toRat := by
  rcases lt_trichotomy x.toRat y.toRat with hlt | heq | hgt
  · exact hlt
  · have hmagnitude := magnitude_eq_of_toRat_eq heq
    have hnonzero : x.toRat ≠ 0 := by
      rw [Ne, toRat_eq_zero_iff]
      omega
    -- Different signs would make one of the two numbers negative.
    cases hx : x.negative <;> cases hy : y.negative
    · rw [place_of_not_negative hx, place_of_not_negative hy] at h
      omega
    · rw [place_of_not_negative hx, place_of_negative hy] at h
      omega
    · have hxle := units_div_nonneg x
      have hyle := units_div_nonneg y
      rw [toRat_of_negative hx] at heq hnonzero
      rw [toRat_of_not_negative hy] at heq
      exact absurd (by linarith) hnonzero
    · rw [place_of_negative hx, place_of_negative hy] at h
      omega
  · exact absurd (place_lt_of_toRat_lt hgt) (not_lt.2 h.le)

/-- **Doubles are ordered by the numbers that they stand for**, and `-0` is below `0`. -/
theorem order_eq_compare_toRat (x y : Binary64) :
    x.order y = (compare x.toRat y.toRat).then (compare y.negative x.negative) := by
  rw [order]
  rcases lt_trichotomy x.toRat y.toRat with hlt | heq | hgt
  · rw [compare_lt_iff_lt.2 hlt, compare_lt_iff_lt.2 (place_lt_of_toRat_lt hlt)]
    rfl
  · rw [compare_eq_iff_eq.2 heq, compare_place_of_toRat_eq heq]
    rfl
  · rw [compare_gt_iff_gt.2 hgt, compare_gt_iff_gt.2 (place_lt_of_toRat_lt hgt)]
    rfl

/-! ## What the nearest double tells of a number -/

/-- What is not nearer to the lower of two numbers is not below their middle. -/
lemma middle_le {v low high : ℚ} (hlt : low < high) (h : |v - high| ≤ |v - low|) :
    (low + high) / 2 ≤ v := by
  by_contra hbelow
  rw [not_le] at hbelow
  rw [abs_of_nonpos (by linarith)] at h
  rcases abs_cases (v - low) with ⟨heq, -⟩ | ⟨heq, -⟩ <;> linarith

/-- What is not nearer to the higher of two numbers is not above their middle. -/
lemma le_middle {v low high : ℚ} (hlt : low < high) (h : |v - low| ≤ |v - high|) :
    v ≤ (low + high) / 2 := by
  by_contra habove
  rw [not_le] at habove
  rw [abs_of_nonneg (by linarith)] at h
  rcases abs_cases (v - high) with ⟨heq, -⟩ | ⟨heq, -⟩ <;> linarith

/-- **A greater number has no smaller nearest double.** -/
lemma Nearest.toRat_le {x y : Binary64} {v w : ℚ} (hx : Nearest x v) (hy : Nearest y w)
    (h : v < w) : x.toRat ≤ y.toRat := by
  by_contra hgt
  have hv := middle_le (not_le.1 hgt) (hx.le y hy.isFinite)
  have hw := le_middle (not_le.1 hgt) (hy.le x hx.isFinite)
  linarith

/-- Every magnitude below the infinite one is that of a finite double of either sign. -/
lemma exists_of_magnitude (negative : Bool) {m : Nat} (h : m < infiniteMagnitude) :
    ∃ z : Binary64, z.negative = negative ∧ z.magnitude = m ∧ z.isFinite = true :=
  ⟨ofMagnitude negative m, negative_ofMagnitude _ _, magnitude_ofMagnitude _ h,
    isFinite_ofMagnitude.2 h⟩

/-- Between two doubles with even significands there is another one. -/
lemma exists_between {x y : Binary64} (hx : x.magnitude % 2 = 0) (hy : y.magnitude % 2 = 0)
    (hxfinite : x.isFinite = true) (hyfinite : y.isFinite = true) (h : x.toRat < y.toRat) :
    ∃ z : Binary64, z.isFinite = true ∧ x.toRat < z.toRat ∧ z.toRat < y.toRat := by
  have hxlt : x.magnitude < infiniteMagnitude := by simpa [isFinite] using hxfinite
  have hylt : y.magnitude < infiniteMagnitude := by simpa [isFinite] using hyfinite
  have hplace := place_lt_of_toRat_lt h
  have hne : ¬ (x.magnitude = 0 ∧ y.magnitude = 0) := by
    rintro ⟨hxzero, hyzero⟩
    rw [toRat_eq_zero_iff.2 hxzero, toRat_eq_zero_iff.2 hyzero] at h
    exact lt_irrefl 0 h
  -- The next one away from zero, seen from the one that is nearer to zero.
  obtain ⟨negative, m, hm, hbetween⟩ : ∃ (negative : Bool) (m : Nat),
      0 < m ∧ m < infiniteMagnitude ∧ ∀ z : Binary64, z.negative = negative → z.magnitude = m →
        x.place < z.place ∧ z.place < y.place := by
    cases hxsign : x.negative <;> cases hysign : y.negative
    · rw [place_of_not_negative hxsign, place_of_not_negative hysign] at hplace ⊢
      refine ⟨false, x.magnitude + 1, by omega, by omega, fun z hsign hz => ?_⟩
      rw [place_of_not_negative hsign]
      omega
    · rw [place_of_not_negative hxsign, place_of_negative hysign] at hplace
      omega
    · rw [place_of_negative hxsign, place_of_not_negative hysign] at hplace ⊢
      by_cases hzero : y.magnitude = 0
      · refine ⟨true, 1, by omega, by omega, fun z hsign hz => ?_⟩
        rw [place_of_negative hsign]
        omega
      · refine ⟨false, 1, by omega, by omega, fun z hsign hz => ?_⟩
        rw [place_of_not_negative hsign]
        omega
    · rw [place_of_negative hxsign, place_of_negative hysign] at hplace ⊢
      refine ⟨true, y.magnitude + 1, by omega, by omega, fun z hsign hz => ?_⟩
      rw [place_of_negative hsign]
      omega
  obtain ⟨z, hsign, hz, hfinite⟩ := exists_of_magnitude negative hbetween.1
  have hmagnitude : z.magnitude ≠ 0 := by omega
  obtain ⟨hxz, hzy⟩ := hbetween.2 z hsign hz
  exact ⟨z, hfinite, toRat_lt_of_place_lt hxz (.inr hmagnitude),
    toRat_lt_of_place_lt hzy (.inl hmagnitude)⟩

/-- **A number has one nearest double**, up to the sign of zero. -/
lemma Nearest.toRat_eq {x y : Binary64} {v : ℚ} (hx : Nearest x v) (hy : Nearest y v) :
    x.toRat = y.toRat := by
  have hsame : |v - x.toRat| = |v - y.toRat| :=
    le_antisymm (hx.le y hy.isFinite) (hy.le x hx.isFinite)
  by_contra hne
  have hxeven := hx.even y hy.isFinite hsame.symm (Ne.symm hne)
  have hyeven := hy.even x hx.isFinite hsame hne
  have hbetween : ∀ a b : Binary64, Nearest a v → Nearest b v → a.magnitude % 2 = 0 →
      b.magnitude % 2 = 0 → ¬ a.toRat < b.toRat := by
    intro a b ha hb haeven hbeven hlt
    obtain ⟨z, hz, haz, hzb⟩ := exists_between haeven hbeven ha.isFinite hb.isFinite hlt
    have hfirst := le_middle haz (ha.le z hz)
    have hsecond := middle_le hzb (hb.le z hz)
    linarith
  rcases lt_or_gt_of_ne hne with hlt | hgt
  · exact hbetween x y hx hy hxeven hyeven hlt
  · exact hbetween y x hy hx hyeven hxeven hgt

/-- **A double is nearest to its own number.** -/
lemma Nearest.toRat_eq_self {x y : Binary64} (hy : y.isFinite = true)
    (hx : Nearest x y.toRat) : x.toRat = y.toRat := by
  have hle := hx.le y hy
  rw [sub_self, abs_zero] at hle
  have hzero := abs_eq_zero.1 (le_antisymm hle (abs_nonneg _))
  linarith

/-- So a number has one nearest double of each sign. -/
lemma Nearest.eq {x y : Binary64} {v : ℚ} (hx : Nearest x v) (hy : Nearest y v)
    (hsign : x.negative = y.negative) : x = y := by
  have hmagnitude := magnitude_eq_of_toRat_eq (hx.toRat_eq hy)
  cases x
  cases y
  cases hsign
  cases hmagnitude
  rfl

lemma toRat_neg (x : Binary64) : x.neg.toRat = -x.toRat := by
  have hunits : x.neg.units = x.units := rfl
  cases h : x.negative with
  | true =>
    have hneg : x.neg.negative = false := by rw [neg, h]; rfl
    rw [toRat_of_not_negative hneg, toRat_of_negative h, hunits, neg_neg]
  | false =>
    have hneg : x.neg.negative = true := by rw [neg, h]; rfl
    rw [toRat_of_negative hneg, toRat_of_not_negative h, hunits]

/-- The other sign makes the double nearest to the number of the other sign. -/
lemma Nearest.neg {x : Binary64} {v : ℚ} (h : Nearest x v) : Nearest x.neg (-v) := by
  have hturn : ∀ y : Binary64, |-v - y.toRat| = |v - y.neg.toRat| := fun y => by
    rw [toRat_neg, ← abs_neg]
    congr 1
    ring
  have hself : |-v - x.neg.toRat| = |v - x.toRat| := by
    rw [toRat_neg, ← abs_neg]
    congr 1
    ring
  refine ⟨h.isFinite, fun y hy => ?_, fun y hy heq hne => ?_⟩
  · rw [hself, hturn]
    exact h.le y.neg hy
  · rw [hself, hturn] at heq
    refine h.even y.neg hy heq fun hsame => hne ?_
    rw [toRat_neg, ← hsame, toRat_neg, neg_neg]

/-! ## Decimals -/

/-- A decimal below the overflow is read as the double nearest to it with its sign. -/
lemma nearest_ofDecimal_signed (negative : Bool) {d : Decimal} (hd : d.value < overflow) :
    Nearest (ofDecimal negative d) (if negative then -d.value else d.value) := by
  have hnonneg := value_nonneg d
  refine nearest_ofDecimal hd ?_ ?_
  · split
    · rw [abs_neg, abs_of_nonneg hnonneg]
    · exact abs_of_nonneg hnonneg
  · rw [HasSign, negative_ofDecimal]
    split
    · exact neg_nonpos.2 hnonneg
    · exact hnonneg

/-- **Decimals with the same value are read as the same double.** -/
lemma ofDecimal_eq_of_value_eq (negative : Bool) {d e : Decimal} (hd : d.value < overflow)
    (h : d.value = e.value) : ofDecimal negative d = ofDecimal negative e := by
  have hnearest := nearest_ofDecimal_signed negative hd
  rw [h] at hd hnearest
  refine hnearest.eq (nearest_ofDecimal_signed negative hd) ?_
  rw [negative_ofDecimal, negative_ofDecimal]

/-- A double is the one nearest to its shortest decimal with its sign. -/
lemma nearest_shortest {x : Binary64} (hx : x.isFinite = true) (hzero : x.isZero = false) :
    Nearest x (if x.negative then -(shortest .toEven x).value else (shortest .toEven x).value) := by
  have hback : ofDecimal x.negative (shortest .toEven x) = x :=
    eq_of_beq (readsBack_shortest .toEven hx hzero)
  have hlt : (shortest .toEven x).value < overflow := by
    rw [← isFinite_ofDecimal_iff x.negative, hback]
    exact hx
  have hnearest := nearest_ofDecimal_signed x.negative hlt
  rwa [hback] at hnearest

/-- **Different doubles of one sign have different shortest decimals.** -/
theorem eq_of_value_shortest_eq {x y : Binary64} (hx : x.isFinite = true) (hy : y.isFinite = true)
    (hxzero : x.isZero = false) (hyzero : y.isZero = false) (hsign : x.negative = y.negative)
    (h : (shortest .toEven x).value = (shortest .toEven y).value) : x = y := by
  have hnearest := nearest_shortest hx hxzero
  rw [h, hsign] at hnearest
  exact hnearest.eq (nearest_shortest hy hyzero) hsign

end PagedTopK.Binary64
