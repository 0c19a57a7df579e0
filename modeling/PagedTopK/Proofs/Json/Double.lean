import PagedTopK.Binary64.Layout
import PagedTopK.Json.Token
import PagedTopK.Proofs.Binary64.Digits
import PagedTopK.Proofs.Json.Number

set_option autoImplicit false

/-!
# Doubles that are written and read

A finite double is written as a numeral with the digits of the shortest decimal. That numeral is
read as a double again, not always the same one, but never as a number that is too great.

## Main definitions

* `Json.Numeral.ofDouble` — the numeral of a double.
* `Json.reread` — the double as which that numeral is read.

## Main results

* `Json.write_eq_text` — a double is written as its numeral.
* `Json.number?_ofDouble` — the numeral of a finite double is read as a double.
-/

namespace PagedTopK

open Binary64 (greatestStep unitsPerOne topStep infiniteMagnitude)

namespace Json

/-! ## The numeral of a double -/

namespace Numeral

/-- **Digits with the first one at a power of ten**: in positional form if the power is between
`-5` and `15`, with an exponent otherwise. -/
def ofDigits (negative : Bool) (digits : List Char) (e : Int) : Numeral :=
  if -5 ≤ e ∧ e < 16 then
    if e + 1 ≤ 0 then
      ⟨negative, ['0'], List.replicate (e + 1).natAbs '0' ++ digits, false, false, []⟩
    else if digits.length ≤ (e + 1).toNat then
      ⟨negative, digits ++ List.replicate ((e + 1).toNat - digits.length) '0', ['0'], false, false,
        []⟩
    else ⟨negative, digits.take (e + 1).toNat, digits.drop (e + 1).toNat, false, false, []⟩
  else ⟨negative, digits.take 1, digits.drop 1, true, decide (e < 0), Digits.ofNat e.natAbs⟩

/-- **The numeral of a finite double.** -/
def ofDouble (x : Binary64) : Numeral :=
  if x.isZero then ⟨x.negative, ['0'], ['0'], false, false, []⟩
  else ofDigits x.negative (Binary64.shortest .toEven x).digits
    (Binary64.shortest .toEven x).leadingExponent

end Numeral

variable {negative : Bool} {first : Char} {rest : List Char}

lemma negative_ofDigits (negative : Bool) (digits : List Char) (e : Int) :
    (Numeral.ofDigits negative digits e).negative = negative := by
  unfold Numeral.ofDigits
  split
  · split
    · rfl
    split <;> rfl
  · rfl

lemma text_ofDigits (negative : Bool) (first : Char) (rest : List Char) (e : Int) :
    (Numeral.ofDigits negative (first :: rest) e).text true =
      (if negative then ['-'] else []) ++
        (if Layout.json.positional e then
          Layout.positionalText true (first :: rest) (e + 1)
        else Layout.scientificText true (first :: rest) e) := by
  have hpositional : Layout.json.positional e = true ↔ -5 ≤ e ∧ e < 16 := by
    simp [Layout.json]
  unfold Numeral.ofDigits
  by_cases h : -5 ≤ e ∧ e < 16
  · rw [if_pos h, if_pos (hpositional.2 h)]
    unfold Layout.positionalText Numeral.text
    split
    · simp
    split
    · simp
    · next hlong =>
      have hdrop : (first :: rest).drop (e + 1).toNat ≠ [] := by
        rw [ne_eq, List.drop_eq_nil_iff]
        exact hlong
      simp [hdrop]
  · rw [if_neg h, if_neg fun hp => h (hpositional.1 hp)]
    unfold Layout.scientificText Numeral.text
    cases rest <;> by_cases hneg : e < 0 <;> simp [hneg]

/-- **A finite double is written as its numeral.** -/
lemma write_eq_text {x : Binary64} (hx : x.isFinite = true) :
    Layout.json.write x = (Numeral.ofDouble x).text true := by
  have hnumber := Binary64.isNaN_of_isFinite hx
  have hwrite : Layout.json.write x =
      (if x.negative then ['-'] else []) ++ Layout.json.absoluteText x := by
    simp [Layout.write, hnumber, hx]
  rw [hwrite]
  have htie : Layout.json.tie = .toEven := rfl
  have hwhole : Layout.json.wholeFraction = true := rfl
  have hplus : Layout.json.plusSign = true := rfl
  unfold Numeral.ofDouble Layout.absoluteText
  cases hzero : x.isZero with
  | true =>
    rw [if_pos rfl, if_pos rfl, hwhole]
    simp [Numeral.text]
  | false =>
    obtain ⟨hc, -, -⟩ := Binary64.bounds_shortest .toEven hx hzero
    obtain ⟨first, rest, -, hdigits, -⟩ := Decimal.exists_digits hc
    simp only [htie, hwhole, hplus, hdigits]
    generalize (Binary64.shortest .toEven x).leadingExponent = e
    simp only [Bool.false_eq_true, if_false]
    rw [text_ofDigits]

/-- Numerals without exponent. -/
lemma Numeral.WellFormed.plain {whole fraction : List Char}
    (hwhole : whole = ['0'] ∨
      ∃ d ds, whole = d :: ds ∧ d ≠ '0' ∧ d.isDigit = true ∧ ∀ c ∈ ds, c.isDigit = true)
    (hfraction : ∀ c ∈ fraction, c.isDigit = true) :
    Numeral.WellFormed ⟨negative, whole, fraction, false, false, []⟩ where
  whole := hwhole
  fraction := hfraction
  exponent := List.forall_mem_nil _
  scaled := nofun
  unscaled _ := ⟨rfl, rfl⟩

lemma wellFormed_ofDigits (negative : Bool) (hne : first ≠ '0') (hfirst : first.isDigit = true)
    (hrest : ∀ c ∈ rest, c.isDigit = true) (e : Int) :
    (Numeral.ofDigits negative (first :: rest) e).WellFormed := by
  have hall : ∀ c ∈ first :: rest, c.isDigit = true := List.forall_mem_cons.2 ⟨hfirst, hrest⟩
  have hzero : '0'.isDigit = true := rfl
  have hzeros : ∀ n, ∀ c ∈ List.replicate n '0', c.isDigit = true := fun n c hc =>
    List.eq_of_mem_replicate hc ▸ hzero
  unfold Numeral.ofDigits
  split
  · split
    · exact .plain (.inl rfl) (List.forall_mem_append.2 ⟨hzeros _, hall⟩)
    split
    · exact .plain (.inr ⟨first, _, rfl, hne, hfirst,
        List.forall_mem_append.2 ⟨hrest, hzeros _⟩⟩) (List.forall_mem_singleton.2 hzero)
    · next hpoint _ =>
      obtain ⟨k, hk⟩ : ∃ k, (e + 1).toNat = k + 1 := ⟨(e + 1).toNat - 1, by omega⟩
      rw [hk, List.take_succ_cons, List.drop_succ_cons]
      exact .plain
        (.inr ⟨first, _, rfl, hne, hfirst, fun c hc => hrest c (List.mem_of_mem_take hc)⟩)
        fun c hc => hrest c (List.mem_of_mem_drop hc)
  · exact {
      whole := .inr ⟨first, [], rfl, hne, hfirst, List.forall_mem_nil _⟩
      fraction := hrest
      exponent := fun c hc => Digits.isDigit_of_mem_ofNat hc
      scaled := fun _ => Nat.toDigits_ne_nil
      unscaled := nofun }

/-- The numeral of a finite double can be scanned. -/
lemma wellFormed_ofDouble {x : Binary64} (hx : x.isFinite = true) :
    (Numeral.ofDouble x).WellFormed := by
  unfold Numeral.ofDouble
  cases hzero : x.isZero with
  | true =>
    rw [if_pos rfl]
    exact .plain (.inl rfl) (List.forall_mem_singleton.2 rfl)
  | false =>
    obtain ⟨hc, -, -⟩ := Binary64.bounds_shortest .toEven hx hzero
    obtain ⟨first, rest, -, hdigits, hne, hfirst, hrest, -⟩ := Decimal.exists_digits hc
    rw [if_neg (by decide), hdigits]
    exact wellFormed_ofDigits x.negative hne hfirst hrest _

/-! ## The value of the numeral -/

/-- **The coefficient of the numeral**: the digits, followed by zeros only if the numeral is whole.
Then there is one zero behind the point. -/
lemma exists_coefficient_ofDigits (negative : Bool) (first : Char) (rest : List Char) (e : Int) :
    ∃ zeros : Nat,
      Digits.value ((Numeral.ofDigits negative (first :: rest) e).whole ++
        (Numeral.ofDigits negative (first :: rest) e).fraction) =
          Digits.value (first :: rest) * 10 ^ zeros ∧
      (Numeral.ofDigits negative (first :: rest) e).power -
        (Numeral.ofDigits negative (first :: rest) e).fraction.length = e - rest.length - zeros ∧
      (zeros = 0 ∨ e < 16 ∧ (rest.length + zeros : Int) = e + 1) := by
  have hnil : Digits.value [] = 0 := rfl
  unfold Numeral.ofDigits
  split
  · next hplain =>
    split
    · next hpoint =>
      refine ⟨0, ?_, ?_, .inl rfl⟩
      · dsimp only
        rw [List.singleton_append, ← List.cons_append, ← List.replicate_succ,
          Digits.value_replicate_zero_append, Nat.pow_zero, Nat.mul_one]
      · simp only [Numeral.power, hnil, List.length_append, List.length_replicate, List.length_cons,
          Bool.false_eq_true, if_false]
        omega
    split
    · next hpoint hshort =>
      rw [List.length_cons] at hshort
      refine ⟨(e + 1).toNat - (rest.length + 1) + 1, ?_, ?_, .inr ⟨hplain.2, ?_⟩⟩
      · dsimp only
        rw [List.append_assoc, ← List.replicate_succ', Digits.value_append_replicate_zero,
          List.length_cons]
      · simp only [Numeral.power, hnil, List.length_singleton, Bool.false_eq_true, if_false]
        omega
      · omega
    · next hpoint hlong =>
      rw [List.length_cons] at hlong
      refine ⟨0, ?_, ?_, .inl rfl⟩
      · dsimp only
        rw [List.take_append_drop, Nat.pow_zero, Nat.mul_one]
      · simp only [Numeral.power, hnil, List.length_drop, List.length_cons, Bool.false_eq_true,
          if_false]
        omega
  · refine ⟨0, ?_, ?_, .inl rfl⟩
    · dsimp only
      rw [List.take_append_drop, Nat.pow_zero, Nat.mul_one]
    · simp only [Numeral.power, Digits.value_ofNat, List.length_drop, List.length_cons,
        decide_eq_true_eq]
      split <;> omega

/-- Wherever the point stands, the numeral has the value of its digits with the first one at the
power of ten. -/
lemma value_ofDigits (negative : Bool) (first : Char) (rest : List Char) (e : Int) :
    (Numeral.ofDigits negative (first :: rest) e).value =
      Digits.value (first :: rest) * 10 ^ (e - rest.length) := by
  obtain ⟨zeros, hcoefficient, hpower, -⟩ := exists_coefficient_ofDigits negative first rest e
  have hten : (10 : ℚ) ≠ 0 := by norm_num
  rw [Numeral.value, hcoefficient, hpower]
  push_cast
  rw [mul_assoc, ← zpow_natCast, ← zpow_add₀ hten]
  congr 2
  omega

/-- The numeral of a double has the value of its decimal. -/
lemma value_ofDouble {x : Binary64} (hx : x.isFinite = true) (hzero : x.isZero = false) :
    (Numeral.ofDouble x).value = (Binary64.shortest .toEven x).value := by
  obtain ⟨hc, -, -⟩ := Binary64.bounds_shortest .toEven hx hzero
  obtain ⟨first, rest, zeros, hdigits, -⟩ := Decimal.exists_digits hc
  rw [Numeral.ofDouble, hzero, if_neg (by decide), Decimal.value_eq_digits hc, hdigits,
    value_ofDigits, List.length_cons]
  congr 2
  omega

/-! ## Reading the numeral -/

/-- Doubles below the three greatest ones have some steps to spare. -/
lemma units_le_of_magnitude {x : Binary64} (h : x.magnitude < infiniteMagnitude - 3) :
    x.units ≤ (2 ^ 53 - 4) * topStep := by
  rw [Binary64.infiniteMagnitude_eq] at h
  have hfield : Nat.pow 2 52 = 2 ^ 52 := rfl
  have htop := Binary64.topShift_eq
  have hunits : x.units = (if x.magnitude < 2 ^ 52 then x.magnitude
      else 2 ^ 52 + x.magnitude % 2 ^ 52) * 2 ^ (x.magnitude / 2 ^ 52 - 1) := by
    rw [← hfield]
    rfl
  rw [hunits]
  by_cases hs : x.magnitude / 2 ^ 52 - 1 < Binary64.topShift
  · have hpow : 2 * 2 ^ (x.magnitude / 2 ^ 52 - 1) ≤ topStep := by
      rw [← Nat.pow_succ']
      exact Binary64.two_pow_le_topStep hs
    have hsignificand : (if x.magnitude < 2 ^ 52 then x.magnitude
        else 2 ^ 52 + x.magnitude % 2 ^ 52) ≤ 2 * (2 ^ 53 - 4) := by
      split <;> omega
    refine Nat.le_trans (Nat.mul_le_mul_right _ hsignificand) ?_
    rw [Nat.mul_comm 2, Nat.mul_assoc]
    exact Nat.mul_le_mul_left _ hpow
  · refine Nat.mul_le_mul ?_ (Binary64.two_pow_le_topStep ?_)
    · rw [if_neg (by omega)]
      omega
    · omega

/-- Whether a numeral is read as a double does not depend on its sign. -/
lemma isSome_double?_ofDouble_neg (x : Binary64) :
    (Numeral.ofDouble x.neg).double?.isSome = (Numeral.ofDouble x).double?.isSome := by
  have hsign : ∀ (n : Numeral) (negative : Bool),
      ({ n with negative := negative } : Numeral).double?.isSome = n.double?.isSome := by
    intro n negative
    unfold Numeral.double?
    rw [Option.isSome_map, Option.isSome_map]
    rfl
  have hnumeral : Numeral.ofDouble x.neg =
      { Numeral.ofDouble x with negative := x.neg.negative } := by
    have hzero : x.neg.isZero = x.isZero := rfl
    unfold Numeral.ofDouble Numeral.ofDigits
    rw [hzero, Binary64.shortest_neg]
    split
    · rfl
    split
    · split
      · rfl
      split <;> rfl
    · rfl
  rw [hnumeral, hsign]

/-- The numerals of the three greatest doubles are read as doubles. -/
lemma exists_double?_ofDouble_greatest (negative : Bool) {j : Nat} (h : j < 3) :
    ((Numeral.ofDouble (Binary64.ofMagnitude negative (infiniteMagnitude - 1 - j))).double?).isSome
      = true := by
  have hall : ∀ j < 3, ((Numeral.ofDouble (Binary64.ofMagnitude false
      (infiniteMagnitude - 1 - j))).double?).isSome = true := by
    decide +kernel
  cases negative with
  | false => exact hall j h
  | true =>
    have hneg : Binary64.ofMagnitude true (infiniteMagnitude - 1 - j) =
        (Binary64.ofMagnitude false (infiniteMagnitude - 1 - j)).neg := by
      unfold Binary64.ofMagnitude
      split <;> rfl
    rw [hneg, isSome_double?_ofDouble_neg]
    exact hall j h

lemma length_whole_ofDigits (negative : Bool) (digits : List Char) (e : Int) :
    (Numeral.ofDigits negative digits e).whole.length ≤ 16 := by
  unfold Numeral.ofDigits
  split
  · split
    · simp
    split
    · simp only [List.length_append, List.length_replicate]
      omega
    · simp only [List.length_take]
      omega
  · simp only [List.length_take]
    omega

lemma value_exponent_ofDigits (negative : Bool) (digits : List Char) (e : Int) :
    Digits.value (Numeral.ofDigits negative digits e).exponent ≤ e.natAbs := by
  unfold Numeral.ofDigits
  split
  · have hnil : Digits.value [] ≤ e.natAbs := Nat.zero_le _
    split
    · exact hnil
    split
    · exact hnil
    · exact hnil
  · exact Nat.le_of_eq (Digits.value_ofNat _)

/-- The whole digits and the exponent of the numeral of a double are few. -/
lemma value_whole_ofDouble {x : Binary64} (hx : x.isFinite = true) :
    Digits.value (Numeral.ofDouble x).whole < Digits.word64 ∧
      Digits.value (Numeral.ofDouble x).exponent < 2 ^ 31 := by
  have hword : Digits.word64 = 2 ^ 64 := rfl
  have hfew : (Numeral.ofDouble x).whole.length ≤ 16 ∧
      Digits.value (Numeral.ofDouble x).exponent ≤ 400 := by
    unfold Numeral.ofDouble
    cases hzero : x.isZero with
    | true =>
      rw [if_pos rfl]
      exact ⟨(by decide : 1 ≤ 16), Nat.zero_le _⟩
    | false =>
      obtain ⟨-, hlow, hhigh⟩ := Binary64.bounds_shortest .toEven hx hzero
      rw [if_neg (by decide)]
      refine ⟨length_whole_ofDigits _ _ _, Nat.le_trans (value_exponent_ofDigits _ _ _) ?_⟩
      omega
  have hdigits : ∀ c ∈ (Numeral.ofDouble x).whole, c.isDigit = true := by
    rcases (wellFormed_ofDouble hx).whole with h | ⟨d, ds, h, -, hd, hds⟩
    · rw [h]
      exact List.forall_mem_singleton.2 rfl
    · rw [h]
      exact List.forall_mem_cons.2 ⟨hd, hds⟩
  have hvalue := Digits.value_lt _ hdigits
  have hpow : 10 ^ (Numeral.ofDouble x).whole.length ≤ 10 ^ 16 :=
    Nat.pow_le_pow_right (by decide) hfew.1
  exact ⟨by omega, by omega⟩

/-- **The numeral of a finite double is read as a double.**

**Proof sketch.** The decimal is at most half a step above the double, and reading rounds up twice
by at most one part in `2 ^ 53`. Only the three greatest doubles are too near to the bound for this
argument; for them the reading is computed. -/
theorem exists_double?_ofDouble {x : Binary64} (hx : x.isFinite = true) :
    ∃ y, (Numeral.ofDouble x).double? = some y := by
  obtain ⟨hwhole, hexponent⟩ := value_whole_ofDouble hx
  by_cases hgreat : x.magnitude < infiniteMagnitude - 3
  · refine exists_double? hwhole hexponent ?_
    cases hzero : x.isZero with
    | true =>
      have hvalue : Digits.value (['0'] ++ ['0']) = 0 := rfl
      unfold Numeral.ofDouble Numeral.value greatestSafe
      simp only [hzero, if_true, hvalue]
      rw [Nat.cast_zero, zero_mul]
      have hstep : (0 : ℚ) ≤ greatestStep := Nat.cast_nonneg _
      exact mul_nonneg (by norm_num) hstep
    | false =>
      rw [value_ofDouble hx hzero]
      have hle := Binary64.value_le_of_readsBack hx hzero
        (Binary64.readsBack_shortest .toEven hx hzero)
      have hunits : ((x.units : Nat) : ℚ) ≤ ((2 ^ 53 - 4) * topStep : Nat) := by
        exact_mod_cast units_le_of_magnitude hgreat
      have hunit : (0 : ℚ) < unitsPerOne := by exact_mod_cast Binary64.unitsPerOne_pos
      rw [Binary64.topStep_eq] at hle hunits
      push_cast at hle hunits
      unfold greatestSafe
      refine le_of_mul_le_mul_right ?_ hunit
      linarith
  · have hmagnitude : x.magnitude < infiniteMagnitude := by simpa [Binary64.isFinite] using hx
    have hinfinite := Binary64.infiniteMagnitude_eq
    have heq : x = Binary64.ofMagnitude x.negative
        (infiniteMagnitude - 1 - (infiniteMagnitude - 1 - x.magnitude)) := by
      rw [show infiniteMagnitude - 1 - (infiniteMagnitude - 1 - x.magnitude) = x.magnitude by omega,
        Binary64.ofMagnitude, dif_pos hmagnitude]
    rw [heq]
    exact Option.isSome_iff_exists.1 (exists_double?_ofDouble_greatest _ (by omega))

/-- **The double as which a finite double is read** once it has been written. -/
def reread (x : Binary64) : Binary64 := (Numeral.ofDouble x).double?.getD x

/-- **The numeral of a finite double is read as a double**, not as an integer. -/
theorem number?_ofDouble {x : Binary64} (hx : x.isFinite = true) :
    (Numeral.ofDouble x).number? = some (.double (reread x)) := by
  obtain ⟨y, hy⟩ := exists_double?_ofDouble hx
  have hinteger : (Numeral.ofDouble x).integer? = none := by
    refine if_neg ?_
    rintro ⟨hfraction, hscaled⟩
    unfold Numeral.ofDouble at hfraction hscaled
    split at hfraction
    · cases hfraction
    · next hzero =>
      have hzero : x.isZero = false := by simpa using hzero
      obtain ⟨hc, -, -⟩ := Binary64.bounds_shortest .toEven hx hzero
      obtain ⟨first, rest, -, hdigits, -⟩ := Decimal.exists_digits hc
      rw [hzero, if_neg (by decide), hdigits] at hscaled
      rw [hdigits] at hfraction
      unfold Numeral.ofDigits at hfraction hscaled
      split at hfraction
      · split at hfraction
        · simp at hfraction
        split at hfraction
        · cases hfraction
        · next hlong =>
          rw [List.drop_eq_nil_iff] at hfraction
          exact hlong hfraction
      · next hplain =>
        rw [if_neg hplain] at hscaled
        cases hscaled
  rw [Numeral.number?, hinteger, reread, hy]
  rfl

end Json

end PagedTopK
