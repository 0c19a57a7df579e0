import PagedTopK.Proofs.Binary64.Shortest

set_option autoImplicit false

/-!
# Digits of decimals

What is written of a decimal are its digits without the zeros at the end, and the power of ten of
the first of them.

## Main results

* `Decimal.exists_digits` — the digits of a decimal do not begin with zero.
* `Decimal.value_eq_digits` — they and the power of ten make the number.
-/

namespace PagedTopK.Decimal

/-- The digits of a decimal are those of its coefficient, without the zeros at the end. -/
lemma exists_digits {d : Decimal} (h : d.coefficient ≠ 0) :
    ∃ first rest zeros, d.digits = first :: rest ∧ first ≠ '0' ∧ first.isDigit = true ∧
      (∀ c ∈ rest, c.isDigit = true) ∧
      Digits.ofNat d.coefficient = d.digits ++ List.replicate zeros '0' := by
  obtain ⟨first, rest, hcons, hne, hfirst, hrest⟩ :=
    Digits.exists_cons_ofNat (Nat.pos_of_ne_zero h)
  have hsplit : Digits.ofNat d.coefficient = d.digits ++
      List.replicate ((Digits.ofNat d.coefficient).reverse.takeWhile (· == '0')).length '0' := by
    have hzeros : ((Digits.ofNat d.coefficient).reverse.takeWhile (· == '0')).reverse =
        List.replicate ((Digits.ofNat d.coefficient).reverse.takeWhile (· == '0')).length '0' := by
      rw [List.eq_replicate_iff]
      refine ⟨List.length_reverse, fun c hc => ?_⟩
      exact eq_of_beq (List.all_eq_true.1 List.all_takeWhile c (List.mem_reverse.1 hc))
    rw [← hzeros, Decimal.digits, ← List.reverse_append, List.takeWhile_append_dropWhile,
      List.reverse_reverse]
  rw [hcons] at hsplit
  generalize ((first :: rest).reverse.takeWhile (· == '0')).length = zeros at hsplit
  cases hdigits : d.digits with
  | nil =>
    rw [hdigits, List.nil_append] at hsplit
    have hmem : first ∈ List.replicate zeros '0' := hsplit ▸ List.mem_cons_self
    exact absurd (List.eq_of_mem_replicate hmem) hne
  | cons own others =>
    rw [hdigits, List.cons_append, List.cons.injEq] at hsplit
    obtain ⟨rfl, hrest'⟩ := hsplit
    refine ⟨first, others, zeros, rfl, hne, hfirst, fun c hc => hrest c ?_, ?_⟩
    · rw [hrest']
      exact List.mem_append_left _ hc
    · rw [hcons, hrest', List.cons_append]

/-- **A decimal is the number of its digits, with the first one at its power of ten.** -/
lemma value_eq_digits {d : Decimal} (h : d.coefficient ≠ 0) :
    d.value = Digits.value d.digits * 10 ^ (d.leadingExponent + 1 - d.digits.length) := by
  obtain ⟨first, rest, zeros, -, -, -, -, hall⟩ := exists_digits h
  have hten : (10 : ℚ) ≠ 0 := by norm_num
  have hcoefficient : d.coefficient = Digits.value d.digits * 10 ^ zeros := by
    rw [← Digits.value_append_replicate_zero, ← hall, Digits.value_ofNat]
  have hleading : d.leadingExponent = d.exponent + (d.digits.length + zeros : Nat) - 1 := by
    rw [leadingExponent, Digits.length, hall, List.length_append, List.length_replicate]
  rw [hleading, value]
  nth_rewrite 1 [hcoefficient]
  push_cast
  rw [mul_assoc, ← zpow_natCast, ← zpow_add₀ hten]
  congr 2
  omega

end PagedTopK.Decimal
