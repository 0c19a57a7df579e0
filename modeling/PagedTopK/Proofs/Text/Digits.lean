import Mathlib.Algebra.Group.Nat.Defs
import Mathlib.Tactic.Lemma
import PagedTopK.Text.Digits

set_option autoImplicit false

/-!
# Numbers and their digits

## Main results

* `Digits.value_ofNat` — the digits of a number write that number.
* `Digits.exists_cons_ofNat` — they do not begin with zero.
-/

namespace PagedTopK.Digits

/-! ## Values -/

lemma value_eq_ofDigitChars (cs : List Char) : value cs = Nat.ofDigitChars 10 cs 0 := rfl

/-- Digits that follow others. -/
lemma value_append (cs ds : List Char) :
    value (cs ++ ds) = value cs * 10 ^ ds.length + value ds := by
  rw [value_eq_ofDigitChars, Nat.ofDigitChars_append, Nat.ofDigitChars_eq_ofDigitChars_zero,
    Nat.mul_comm]
  rfl

lemma value_replicate_zero (n : Nat) : value (List.replicate n '0') = 0 := by
  rw [value_eq_ofDigitChars, Nat.ofDigitChars_replicate_zero, Nat.mul_zero]

/-- Zeros before the digits do not count. -/
lemma value_replicate_zero_append (n : Nat) (cs : List Char) :
    value (List.replicate n '0' ++ cs) = value cs := by
  rw [value_append, value_replicate_zero, Nat.zero_mul, Nat.zero_add]

/-- Zeros after the digits are a power of ten. -/
lemma value_append_replicate_zero (cs : List Char) (n : Nat) :
    value (cs ++ List.replicate n '0') = value cs * 10 ^ n := by
  rw [value_append, value_replicate_zero, List.length_replicate, Nat.add_zero]

/-- **The digits of a number write that number.** -/
lemma value_ofNat (n : Nat) : value (ofNat n) = n := Nat.ofDigitChars_ten_toDigits

/-! ## Digits -/

lemma isDigit_of_mem_ofNat {n : Nat} {c : Char} (h : c ∈ ofNat n) : c.isDigit = true :=
  Nat.isDigit_of_mem_toDigits (by decide) (by decide) h

/-- **The digits of a positive number do not begin with zero.** -/
lemma exists_cons_ofNat {n : Nat} (h : 0 < n) :
    ∃ d ds, ofNat n = d :: ds ∧ d ≠ '0' ∧ d.isDigit = true ∧ ∀ c ∈ ds, c.isDigit = true := by
  obtain ⟨d, ds, hcons, hd⟩ : ∃ d ds, ofNat n = d :: ds ∧ d ≠ '0' := by
    induction n using Nat.strongRecOn with
    | ind n ih =>
      unfold ofNat at ih ⊢
      rw [Nat.toDigits_eq_if (by decide)]
      split
      · next hlt =>
        have hne : ∀ k < 10, 0 < k → Nat.digitChar k ≠ '0' := by decide
        exact ⟨n.digitChar, [], rfl, hne n hlt h⟩
      · next hge =>
        obtain ⟨d, ds, hcons, hd⟩ := ih (n / 10) (by omega) (by omega)
        exact ⟨d, ds ++ [(n % 10).digitChar], by rw [hcons]; rfl, hd⟩
  refine ⟨d, ds, hcons, hd, isDigit_of_mem_ofNat (n := n) ?_, fun c hc =>
    isDigit_of_mem_ofNat (n := n) ?_⟩
  · rw [hcons]
    exact List.mem_cons_self
  · rw [hcons]
    exact List.mem_cons_of_mem d hc

/-! ## Lengths -/

lemma length_le_iff {n k : Nat} (h : 0 < k) : length n ≤ k ↔ n < 10 ^ k :=
  Nat.length_toDigits_le_iff (by decide) h

lemma length_mono {m n : Nat} (h : m ≤ n) : length m ≤ length n := by
  have hpos : 0 < length n := Nat.length_toDigits_pos
  rw [length_le_iff hpos]
  exact Nat.lt_of_le_of_lt h ((length_le_iff hpos).1 (Nat.le_refl _))

lemma value_lt (cs : List Char) (h : ∀ c ∈ cs, c.isDigit = true) : value cs < 10 ^ cs.length := by
  induction cs with
  | nil => decide
  | cons c rest ih =>
    have hrest := ih fun d hd => h d (List.mem_cons_of_mem c hd)
    have hc : digitValue c < 10 := by
      have hdigit := h c List.mem_cons_self
      simp only [Char.isDigit, Bool.and_eq_true, decide_eq_true_eq] at hdigit
      have hle : c.toNat ≤ '9'.toNat := hdigit.2
      have hnine : '9'.toNat = 57 := rfl
      have hzero : '0'.toNat = 48 := rfl
      unfold digitValue
      omega
    have hsplit : value (c :: rest) = digitValue c * 10 ^ rest.length + value rest := by
      have := value_append [c] rest
      simpa [value] using this
    rw [hsplit, List.length_cons, Nat.pow_succ]
    have := Nat.mul_le_mul_right (10 ^ rest.length) (Nat.le_of_lt_succ hc)
    omega

end PagedTopK.Digits
