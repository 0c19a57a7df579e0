import Mathlib.Data.List.Basic
import Mathlib.Tactic.Lemma
import PagedTopK.Encoding.Sha256

set_option autoImplicit false

/-!
# Digests in hexadecimal digits

The digits of a digest are those of its words, eight for each, so nothing is lost in writing them.

## Main results

* `Sha256.hexDigest_inj` — digests with the same digits are the same.
-/

namespace PagedTopK.Sha256

lemma length_hexWord (x : UInt32) : (hexWord x).length = 8 := by simp [hexWord]

/-- Hexadecimal digits are told apart. -/
lemma digitChar_inj : ∀ m < 16, ∀ n < 16, Nat.digitChar m = Nat.digitChar n → m = n := by decide

/-- Numbers of eight digits with the same digits are the same. -/
lemma eq_of_digits {m n : Nat} (hm : m < 4294967296) (hn : n < 4294967296)
    (h : ∀ i < 8, m / Nat.pow 16 (7 - i) % 16 = n / Nat.pow 16 (7 - i) % 16) : m = n := by
  have h0 : m / 1 % 16 = n / 1 % 16 := h 7 (by decide)
  have h1 : m / 16 % 16 = n / 16 % 16 := h 6 (by decide)
  have h2 : m / 256 % 16 = n / 256 % 16 := h 5 (by decide)
  have h3 : m / 4096 % 16 = n / 4096 % 16 := h 4 (by decide)
  have h4 : m / 65536 % 16 = n / 65536 % 16 := h 3 (by decide)
  have h5 : m / 1048576 % 16 = n / 1048576 % 16 := h 2 (by decide)
  have h6 : m / 16777216 % 16 = n / 16777216 % 16 := h 1 (by decide)
  have h7 : m / 268435456 % 16 = n / 268435456 % 16 := h 0 (by decide)
  omega

/-- **Words with the same digits are the same.** -/
lemma hexWord_inj {x y : UInt32} (h : hexWord x = hexWord y) : x = y := by
  refine UInt32.toNat_inj.1 (eq_of_digits x.toNat_lt y.toNat_lt fun i hi => ?_)
  have hchars := List.map_inj_left.1 h i (List.mem_range.2 hi)
  exact digitChar_inj _ (Nat.mod_lt _ (by decide)) _ (Nat.mod_lt _ (by decide)) hchars

/-- So are sequences of words. -/
lemma flatMap_hexWord_inj {xs ys : List UInt32} (h : xs.flatMap hexWord = ys.flatMap hexWord) :
    xs = ys := by
  induction xs generalizing ys with
  | nil =>
    cases ys with
    | nil => rfl
    | cons y ys =>
      have hlength := congrArg List.length h
      rw [List.flatMap_nil, List.flatMap_cons, List.length_append, length_hexWord] at hlength
      simp only [List.length_nil] at hlength
      omega
  | cons x xs ih =>
    cases ys with
    | nil =>
      have hlength := congrArg List.length h
      rw [List.flatMap_nil, List.flatMap_cons, List.length_append, length_hexWord] at hlength
      simp only [List.length_nil] at hlength
      omega
    | cons y ys =>
      rw [List.flatMap_cons, List.flatMap_cons] at h
      obtain ⟨hfirst, hrest⟩ := List.append_inj h
        ((length_hexWord x).trans (length_hexWord y).symm)
      rw [hexWord_inj hfirst, ih hrest]

/-- **Digests with the same digits are the same.** -/
theorem hexDigest_inj {a b : List UInt8} (h : hexDigest a = hexDigest b) : digest a = digest b :=
  flatMap_hexWord_inj (String.ofList_injective h)

end PagedTopK.Sha256
