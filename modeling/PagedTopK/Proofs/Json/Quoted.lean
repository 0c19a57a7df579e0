import PagedTopK.Json.Token
import PagedTopK.Proofs.Encoding.Utf8
import PagedTopK.Json.Scanner

set_option autoImplicit false

/-!
# Scanning quoted texts

Every character is written in one of three ways: as it is, with an escape of one letter, or with its
code in hexadecimal digits. The scanner reads its code in each of them.

## Main results

* `Json.foldl_step_quoted` — the scanner after a quoted text.
-/

namespace PagedTopK.Json

/-! ## Code units -/

/-- The code of a character is half of no surrogate pair. -/
lemma joinUnit_char (c : Char) (cs : List Char) :
    joinUnit (some (cs, none)) c.toNat = some (c :: cs, none) := by
  have hbounds := Utf8.toNat_bounds c
  have hlow : isLowSurrogate c.toNat = false := by
    simp only [isLowSurrogate, Bool.and_eq_false_iff, decide_eq_false_iff_not]
    omega
  have hhigh : isHighSurrogate c.toNat = false := by
    simp only [isHighSurrogate, Bool.and_eq_false_iff, decide_eq_false_iff_not]
    omega
  simp [joinUnit, hlow, hhigh]

/-- The codes of the characters of a text make that text. -/
lemma textOfUnits_reverse (s : String) :
    textOfUnits (s.toList.map Char.toNat).reverse = .text s := by
  have hjoin : ∀ cs : List Char,
      (cs.map Char.toNat).reverse.foldl joinUnit (some ([], none)) = some (cs, none) := by
    intro cs
    induction cs with
    | nil => rfl
    | cons c cs ih =>
      rw [List.map_cons, List.reverse_cons, List.foldl_append, ih]
      exact joinUnit_char c cs
  rw [textOfUnits, hjoin]
  simp

/-! ## Characters -/

section Steps

variable {ts : List Token}

/-- A control character is written with its code. -/
lemma foldl_step_control {c : Char} (h : c.toNat < 0x20) (units : List Nat) :
    ['\\', 'u', '0', '0', hexDigit (c.toNat / 16), hexDigit (c.toNat % 16)].foldl Scanner.step
        ⟨ts, .quoted units⟩ =
      ⟨ts, .quoted (c.toNat :: units)⟩ := by
  have hdigit : ∀ n < 16, hexValue? (hexDigit n) = some n := by decide
  have hcode : 16 * (c.toNat / 16) + c.toNat % 16 = c.toNat := Nat.div_add_mod c.toNat 16
  have hfirst := hdigit (c.toNat / 16) (by omega)
  have hsecond := hdigit (c.toNat % 16) (by omega)
  simp only [List.foldl_cons, List.foldl_nil]
  simp [Scanner.step, hfirst, hsecond, hcode, show hexValue? '0' = some 0 from rfl]

/-- **The scanner reads a character back**, in whichever way it is written. -/
lemma foldl_step_escaped (c : Char) (units : List Nat) :
    (escaped c).foldl Scanner.step ⟨ts, .quoted units⟩ = ⟨ts, .quoted (c.toNat :: units)⟩ := by
  unfold escaped
  split
  · next h => subst h; rfl
  split
  · next h => subst h; rfl
  split
  · next h => subst h; rfl
  split
  · next h => subst h; rfl
  split
  · next h => subst h; rfl
  split
  · next h => subst h; rfl
  split
  · next h => subst h; rfl
  split
  · next h => exact foldl_step_control h units
  · next hquote hslash _ _ _ _ _ hcontrol =>
    simp only [List.foldl_cons, List.foldl_nil, Scanner.step]
    rw [if_neg hquote, if_neg hslash, if_neg hcontrol]

/-- **The scanner after a quoted text** has the token of that text. -/
theorem foldl_step_quoted (s : String) :
    (quoted s).foldl Scanner.step ⟨ts, .between⟩ = ⟨.scalar (.text s) :: ts, .between⟩ := by
  have hinside : ∀ (cs : List Char) (units : List Nat),
      (cs.flatMap escaped).foldl Scanner.step ⟨ts, .quoted units⟩ =
        ⟨ts, .quoted ((cs.map Char.toNat).reverse ++ units)⟩ := by
    intro cs
    induction cs with
    | nil => exact fun units => rfl
    | cons c cs ih =>
      intro units
      rw [List.flatMap_cons, List.foldl_append, foldl_step_escaped, ih]
      simp
  have hopen : Scanner.step ⟨ts, .between⟩ '"' = ⟨ts, .quoted []⟩ := rfl
  have hclose : ∀ units, Scanner.step ⟨ts, .quoted units⟩ '"' =
      ⟨.scalar (textOfUnits units) :: ts, .between⟩ := fun _ => rfl
  rw [quoted, List.cons_append, List.foldl_cons, hopen, List.foldl_append, hinside,
    List.append_nil, List.foldl_cons, hclose, textOfUnits_reverse, List.foldl_nil]

end Steps

end PagedTopK.Json
