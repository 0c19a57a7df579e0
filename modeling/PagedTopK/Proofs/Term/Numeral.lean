import PagedTopK.Proofs.Binary64.Order
import PagedTopK.Proofs.Text.Blank
import PagedTopK.Term.SortValue

set_option autoImplicit false

/-!
# Numerals in terms

A numeral stands for a rational number. In a term it may stand bare or in quotes with a numeric
datatype, which has several spellings.

## Main definitions

* `Term.Numeral` — a decimal numeral: its parts, its text and its value.
* `Term.NumericTag` — a numeric datatype in one of its spellings.

## Main results

* `Term.Numeral.ofText?_text` — a numeral is read as the decimal that it writes.
* `Term.isNumericTag_iff` — the spellings are all that count as numeric datatypes.
-/

namespace PagedTopK

namespace Term

/-! ## Numerals -/

/-- **The sign of a numeral**, if it has one. -/
inductive Sign where
  | none
  | plus
  | minus
deriving DecidableEq

namespace Sign

/-- How a sign is written. -/
def text : Sign → List Char
  | none => []
  | plus => ['+']
  | minus => ['-']

/-- Whether a sign is a minus sign. -/
def isMinus : Sign → Bool
  | minus => true
  | _ => false

end Sign

/-- **The exponent of a numeral**: a letter, perhaps a sign, and digits. -/
structure Exponent where
  /-- The letter. -/
  letter : Char
  /-- The letter is an `e` of either case. -/
  letter_eq : letter = 'e' ∨ letter = 'E'
  /-- The sign. -/
  sign : Sign
  /-- The digits. -/
  digits : List Char
  /-- There are digits and nothing else. -/
  isDigit : ∀ c ∈ digits, c.isDigit = true
  /-- There is one at least. -/
  digits_ne : digits ≠ []

namespace Exponent

/-- How an exponent is written. -/
def text (e : Exponent) : List Char := e.letter :: (e.sign.text ++ e.digits)

/-- The number that an exponent writes. -/
def value (e : Exponent) : Int :=
  if e.sign.isMinus then -(Digits.value e.digits : Int) else Digits.value e.digits

end Exponent

/-- **A decimal numeral**: perhaps a sign, digits with or without a point among them, and perhaps an
exponent. -/
structure Numeral where
  /-- The sign. -/
  sign : Sign
  /-- The digits before the point. -/
  whole : List Char
  /-- The digits after the point, if there is a point. -/
  fraction? : Option (List Char)
  /-- The exponent. -/
  exponent? : Option Exponent
  /-- Before the point there are digits and nothing else. -/
  whole_isDigit : ∀ c ∈ whole, c.isDigit = true
  /-- So there are after the point. -/
  fraction_isDigit : ∀ c ∈ fraction?.getD [], c.isDigit = true
  /-- There is one digit at least. -/
  hasDigit : whole ≠ [] ∨ fraction?.getD [] ≠ []

namespace Numeral

variable (n : Numeral)

/-- The digits after the point. -/
def fraction : List Char := n.fraction?.getD []

/-- The power of ten that the exponent stands for. -/
def power : Int := n.exponent?.elim 0 Exponent.value

/-- A numeral from the point on. -/
def afterWhole : List Char :=
  n.fraction?.elim [] ('.' :: ·) ++ n.exponent?.elim [] Exponent.text

/-- **How a numeral is written.** -/
def text : List Char := n.sign.text ++ (n.whole ++ n.afterWhole)

/-- The number that a numeral stands for, its sign aside. -/
def absolute : ℚ :=
  (Digits.value n.whole + Digits.value n.fraction / 10 ^ n.fraction.length) * 10 ^ n.power

/-- **The number that a numeral stands for.** -/
def value : ℚ := if n.sign.isMinus then -n.absolute else n.absolute

/-- The decimal that a numeral writes, its sign aside. -/
def decimal : Decimal :=
  ⟨Digits.value (n.whole ++ n.fraction), n.power - n.fraction.length⟩

/-! ## Reading numerals -/

lemma absolute_nonneg : 0 ≤ n.absolute := by
  refine mul_nonneg (add_nonneg (Nat.cast_nonneg _) ?_) (zpow_nonneg (by norm_num) _)
  exact div_nonneg (Nat.cast_nonneg _) (pow_nonneg (by norm_num) _)

lemma abs_value : |n.value| = n.absolute := by
  unfold value
  split
  · rw [abs_neg, abs_of_nonneg n.absolute_nonneg]
  · rw [abs_of_nonneg n.absolute_nonneg]

/-- The digits and the power of ten make the same number. -/
lemma value_decimal : n.decimal.value = n.absolute := by
  have hten : (10 : ℚ) ≠ 0 := by norm_num
  have hscale : (10 : ℚ) ^ n.fraction.length ≠ 0 := pow_ne_zero _ hten
  rw [Decimal.value, decimal, Digits.value_append, zpow_sub₀ hten, zpow_natCast, absolute]
  push_cast
  rw [mul_div_assoc', mul_div_right_comm, add_div, mul_div_cancel_right₀ _ hscale]

/-- What follows the digits of a numeral begins with the letter of its exponent. -/
lemma head?_exponent {c : Char} (h : c ∈ (n.exponent?.elim [] Exponent.text).head?) :
    c = 'e' ∨ c = 'E' := by
  cases hexponent : n.exponent? with
  | none =>
    rw [hexponent] at h
    cases h
  | some e =>
    rw [hexponent] at h
    cases h
    exact e.letter_eq

lemma isDigit_head?_exponent {c : Char} (h : c ∈ (n.exponent?.elim [] Exponent.text).head?) :
    c.isDigit = false := by
  rcases n.head?_exponent h with rfl | rfl <;> rfl

/-- A digit is no letter. -/
lemma toLower_of_isDigit {c : Char} (h : c.isDigit = true) : c.toLower = c := by
  simp only [Char.isDigit, Bool.and_eq_true, decide_eq_true_eq] at h
  unfold Char.toLower
  rw [dif_neg]
  intro hupper
  exact absurd (UInt32.le_trans hupper.1 h.2) (by decide)

/-- A digit is no sign. -/
lemma ne_sign_of_isDigit {c : Char} (h : c.isDigit = true) : c ≠ '-' ∧ c ≠ '+' := by
  constructor <;> rintro rfl <;> cases h

lemma exponentPart?_text :
    Binary64.exponentPart? (n.exponent?.elim [] Exponent.text) = some n.power := by
  unfold power
  cases n.exponent? with
  | none => rfl
  | some e =>
    obtain ⟨d, ds, hds⟩ := List.exists_cons_of_ne_nil e.digits_ne
    obtain ⟨hminus, hplus⟩ := ne_sign_of_isDigit (e.isDigit d (hds ▸ List.mem_cons_self))
    have hletter : (e.letter == 'e' || e.letter == 'E') = true := by
      rcases e.letter_eq with h | h <;> rw [h] <;> rfl
    have hall : e.digits.all Char.isDigit = true := List.all_eq_true.2 e.isDigit
    simp only [Option.elim_some, Exponent.text, Binary64.exponentPart?, hletter, if_true]
    rw [Exponent.value]
    rw [hds] at hall ⊢
    cases e.sign with
    | minus => simp [Sign.text, Sign.isMinus, hall]
    | plus => simp [Sign.text, Sign.isMinus, hall]
    | none => simp [Sign.text, Sign.isMinus, hall, hminus, hplus]

lemma unsignedNumeral?_text :
    Binary64.unsignedNumeral? (n.whole ++ n.afterWhole) = some n.decimal := by
  have hrest : ∀ c ∈ n.afterWhole.head?, c.isDigit = false := by
    intro c hc
    unfold afterWhole at hc
    cases hfraction : n.fraction? with
    | none =>
      rw [hfraction] at hc
      exact n.isDigit_head?_exponent hc
    | some digits =>
      rw [hfraction] at hc
      cases hc
      rfl
  have hdigits : ¬ (n.whole = [] ∧ n.fraction = []) := by
    rintro ⟨hwhole, hfraction⟩
    rcases n.hasDigit with h | h
    · exact h hwhole
    · exact h hfraction
  have hpower := n.exponentPart?_text
  unfold Binary64.unsignedNumeral? decimal
  simp only [Text.takeWhile_run n.whole_isDigit hrest, Text.dropWhile_run n.whole_isDigit hrest]
  unfold afterWhole
  cases hpoint : n.fraction? with
  | some digits =>
    have hfraction : n.fraction = digits := by rw [fraction, hpoint]; rfl
    have hisDigit : ∀ c ∈ digits, c.isDigit = true := hfraction ▸ n.fraction_isDigit
    have htake := Text.takeWhile_run hisDigit fun c hc => n.isDigit_head?_exponent hc
    have hdrop := Text.dropWhile_run hisDigit fun c hc => n.isDigit_head?_exponent hc
    rw [Option.elim_some, List.cons_append]
    simp only [htake, hdrop]
    rw [← hfraction, if_neg hdigits, hpower]
    rfl
  | none =>
    have hfraction : n.fraction = [] := by rw [fraction, hpoint]; rfl
    rw [Option.elim_none, List.nil_append]
    split
    · next more heq =>
      have hletter := n.head?_exponent (c := '.') (by rw [heq]; rfl)
      rcases hletter with h | h <;> cases h
    · rw [hfraction] at hdigits ⊢
      dsimp only
      rw [if_neg hdigits, hpower]
      rfl

/-- The first character behind the sign is a digit or the point. -/
lemma exists_body :
    ∃ c rest, n.whole ++ n.afterWhole = c :: rest ∧ (c.isDigit = true ∨ c = '.') := by
  cases hwhole : n.whole with
  | cons d ds => exact ⟨d, _, rfl, .inl (n.whole_isDigit d (hwhole ▸ List.mem_cons_self))⟩
  | nil =>
    have hfraction := n.hasDigit.resolve_left (not_not_intro hwhole)
    cases hpoint : n.fraction? with
    | none =>
      rw [hpoint] at hfraction
      exact absurd rfl hfraction
    | some digits =>
      refine ⟨'.', digits ++ n.exponent?.elim [] Exponent.text, ?_, .inr rfl⟩
      rw [afterWhole, hpoint]
      rfl

/-- **A numeral is read as the decimal that it writes.** -/
lemma ofText?_text :
    Binary64.ofText? n.text = some (Binary64.ofDecimal n.sign.isMinus n.decimal) := by
  obtain ⟨c, rest, hbody, hc⟩ := n.exists_body
  have hsign : c ≠ '-' ∧ c ≠ '+' := by
    rcases hc with h | rfl
    · exact ne_sign_of_isDigit h
    · decide
  -- A numeral is none of the names in letters.
  have hfirst : c.toLower = c ∧ c ≠ 'i' ∧ c ≠ 'n' := by
    rcases hc with h | rfl
    · refine ⟨toLower_of_isDigit h, ?_, ?_⟩ <;> rintro rfl <;> cases h
    · decide
  obtain ⟨hlower, hi, hn⟩ := hfirst
  have hcons : Binary64.lowerAscii (c :: rest) = c :: Binary64.lowerAscii rest := by
    rw [Binary64.lowerAscii, List.map_cons, hlower]
    rfl
  have hnumeral := n.unsignedNumeral?_text
  unfold text Binary64.ofText?
  rw [hbody] at hnumeral ⊢
  cases n.sign with
  | minus => simp [Sign.text, Sign.isMinus, hcons, hi, hn, hnumeral]
  | plus => simp [Sign.text, Sign.isMinus, hcons, hi, hn, hnumeral]
  | none => simp [Sign.text, Sign.isMinus, hcons, hi, hn, hnumeral, hsign]

/-! ## Characters of numerals -/

/-- **The characters of numerals.** -/
def IsCharacter (c : Char) : Prop :=
  c.isDigit = true ∨ c ∈ ['+', '-', '.', 'e', 'E']

lemma isCharacter_sign {s : Sign} {c : Char} (h : c ∈ s.text) : IsCharacter c := by
  cases s <;> simp [Sign.text] at h <;> simp [IsCharacter, h]

lemma isCharacter_of_mem_text {c : Char} (h : c ∈ n.text) : IsCharacter c := by
  have hexponent : ∀ c ∈ n.exponent?.elim [] Exponent.text, IsCharacter c := by
    intro c hc
    cases hwritten : n.exponent? with
    | none =>
      rw [hwritten] at hc
      cases hc
    | some e =>
      rw [hwritten, Option.elim_some, Exponent.text, List.mem_cons, List.mem_append] at hc
      rcases hc with rfl | hc | hc
      · rcases e.letter_eq with h | h <;> simp [IsCharacter, h]
      · exact isCharacter_sign hc
      · exact .inl (e.isDigit c hc)
  rw [text, afterWhole, List.mem_append, List.mem_append, List.mem_append] at h
  rcases h with h | h | h | h
  · exact isCharacter_sign h
  · exact .inl (n.whole_isDigit c h)
  · have hfraction := n.fraction_isDigit
    cases hpoint : n.fraction? with
    | none =>
      rw [hpoint] at h
      cases h
    | some digits =>
      rw [hpoint] at h hfraction
      rcases List.mem_cons.1 h with rfl | h
      · simp [IsCharacter]
      · exact .inl (hfraction c h)
  · exact hexponent c h

/-- No character of a numeral is blank. -/
lemma IsCharacter.isBlank {c : Char} (h : IsCharacter c) : Text.isBlank c = false := by
  rcases h with h | h
  · have hbounds : 0x30 ≤ c.toNat ∧ c.toNat ≤ 0x39 := by
      simpa [Char.isDigit, UInt32.le_iff_toNat_le] using h
    by_contra hblank
    simp only [Text.isBlank, Bool.not_eq_false, Bool.or_eq_true, Bool.and_eq_true,
      decide_eq_true_eq, beq_iff_eq] at hblank
    omega
  · simp only [List.mem_cons, List.not_mem_nil, or_false] at h
    rcases h with rfl | rfl | rfl | rfl | rfl <;> rfl

lemma text_ne : n.text ≠ [] := by
  obtain ⟨c, rest, hbody, -⟩ := n.exists_body
  rw [text, hbody]
  simp

/-- **The finite number that a numeral writes**, if it is not beyond all doubles. -/
lemma number?_text :
    SortValue.number? n.text =
      (some (Binary64.ofDecimal n.sign.isMinus n.decimal)).filter Binary64.isFinite := by
  have htrim : Text.trim n.text = n.text :=
    Text.trim_eq_self (fun c hc => (n.isCharacter_of_mem_text (List.mem_of_mem_head? hc)).isBlank)
      fun c hc => (n.isCharacter_of_mem_text (List.mem_of_getLast? hc)).isBlank
  rw [SortValue.number?, htrim, n.ofText?_text]

end Numeral

/-! ## Numeric datatypes -/

/-- **A numeric datatype in one of its spellings**: any number of opening brackets, the namespace or
its short form or nothing, the local name, and any number of closing brackets. -/
structure NumericTag where
  /-- How many opening brackets there are. -/
  opening : Nat
  /-- What stands before the local name. -/
  space : String
  /-- It is the namespace, its short form, or nothing. -/
  space_mem : space ∈ [SortValue.datatypeNamespace, "xsd:", ""]
  /-- The local name. -/
  name : String
  /-- It is that of a numeric type. -/
  name_mem : name ∈ SortValue.numericTypes
  /-- How many closing brackets there are. -/
  closing : Nat

/-- How a numeric datatype is written. -/
def NumericTag.text (t : NumericTag) : List Char :=
  "^^".toList ++ (List.replicate t.opening '<' ++
    (t.space.toList ++ t.name.toList ++ List.replicate t.closing '>'))

lemma stripStart?_append (start rest : List Char) :
    Text.stripStart? start (start ++ rest) = some rest := by
  rw [Text.stripStart?, if_pos (List.isPrefixOf_iff_prefix.2 (List.prefix_append start rest)),
    List.drop_left]

lemma eq_append_of_stripStart? {start cs rest : List Char}
    (h : Text.stripStart? start cs = some rest) : cs = start ++ rest := by
  rw [Text.stripStart?] at h
  split at h
  · next hprefix =>
    obtain ⟨tail, rfl⟩ := List.isPrefixOf_iff_prefix.1 hprefix
    cases h
    rw [List.drop_left]
  · cases h

/-- What is dropped at the beginning is one character over and over. -/
lemma exists_dropWhile_beq (c : Char) (cs : List Char) :
    ∃ k, cs = List.replicate k c ++ cs.dropWhile (· == c) := by
  refine ⟨(cs.takeWhile (· == c)).length, ?_⟩
  have hall : ∀ d ∈ cs.takeWhile (· == c), d = c := fun d hd =>
    eq_of_beq (List.all_eq_true.1 List.all_takeWhile d hd)
  rw [← List.eq_replicate_of_mem hall, List.takeWhile_append_dropWhile]

/-- So it is at the end. -/
lemma exists_dropWhileEnd_beq (c : Char) (cs : List Char) :
    ∃ k, cs = Text.dropWhileEnd (· == c) cs ++ List.replicate k c := by
  obtain ⟨k, hk⟩ := exists_dropWhile_beq c cs.reverse
  refine ⟨k, ?_⟩
  rw [Text.dropWhileEnd, ← List.reverse_replicate, ← List.reverse_append, ← hk,
    List.reverse_reverse]

/-- Every spelling without brackets counts, and it begins and ends with none. -/
lemma isNumericTag_bare : ∀ space ∈ [SortValue.datatypeNamespace, "xsd:", ""],
    ∀ name ∈ SortValue.numericTypes,
      (space.toList ++ name.toList).head?.all (· != '<') = true ∧
      (space.toList ++ name.toList).getLast?.all (· != '>') = true ∧
      SortValue.isNumericTag ("^^".toList ++ (space.toList ++ name.toList)) = true := by
  decide +kernel

/-- The brackets around a name are left out. -/
lemma strip_brackets {bare : List Char} (hfirst : bare.head?.all (· != '<') = true)
    (hlast : bare.getLast?.all (· != '>') = true) (k m : Nat) :
    Text.dropWhileEnd (· == '>')
      ((List.replicate k '<' ++ (bare ++ List.replicate m '>')).dropWhile (· == '<')) = bare := by
  have hstart : (List.replicate k '<' ++ (bare ++ List.replicate m '>')).dropWhile (· == '<') =
      bare ++ List.replicate m '>' := by
    refine Text.dropWhile_run (fun c hc => ?_) (fun c hc => ?_)
    · exact beq_iff_eq.2 (List.eq_of_mem_replicate hc)
    · rw [List.head?_append, Option.mem_def, Option.or_eq_some_iff] at hc
      rcases hc with hc | ⟨-, hc⟩
      · rw [hc] at hfirst
        simpa using hfirst
      · have hbracket := List.eq_of_mem_replicate (List.mem_of_mem_head? hc)
        rw [hbracket]
        rfl
  rw [hstart, Text.dropWhileEnd, List.reverse_append, Text.dropWhile_run, List.reverse_reverse]
  · intro c hc
    exact beq_iff_eq.2 (List.eq_of_mem_replicate (List.mem_reverse.1 hc))
  · intro c hc
    rw [List.head?_reverse, Option.mem_def] at hc
    rw [hc] at hlast
    simpa using hlast

/-- A name that counts has the namespace before it, its short form, or nothing. -/
lemma exists_space_name {bare : List Char}
    (h : SortValue.numericTypes.contains (String.ofList
      (match Text.stripStart? SortValue.datatypeNamespace.toList bare with
        | some rest => rest
        | none => (Text.stripStart? "xsd:".toList bare).getD bare)) = true) :
    ∃ space ∈ [SortValue.datatypeNamespace, "xsd:", ""],
      ∃ name ∈ SortValue.numericTypes, bare = space.toList ++ name.toList := by
  cases hfull : Text.stripStart? SortValue.datatypeNamespace.toList bare with
  | some rest =>
    simp only [hfull, List.contains_iff_mem] at h
    have hrest : (String.ofList rest).toList = rest := String.toList_ofList
    exact ⟨SortValue.datatypeNamespace, List.mem_cons_self, _, h,
      hrest.symm ▸ eq_append_of_stripStart? hfull⟩
  | none =>
    cases hshort : Text.stripStart? "xsd:".toList bare with
    | some rest =>
      simp only [hfull, hshort, Option.getD_some, List.contains_iff_mem] at h
      have hrest : (String.ofList rest).toList = rest := String.toList_ofList
      exact ⟨"xsd:", by simp, _, h, hrest.symm ▸ eq_append_of_stripStart? hshort⟩
    | none =>
      simp only [hfull, hshort, Option.getD_none, List.contains_iff_mem] at h
      exact ⟨"", by simp, _, h, by simp⟩

/-- **The spellings are all that count as numeric datatypes.** -/
theorem isNumericTag_iff {tag : List Char} :
    SortValue.isNumericTag tag = true ↔ ∃ t : NumericTag, t.text = tag := by
  constructor
  · intro h
    unfold SortValue.isNumericTag at h
    cases hdatatype : Text.stripStart? "^^".toList tag with
    | none =>
      rw [hdatatype] at h
      cases h
    | some datatype =>
      rw [hdatatype] at h
      dsimp only at h
      obtain ⟨opening, hopening⟩ := exists_dropWhile_beq '<' datatype
      obtain ⟨closing, hclosing⟩ :=
        exists_dropWhileEnd_beq '>' (datatype.dropWhile (· == '<'))
      rw [eq_append_of_stripStart? hdatatype, hopening, hclosing]
      obtain ⟨space, hspace, name, hname, hbare⟩ := exists_space_name h
      rw [hbare]
      exact ⟨⟨opening, space, hspace, name, hname, closing⟩, rfl⟩
  · rintro ⟨t, rfl⟩
    obtain ⟨hfirst, hlast, hbare⟩ := isNumericTag_bare t.space t.space_mem t.name t.name_mem
    unfold NumericTag.text
    generalize t.space.toList ++ t.name.toList = bare at hfirst hlast hbare ⊢
    have hnone := strip_brackets hfirst hlast 0 0
    rw [List.replicate_zero, List.replicate_zero, List.nil_append, List.append_nil] at hnone
    unfold SortValue.isNumericTag at hbare ⊢
    simp only [stripStart?_append, hnone] at hbare
    simp only [stripStart?_append, strip_brackets hfirst hlast]
    exact hbare

end Term

end PagedTopK
