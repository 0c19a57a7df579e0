import PagedTopK.Proofs.Term.Numeral

set_option autoImplicit false

/-!
# The order of numerals

A numeral is sorted by the double nearest to the number that it stands for, unless that number is
beyond all finite doubles: then it is sorted as any other literal. So numerals are in the order of
their numbers as far as doubles can tell these apart.

## Main definitions

* `Term.NumericTerm` — a numeral as a term.

## Main results

* `Term.NumericTerm.ofText_text` — what a numeral is sorted by.
* `Term.order_of_numerals` — how numerals are ordered.
* `Term.numerals_between_doubles_tie` — two numbers that doubles do not tell apart.
-/

namespace PagedTopK

open Binary64 (overflow ofDecimal Nearest)

namespace SortValue

/-- A term that begins as no blank node and no IRI is a literal. -/
lemma ofText_of_head {c : Char} {rest : List Char} (h : c ∉ ['_', '<', 'h', 'u']) :
    ofText (String.ofList (c :: rest)) = ofLiteral (c :: rest) := by
  simp only [List.mem_cons, List.not_mem_nil, or_false, not_or] at h
  obtain ⟨hblank, hbracket, hhttp, hurn⟩ := h
  have hstart : Text.stripStart? "_:".toList (c :: rest) = none := by
    simp [Text.stripStart?, List.isPrefixOf, Ne.symm hblank]
  have hbracketed : Term.bracketed? (c :: rest) = none := by
    unfold Term.bracketed?
    split
    · next heq => exact absurd (List.cons.inj heq).1 hbracket
    · rfl
  have hscheme : hasIriScheme (c :: rest) = false := by
    simp [hasIriScheme, List.isPrefixOf, Ne.symm hhttp, Ne.symm hurn]
  have hchars : (String.ofList (c :: rest)).toList = c :: rest := String.toList_ofList
  rw [ofText, hchars]
  simp only [hstart, hbracketed, hscheme]
  rfl

end SortValue

namespace Term

/-- **A numeral as a term**: bare, or in quotes with a numeric datatype. -/
structure NumericTerm where
  /-- The numeral. -/
  numeral : Numeral
  /-- The datatype, if there is one. -/
  tag? : Option NumericTag

namespace NumericTerm

/-- How the term is written. -/
def text (t : NumericTerm) : String :=
  String.ofList (t.tag?.elim t.numeral.text fun tag => '"' :: (t.numeral.text ++ '"' :: tag.text))

/-- The datatype as it is written, empty if there is none. -/
def tagText (t : NumericTerm) : String := String.ofList (t.tag?.elim [] NumericTag.text)

/-- The number that the term stands for. -/
def value (t : NumericTerm) : ℚ := t.numeral.value

/-- Whether the term is written with a minus sign. -/
def isMinus (t : NumericTerm) : Bool := t.numeral.sign.isMinus

/-- The double that the term is read as. -/
def double (t : NumericTerm) : Binary64 := ofDecimal t.isMinus t.numeral.decimal

/-! ## What a numeral is sorted by -/

lemma quote_not_mem_tag (tag : NumericTag) : '"' ∉ tag.text := by
  have hspace : ∀ space ∈ [SortValue.datatypeNamespace, "xsd:", ""], '"' ∉ space.toList := by
    decide +kernel
  have hname : ∀ name ∈ SortValue.numericTypes, '"' ∉ name.toList := by decide +kernel
  simp [NumericTag.text, hspace tag.space tag.space_mem, hname tag.name tag.name_mem]

/-- A numeral begins as nothing else. -/
lemma exists_cons_text (n : Numeral) :
    ∃ c rest, n.text = c :: rest ∧ c ∉ ['_', '<', 'h', 'u'] ∧ c ≠ '"' := by
  obtain ⟨c, rest, hcons⟩ := List.exists_cons_of_ne_nil n.text_ne
  have hc := n.isCharacter_of_mem_text (hcons ▸ List.mem_cons_self)
  refine ⟨c, rest, hcons, ?_⟩
  rcases hc with hdigit | hother
  · have hnone : c ∉ ['_', '<', 'h', 'u', '"'] := by
      intro hmem
      simp only [List.mem_cons, List.not_mem_nil, or_false] at hmem
      rcases hmem with rfl | rfl | rfl | rfl | rfl <;> cases hdigit
    exact ⟨fun hmem => hnone (List.mem_append_left ['"'] hmem), fun h => hnone (by simp [h])⟩
  · simp only [List.mem_cons, List.not_mem_nil, or_false] at hother
    rcases hother with rfl | rfl | rfl | rfl | rfl <;> decide

/-- **What a numeral is sorted by**: the double that it is read as, or, if that is not finite, its
text. -/
theorem ofText_text (t : NumericTerm) :
    SortValue.ofText t.text =
      if t.double.isFinite then .numeric t.double
      else .literal (String.ofList t.numeral.text) t.tagText := by
  have hnumber : SortValue.number? t.numeral.text =
      if t.double.isFinite then some t.double else none := by
    rw [t.numeral.number?_text, Option.filter_some]
    rfl
  obtain ⟨c, rest, hcons, hfirst, hquote⟩ := exists_cons_text t.numeral
  unfold text tagText
  cases t.tag? with
  | none =>
    have hparts : quotedParts? t.numeral.text = none := by
      rw [hcons]
      unfold quotedParts?
      split
      · next heq => exact absurd (List.cons.inj heq).1 hquote
      · rfl
    rw [Option.elim_none, hcons, SortValue.ofText_of_head hfirst, ← hcons, SortValue.ofLiteral,
      hparts, hnumber]
    cases t.double.isFinite <;> rfl
  | some tag =>
    have hparts : quotedParts? ('"' :: (t.numeral.text ++ '"' :: tag.text)) =
        some (t.numeral.text, tag.text) :=
      quotedParts?_append (quote_not_mem_tag tag)
    have htag := isNumericTag_iff.2 ⟨tag, rfl⟩
    rw [Option.elim_some, SortValue.ofText_of_head (by decide), SortValue.ofLiteral, hparts]
    simp only [htag, if_true, hnumber]
    cases t.double.isFinite <;> rfl

/-! ## Which double it is -/

lemma isFinite_double_iff (t : NumericTerm) : t.double.isFinite = true ↔ |t.value| < overflow := by
  rw [double, Binary64.isFinite_ofDecimal_iff, t.numeral.value_decimal, value,
    t.numeral.abs_value]

lemma negative_double (t : NumericTerm) : t.double.negative = t.isMinus :=
  Binary64.negative_ofDecimal _ _

/-- The double has the sign that is written. -/
lemma hasSign_double (t : NumericTerm) : t.double.HasSign t.value := by
  have hnonneg := t.numeral.absolute_nonneg
  rw [Binary64.HasSign, t.negative_double, isMinus, value, Numeral.value]
  split
  · exact neg_nonpos.2 hnonneg
  · exact hnonneg

/-- **A numeral is read as the double nearest to its number.** -/
lemma nearest_double {t : NumericTerm} (h : |t.value| < overflow) : Nearest t.double t.value := by
  have habs : |t.value| = t.numeral.decimal.value := by
    rw [value, t.numeral.abs_value, t.numeral.value_decimal]
  exact Binary64.nearest_ofDecimal (habs ▸ h) habs t.hasSign_double

end NumericTerm

/-! ## Order -/

namespace NumericTerm

/-- How two numerals are sorted. -/
def order (a b : NumericTerm) : Ordering :=
  SortValue.order (SortValue.ofText a.text) (SortValue.ofText b.text)

variable {a b : NumericTerm}

/-- Numerals that are read as finite doubles are sorted as these. -/
lemma order_of_lt_overflow (ha : |a.value| < overflow) (hb : |b.value| < overflow) :
    a.order b = (compare a.double.toRat b.double.toRat).then (compare b.isMinus a.isMinus) := by
  rw [order, ofText_text, ofText_text, if_pos (a.isFinite_double_iff.2 ha),
    if_pos (b.isFinite_double_iff.2 hb), SortValue.order_numeric,
    Binary64.order_eq_compare_toRat, negative_double, negative_double]

lemma ofText_of_overflow_le (ha : overflow ≤ |a.value|) :
    SortValue.ofText a.text = .literal (String.ofList a.numeral.text) a.tagText := by
  rw [ofText_text, if_neg]
  rw [a.isFinite_double_iff]
  exact not_lt.2 ha

lemma ofText_of_lt_overflow (ha : |a.value| < overflow) :
    SortValue.ofText a.text = .numeric a.double := by
  rw [ofText_text, if_pos (a.isFinite_double_iff.2 ha)]

/-- A number with a minus sign is not above zero. -/
lemma value_nonpos (h : a.isMinus = true) : a.value ≤ 0 := by
  have hsign := a.hasSign_double
  rwa [Binary64.HasSign, negative_double, if_pos h] at hsign

/-- A number without a minus sign is not below zero. -/
lemma value_nonneg (h : a.isMinus = false) : 0 ≤ a.value := by
  have hsign := a.hasSign_double
  rwa [Binary64.HasSign, negative_double, h, if_neg (by decide)] at hsign

/-- The signs of a smaller and a greater number are not the other way round. -/
lemma compare_isMinus_ne_gt (h : a.value < b.value) : compare b.isMinus a.isMinus ≠ .gt := by
  cases ha : a.isMinus <;> cases hb : b.isMinus
  · decide
  · exact absurd h (not_lt.2 ((value_nonpos hb).trans (value_nonneg ha)))
  · decide
  · decide

/-- Equal numbers other than zero have the same sign. -/
lemma isMinus_eq_of_value_eq (h : a.value = b.value) (hne : a.value ≠ 0) :
    a.isMinus = b.isMinus := by
  cases ha : a.isMinus <;> cases hb : b.isMinus
  · rfl
  · exact absurd (le_antisymm (h ▸ value_nonpos hb) (value_nonneg ha)) hne
  · exact absurd (le_antisymm (value_nonpos ha) (h ▸ value_nonneg hb)) hne
  · rfl

end NumericTerm

open NumericTerm (order_of_lt_overflow ofText_of_lt_overflow ofText_of_overflow_le nearest_double)

/-- **Numerals are ordered by the nearest doubles.** The doubles nearest to two numbers below the
overflow are compared, and of two zeros the one with a minus sign is the lower one. So a smaller
number is never sorted above a greater one, equal numbers tie unless they are zero and only one of
them has a minus sign, and numbers that are doubles are ordered exactly. A numeral at or beyond the
overflow is sorted above all others, and two such by their texts.

**Proof sketch.** A numeral is read as the decimal that it writes (`Numeral.ofText?_text`), and that
as the nearest double (`Binary64.nearest_ofDecimal`). Finite doubles are ordered by their numbers
(`Binary64.order_eq_compare_toRat`), and nearest doubles do not reverse the order of two numbers
(`Binary64.Nearest.toRat_le`). -/
theorem order_of_numerals (a b : NumericTerm) :
    (|a.value| < overflow → |b.value| < overflow → ∃ x y : Binary64,
      Nearest x a.value ∧ Nearest y b.value ∧
      a.order b = (compare x.toRat y.toRat).then (compare b.isMinus a.isMinus)) ∧
    (|a.value| < overflow → |b.value| < overflow → a.value < b.value → a.order b ≠ .gt) ∧
    (|a.value| < overflow → a.value = b.value →
      a.order b = if a.value = 0 then compare b.isMinus a.isMinus else .eq) ∧
    (∀ x y : Binary64, x.isFinite = true → y.isFinite = true → a.value = x.toRat →
      b.value = y.toRat →
      a.order b = (compare a.value b.value).then (compare b.isMinus a.isMinus)) ∧
    (|a.value| < overflow → overflow ≤ |b.value| → a.order b = .lt) ∧
    (overflow ≤ |a.value| → |b.value| < overflow → a.order b = .gt) ∧
    (overflow ≤ |a.value| → overflow ≤ |b.value| →
      a.order b = (compare (String.ofList a.numeral.text) (String.ofList b.numeral.text)).then
        (compare a.tagText b.tagText)) := by
  refine ⟨fun ha hb => ?_, fun ha hb hlt => ?_, fun ha heq => ?_, fun x y hx hy hax hby => ?_,
    fun ha hb => ?_, fun ha hb => ?_, fun ha hb => ?_⟩
  · exact ⟨_, _, nearest_double ha, nearest_double hb, order_of_lt_overflow ha hb⟩
  · rw [order_of_lt_overflow ha hb]
    rcases ((nearest_double ha).toRat_le (nearest_double hb) hlt).lt_or_eq with hless | heq
    · rw [compare_lt_iff_lt.2 hless]
      exact fun h => by cases h
    · rw [compare_eq_iff_eq.2 heq]
      exact NumericTerm.compare_isMinus_ne_gt hlt
  · have hb : |b.value| < overflow := heq ▸ ha
    have hsame : a.double.toRat = b.double.toRat :=
      (nearest_double ha).toRat_eq (heq ▸ nearest_double hb)
    rw [order_of_lt_overflow ha hb, compare_eq_iff_eq.2 hsame]
    show compare b.isMinus a.isMinus = _
    split
    · rfl
    · next hne =>
      rw [NumericTerm.isMinus_eq_of_value_eq heq hne]
      exact compare_eq_iff_eq.2 rfl
  · have ha : |a.value| < overflow := hax ▸ Binary64.abs_toRat_lt_overflow hx
    have hb : |b.value| < overflow := hby ▸ Binary64.abs_toRat_lt_overflow hy
    have hfirst := (hax ▸ nearest_double ha : Nearest a.double x.toRat).toRat_eq_self hx
    have hsecond := (hby ▸ nearest_double hb : Nearest b.double y.toRat).toRat_eq_self hy
    rw [order_of_lt_overflow ha hb, hfirst, hsecond, hax, hby]
  · rw [NumericTerm.order, ofText_of_lt_overflow ha, ofText_of_overflow_le hb]
    rfl
  · rw [NumericTerm.order, ofText_of_overflow_le ha, ofText_of_lt_overflow hb]
    rfl
  · rw [NumericTerm.order, ofText_of_overflow_le ha, ofText_of_overflow_le hb]
    simp [SortValue.order, SortValue.kind, SortValue.numberPlace, SortValue.mainText,
      SortValue.tagText]

/-- The numeral of an integer without sign, as a bare term. -/
def NumericTerm.ofNat (n : Nat) : NumericTerm where
  numeral :=
    { sign := .none
      whole := Digits.ofNat n
      fraction? := none
      exponent? := none
      whole_isDigit := fun _ => Digits.isDigit_of_mem_ofNat
      fraction_isDigit := List.forall_mem_nil _
      hasDigit := .inl (List.ne_nil_of_length_pos Nat.length_toDigits_pos) }
  tag? := none

lemma NumericTerm.value_ofNat (n : Nat) : (ofNat n).value = n := by
  have hvalue : (ofNat n).value =
      ((Digits.value (Digits.ofNat n) : ℚ) + (Digits.value [] : Nat) / 10 ^ 0) * 10 ^ (0 : ℤ) := rfl
  rw [hvalue, Digits.value_ofNat]
  simp [Digits.value]

/-- **Two numbers that doubles do not tell apart.** The first integer that is no double is half-way
between two doubles, and ties with the lower one. -/
theorem numerals_between_doubles_tie :
    ∃ a b : NumericTerm, a.text = "9007199254740993" ∧ b.text = "9007199254740992" ∧
      b.value < a.value ∧ a.order b = .eq := by
  refine ⟨.ofNat 9007199254740993, .ofNat 9007199254740992, by decide +kernel, by decide +kernel,
    ?_, by decide +kernel⟩
  rw [NumericTerm.value_ofNat, NumericTerm.value_ofNat]
  norm_num

end Term

end PagedTopK
