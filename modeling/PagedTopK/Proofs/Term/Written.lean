import PagedTopK.Binary64.Layout
import PagedTopK.Proofs.Binary64.Digits
import PagedTopK.Proofs.Term.Numeral

set_option autoImplicit false

/-!
# Doubles written as numerals

A layout decides where the point stands, whether there is an exponent and whether a whole number
has a fraction. None of this changes the number. So what any layout writes of a finite double is a
numeral that is read as the same double, down to the sign of zero.

## Main definitions

* `Layout.Writes` — a text is a numeral without sign that stands for a number.

## Main results

* `Layout.writes_positionalText`, `Layout.writes_scientificText` — both forms are numerals for the
  digits with the first one at its power of ten.
* `Layout.ofText?_write` — a finite double is read back from its text, whatever the layout.
-/

namespace PagedTopK.Layout

/-- **Whether a text is a numeral without sign that stands for a number.** -/
def Writes (cs : List Char) (v : ℚ) : Prop :=
  ∀ s : Term.Sign, ∃ n : Term.Numeral, n.text = s.text ++ cs ∧ n.sign = s ∧ n.decimal.value = v

variable {digits : List Char}

/-- The parts of a numeral, put together. -/
lemma writes {cs : List Char} {v : ℚ} (whole : List Char) (fraction? : Option (List Char))
    (exponent? : Option Term.Exponent) (hwhole : ∀ c ∈ whole, c.isDigit = true)
    (hfraction : ∀ c ∈ fraction?.getD [], c.isDigit = true) (hne : whole ≠ [])
    (hcs : whole ++ (fraction?.elim [] ('.' :: ·) ++ exponent?.elim [] Term.Exponent.text) = cs)
    (hv : Digits.value (whole ++ fraction?.getD []) *
      (10 : ℚ) ^ (exponent?.elim 0 Term.Exponent.value - (fraction?.getD []).length) = v) :
    Writes cs v := by
  subst hcs
  subst hv
  exact fun s => ⟨⟨s, whole, fraction?, exponent?, hwhole, hfraction, .inl hne⟩, rfl, rfl, rfl⟩

lemma isDigit_zeros (n : Nat) : ∀ c ∈ List.replicate n '0', c.isDigit = true := fun _ hc =>
  List.eq_of_mem_replicate hc ▸ rfl

lemma isDigit_zero : ∀ c ∈ ['0'], c.isDigit = true := isDigit_zeros 1

/-- Digits and zeros that fill the gap to a point. -/
lemma value_filled (digits : List Char) {n : Nat} {m point : Int}
    (h : n - m = point - digits.length) :
    (Digits.value digits * 10 ^ n : Nat) * (10 : ℚ) ^ (-m) =
      Digits.value digits * 10 ^ (point - digits.length) := by
  have hten : (10 : ℚ) ≠ 0 := by norm_num
  push_cast
  rw [mul_assoc, ← zpow_natCast, ← zpow_add₀ hten, ← h, sub_eq_add_neg]

/-- **Digits with a point are a numeral** for the digits, as many of them before the point as are
asked for. -/
lemma writes_positionalText (wholeFraction : Bool) (hne : digits ≠ [])
    (hdigits : ∀ c ∈ digits, c.isDigit = true) (point : Int) :
    Writes (positionalText wholeFraction digits point)
      (Digits.value digits * 10 ^ (point - digits.length)) := by
  unfold positionalText
  split
  · -- The digits start after the point.
    have hfraction := List.forall_mem_append.2 ⟨isDigit_zeros point.natAbs, hdigits⟩
    refine writes ['0'] (some _) none isDigit_zero hfraction (List.cons_ne_nil _ _) ?_ ?_
    · simp
    · rw [Option.getD_some, List.singleton_append, ← List.cons_append, ← List.replicate_succ,
        Digits.value_replicate_zero_append, List.length_append, List.length_replicate,
        Option.elim_none]
      congr 2
      omega
  split
  · -- The digits end before the point.
    next hpoint hshort =>
    have hwhole := List.forall_mem_append.2 ⟨hdigits, isDigit_zeros (point.toNat - digits.length)⟩
    have hfilled := List.append_ne_nil_of_left_ne_nil hne
      (List.replicate (point.toNat - digits.length) '0')
    cases wholeFraction with
    | true =>
      refine writes _ (some ['0']) none hwhole isDigit_zero hfilled (by simp) ?_
      rw [Option.getD_some, List.append_assoc, ← List.replicate_succ',
        Digits.value_append_replicate_zero, Option.elim_none, List.length_singleton, zero_sub]
      refine value_filled digits ?_
      omega
    | false =>
      refine writes _ none none hwhole (List.forall_mem_nil _) hfilled (by simp) ?_
      rw [Option.getD_none, List.append_nil, Digits.value_append_replicate_zero, Option.elim_none,
        List.length_nil, zero_sub]
      refine value_filled digits ?_
      omega
  · -- The point stands among the digits.
    next hpoint hlong =>
    have htake : digits.take point.toNat ≠ [] := by
      rw [← List.length_pos_iff, List.length_take]
      omega
    refine writes _ (some (digits.drop point.toNat)) none
      (fun c hc => hdigits c (List.mem_of_mem_take hc))
      (fun c hc => hdigits c (List.mem_of_mem_drop hc)) htake (by simp) ?_
    rw [Option.getD_some, List.take_append_drop, List.length_drop, Option.elim_none]
    congr 2
    omega

/-- Every power of ten can be written, with a plus sign or without. -/
lemma exists_exponent (plusSign : Bool) (e : Int) :
    ∃ exponent : Term.Exponent, exponent.value = e ∧
      exponent.text = 'e' :: ((if e < 0 then ['-'] else if plusSign then ['+'] else []) ++
        Digits.ofNat e.natAbs) := by
  refine ⟨⟨'e', .inl rfl, if e < 0 then .minus else if plusSign then .plus else .none,
    Digits.ofNat e.natAbs, fun c hc => Digits.isDigit_of_mem_ofNat hc, Nat.toDigits_ne_nil⟩, ?_, ?_⟩
  · rw [Term.Exponent.value, Digits.value_ofNat]
    by_cases hneg : e < 0
    · rw [if_pos hneg, Term.Sign.isMinus, if_pos rfl]
      omega
    · rw [if_neg hneg]
      cases plusSign <;> simp [Term.Sign.isMinus] <;> omega
  · unfold Term.Exponent.text
    split
    · rfl
    cases plusSign <;> rfl

/-- **Digits with an exponent are a numeral** for the digits, with one of them before the point. -/
lemma writes_scientificText (plusSign : Bool) (hne : digits ≠ [])
    (hdigits : ∀ c ∈ digits, c.isDigit = true) (e : Int) :
    Writes (scientificText plusSign digits e)
      (Digits.value digits * 10 ^ (e + 1 - digits.length)) := by
  obtain ⟨first, rest, rfl⟩ := List.exists_cons_of_ne_nil hne
  obtain ⟨hfirst, hrest⟩ := List.forall_mem_cons.1 hdigits
  have hsingle : ∀ c ∈ [first], c.isDigit = true := List.forall_mem_singleton.2 hfirst
  obtain ⟨exponent, hvalue, htext⟩ := exists_exponent plusSign e
  unfold scientificText
  cases rest with
  | nil =>
    refine writes [first] none (some exponent) hsingle (List.forall_mem_nil _)
      (List.cons_ne_nil _ _) ?_ ?_
    · simp [htext]
    · simp [hvalue]
  | cons second more =>
    refine writes [first] (some (second :: more)) (some exponent) hsingle hrest
      (List.cons_ne_nil _ _) ?_ ?_
    · simp [htext]
    · rw [Option.getD_some, List.singleton_append, Option.elim_some, hvalue]
      congr 2
      simp only [List.length_cons]
      omega

/-- What is written of a double, its sign aside, is a numeral that its sign turns into the
double. -/
lemma exists_writes_absoluteText (layout : Layout) {x : Binary64} (hx : x.isFinite = true) :
    ∃ d : Decimal, Writes (layout.absoluteText x) d.value ∧
      Binary64.ofDecimal x.negative d = x := by
  unfold absoluteText
  cases hzero : x.isZero with
  | true =>
    refine ⟨⟨0, 0⟩, ?_, ?_⟩
    · have hvalue : (0 : ℚ) = (⟨0, 0⟩ : Decimal).value := by
        rw [Decimal.value, Nat.cast_zero, zero_mul]
      rw [if_pos rfl, ← hvalue]
      cases layout.wholeFraction with
      | true =>
        exact writes ['0'] (some ['0']) none isDigit_zero isDigit_zero (List.cons_ne_nil _ _) rfl
          (zero_mul _)
      | false =>
        exact writes ['0'] none none isDigit_zero (List.forall_mem_nil _) (List.cons_ne_nil _ _) rfl
          (zero_mul _)
    · have hmagnitude : x.magnitude = 0 := by simpa [Binary64.isZero] using hzero
      cases x
      cases hmagnitude
      rfl
  | false =>
    obtain ⟨hc, -, -⟩ := Binary64.bounds_shortest layout.tie hx hzero
    obtain ⟨first, rest, -, hcons, -, hfirst, hrest, -⟩ := Decimal.exists_digits hc
    have hne : (Binary64.shortest layout.tie x).digits ≠ [] := hcons ▸ List.cons_ne_nil _ _
    have hdigits : ∀ c ∈ (Binary64.shortest layout.tie x).digits, c.isDigit = true :=
      hcons ▸ List.forall_mem_cons.2 ⟨hfirst, hrest⟩
    refine ⟨Binary64.shortest layout.tie x, ?_,
      eq_of_beq (Binary64.readsBack_shortest layout.tie hx hzero)⟩
    rw [if_neg (by decide), Decimal.value_eq_digits hc]
    dsimp only
    split
    · exact writes_positionalText _ hne hdigits _
    · exact writes_scientificText _ hne hdigits _

/-- **A finite double is read back from its text**, whatever the layout. -/
theorem ofText?_write (layout : Layout) {x : Binary64} (hx : x.isFinite = true) :
    Binary64.ofText? (layout.write x) = some x := by
  obtain ⟨d, hwrites, hback⟩ := exists_writes_absoluteText layout hx
  obtain ⟨n, htext, hsign, hvalue⟩ := hwrites (if x.negative then .minus else .none)
  have hnumber := Binary64.isNaN_of_isFinite hx
  have hwrite : layout.write x = n.text := by
    rw [htext, write, hnumber, if_neg (by decide), hx, if_pos rfl]
    cases x.negative <;> rfl
  have hminus : n.sign.isMinus = x.negative := by
    rw [hsign]
    cases x.negative <;> rfl
  have hlt : n.decimal.value < Binary64.overflow := by
    rw [hvalue, ← Binary64.isFinite_ofDecimal_iff x.negative, hback]
    exact hx
  rw [hwrite, n.ofText?_text, hminus, Binary64.ofDecimal_eq_of_value_eq x.negative hlt hvalue,
    hback]

end PagedTopK.Layout
