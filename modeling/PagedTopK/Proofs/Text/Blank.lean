import Mathlib.Data.List.DropRight
import Mathlib.Tactic.Lemma
import PagedTopK.Text.Alphanumeric
import PagedTopK.Text.Blank

set_option autoImplicit false

/-!
# Trimmed texts

## Main results

* `Text.isNameChar_of_isBlank` — blanks end a name.
* `Text.takeWhile_run`, `Text.dropWhile_run` — a run of a class is read as far as it goes.
* `Text.trimEnd_append`, `Text.trimEnd_eq_self`, `Text.trim_padded`, `Text.trim_eq_self` — what
  trimming removes and what it leaves.
* `Text.exists_trimEnd`, `Text.exists_trim` — a text is its trimmed part with blanks around it.
-/

namespace PagedTopK.Text

/-- **Blanks end a name.** -/
lemma isNameChar_of_isBlank {c : Char} (h : isBlank c = true) : isNameChar c = false := by
  have hplaces : c.toNat ∈ List.range' 0x9 5 ++ [0x20, 0x85, 0xA0, 0x1680] ++
      List.range' 0x2000 11 ++ [0x2028, 0x2029, 0x202F, 0x205F, 0x3000] := by
    simp only [isBlank, Bool.or_eq_true, Bool.and_eq_true, decide_eq_true_eq, beq_iff_eq] at h
    simp only [List.mem_append, List.mem_range'_1, List.mem_cons, List.not_mem_nil, or_false]
    omega
  have hnames : ∀ n ∈ List.range' 0x9 5 ++ [0x20, 0x85, 0xA0, 0x1680] ++
      List.range' 0x2000 11 ++ [0x2028, 0x2029, 0x202F, 0x205F, 0x3000],
      isNameChar (Char.ofNat n) = false := by
    decide +kernel
  rw [← Char.ofNat_toNat c]
  exact hnames c.toNat hplaces

/-! ## Runs -/

section Run

variable {p : Char → Bool} {run rest : List Char}

/-- A run of a class is read as far as it goes. -/
lemma takeWhile_run (hrun : ∀ c ∈ run, p c = true) (hrest : ∀ c ∈ rest.head?, p c = false) :
    (run ++ rest).takeWhile p = run := by
  rw [List.takeWhile_append_of_pos hrun]
  cases rest with
  | nil => exact List.append_nil run
  | cons d rest =>
    rw [List.takeWhile_cons_of_neg (by simp [hrest d rfl]), List.append_nil]

/-- What follows a run is left. -/
lemma dropWhile_run (hrun : ∀ c ∈ run, p c = true) (hrest : ∀ c ∈ rest.head?, p c = false) :
    (run ++ rest).dropWhile p = rest := by
  rw [List.dropWhile_append_of_pos hrun]
  cases rest with
  | nil => rfl
  | cons d rest => rw [List.dropWhile_cons_of_neg (by simp [hrest d rfl])]

end Run

/-! ## Trimming -/

lemma dropWhileEnd_eq_rdropWhile (p : Char → Bool) (cs : List Char) :
    dropWhileEnd p cs = cs.rdropWhile p := rfl

/-- Blanks at the end do not count. -/
lemma trimEnd_append (cs : List Char) {blanks : List Char}
    (h : ∀ c ∈ blanks, isBlank c = true) : trimEnd (cs ++ blanks) = trimEnd cs := by
  rw [trimEnd, dropWhileEnd, List.reverse_append, List.dropWhile_append_of_pos]
  · rfl
  · exact fun c hc => h c (List.mem_reverse.1 hc)

/-- A text that does not end in a blank is left as it is. -/
lemma trimEnd_eq_self {cs : List Char} (h : ∀ c ∈ cs.getLast?, isBlank c = false) :
    trimEnd cs = cs := by
  rw [trimEnd, dropWhileEnd_eq_rdropWhile, List.rdropWhile_eq_self_iff]
  intro hne hblank
  rw [h _ (List.getLast?_eq_some_getLast hne)] at hblank
  cases hblank

/-- What is trimmed off the end are blanks. -/
lemma exists_trimEnd (cs : List Char) :
    ∃ blanks, cs = trimEnd cs ++ blanks ∧ ∀ c ∈ blanks, isBlank c = true := by
  refine ⟨(cs.reverse.takeWhile isBlank).reverse, ?_, fun c hc => ?_⟩
  · rw [trimEnd, dropWhileEnd, ← List.reverse_append, List.takeWhile_append_dropWhile,
      List.reverse_reverse]
  · exact List.all_eq_true.1 List.all_takeWhile c (List.mem_reverse.1 hc)

/-- No blank stands at the end of what is left. -/
lemma isBlank_of_mem_getLast?_trimEnd {cs : List Char} :
    ∀ c ∈ (trimEnd cs).getLast?, isBlank c = false := by
  intro c hc
  rw [trimEnd, dropWhileEnd_eq_rdropWhile] at hc
  have hne : cs.rdropWhile isBlank ≠ [] := by
    intro hnil
    rw [hnil] at hc
    cases hc
  have hlast := List.rdropWhile_last_not isBlank cs hne
  rw [List.getLast?_eq_some_getLast hne, Option.mem_def, Option.some.injEq] at hc
  rw [hc] at hlast
  simpa using hlast

/-- A text that does not end in a blank is not touched by trimming what stands behind it. -/
lemma trimEnd_append_of_getLast? {front : List Char}
    (h : ∀ c ∈ front.getLast?, isBlank c = false) (cs : List Char) :
    trimEnd (front ++ cs) = front ++ trimEnd cs := by
  obtain ⟨blanks, hcs, hblanks⟩ := exists_trimEnd cs
  have hlast : ∀ c ∈ (front ++ trimEnd cs).getLast?, isBlank c = false := by
    intro c hc
    rw [List.getLast?_append] at hc
    cases hkept : (trimEnd cs).getLast? with
    | none =>
      rw [hkept, Option.none_or] at hc
      exact h c hc
    | some d =>
      rw [hkept, Option.some_or] at hc
      exact isBlank_of_mem_getLast?_trimEnd c (hkept.trans hc)
  calc trimEnd (front ++ cs) = trimEnd (front ++ trimEnd cs ++ blanks) := by
        rw [List.append_assoc, ← hcs]
    _ = trimEnd (front ++ trimEnd cs) := trimEnd_append _ hblanks
    _ = front ++ trimEnd cs := trimEnd_eq_self hlast

/-- Nor do blanks at the beginning count. -/
lemma trim_append {blanks : List Char} (h : ∀ c ∈ blanks, isBlank c = true) (cs : List Char) :
    trim (blanks ++ cs) = trim cs := by
  rw [trim, trimStart, List.dropWhile_append_of_pos h]
  rfl

/-- Blanks around a text do not count. -/
lemma trim_padded {before after : List Char} (hbefore : ∀ c ∈ before, isBlank c = true)
    (hafter : ∀ c ∈ after, isBlank c = true) (cs : List Char) :
    trim (before ++ cs ++ after) = trim cs := by
  rw [List.append_assoc, trim_append hbefore, trim, trim, trimStart, trimStart,
    List.dropWhile_append]
  split
  · next hempty =>
    rw [List.isEmpty_iff.1 hempty, List.dropWhile_eq_nil_iff.2 hafter]
  · exact trimEnd_append _ hafter

/-- A text without blanks at its ends is left as it is. -/
lemma trim_eq_self {cs : List Char} (hfirst : ∀ c ∈ cs.head?, isBlank c = false)
    (hlast : ∀ c ∈ cs.getLast?, isBlank c = false) : trim cs = cs := by
  have hstart : trimStart cs = cs := by
    cases cs with
    | nil => rfl
    | cons c rest =>
      rw [trimStart, List.dropWhile_cons_of_neg]
      rw [hfirst c rfl]
      exact Bool.false_ne_true
  rw [trim, hstart, trimEnd_eq_self hlast]

/-- **What is trimmed off are blanks.** -/
lemma exists_trim (cs : List Char) :
    ∃ before after, cs = before ++ trim cs ++ after ∧ (∀ c ∈ before, isBlank c = true) ∧
      ∀ c ∈ after, isBlank c = true := by
  obtain ⟨after, hafter, hblanks⟩ := exists_trimEnd (trimStart cs)
  refine ⟨cs.takeWhile isBlank, after, ?_, List.all_eq_true.1 List.all_takeWhile, hblanks⟩
  rw [List.append_assoc, trim, ← hafter, trimStart, List.takeWhile_append_dropWhile]

/-- A trimmed text has no blanks at its ends. -/
lemma trim_trim (cs : List Char) : trim (trim cs) = trim cs := by
  have hprefix : trim cs <+: trimStart cs := by
    rw [trim, trimEnd, dropWhileEnd_eq_rdropWhile]
    exact List.rdropWhile_prefix isBlank _
  refine trim_eq_self (fun c hc => ?_) isBlank_of_mem_getLast?_trimEnd
  obtain ⟨rest, hrest⟩ := hprefix
  have hstart : (trimStart cs).head? = some c := by
    rw [← hrest, List.head?_append, Option.mem_def.1 hc, Option.some_or]
  have hnot := List.head?_dropWhile_not isBlank cs
  rw [trimStart] at hstart
  rw [hstart] at hnot
  simpa using hnot

end PagedTopK.Text
